import Mathlib

/-! Levels of candidates, where one counts only if a chain of earlier ones leads to it. -/

namespace AnonChain.Lib

variable {K : Type}

/-- `k` is in level `e` and one member of each level before it, from level 1 on, leads to it. -/
inductive Anchored (level : Nat → K → Prop) (before : K → K → Prop) : Nat → K → Prop where
  | first {k : K} : level 1 k → Anchored level before 1 k
  | next {e : Nat} {p k : K} : Anchored level before e p → before p k → level (e+1) k →
      Anchored level before (e+1) k

/-- An anchored candidate whose successors are all the successors of its level. -/
structure Leads (level : Nat → K → Prop) (before : K → K → Prop) (e : Nat) (b : K) : Prop where
  anchored : Anchored level before e b
  leads : ∀ p, Anchored level before e p → ∀ k, before p k → before b k

variable {level level' : Nat → K → Prop} {before before' : K → K → Prop} {e : Nat} {b k : K}

theorem Anchored.mem (h : Anchored level before e k) : level e k := by
  cases h with
  | first h => exact h
  | next _ _ h => exact h

theorem Anchored.pos (h : Anchored level before e k) : 1 ≤ e := by
  cases h with
  | first _ => exact Nat.le_refl 1
  | next _ _ _ => exact Nat.le_add_left 1 _

theorem anchored_one : Anchored level before 1 k ↔ level 1 k := by
  constructor
  · exact Anchored.mem
  · exact .first

theorem Anchored.parent (h : Anchored level before (e+1) k) (he : 1 ≤ e) :
    ∃ p, Anchored level before e p ∧ before p k := by
  cases h with
  | first _ => exact absurd he (by decide)
  | next hp hb _ => exact ⟨_,hp,hb⟩

theorem Leads.anchored_succ (hb : Leads level before e b) :
    Anchored level before (e+1) k ↔ before b k ∧ level (e+1) k := by
  constructor
  · intro h
    obtain ⟨p,hp,hpk⟩ := h.parent hb.anchored.pos
    exact ⟨hb.leads p hp k hpk,h.mem⟩
  · intro h
    exact hb.anchored.next h.1 h.2

theorem not_anchored_succ (he : 1 ≤ e) (h : ∀ p, ¬ Anchored level before e p) :
    ¬ Anchored level before (e+1) k := by
  intro hk
  obtain ⟨p,hp, -⟩ := hk.parent he
  exact h p hp

theorem Anchored.imp (h : Anchored level before e k)
    (hl : ∀ i m, i ≤ e → Anchored level before i m → level' i m)
    (hb : ∀ i p m, i < e → Anchored level before i p → Anchored level before (i+1) m →
      before p m → before' p m) : Anchored level' before' e k := by
  induction h with
  | first hk => exact .first (hl _ _ (Nat.le_refl 1) (.first hk))
  | @next i p m hp hpm hm ih =>
    have hpm' := hb i p m (Nat.lt_succ_self i) hp (hp.next hpm hm) hpm
    have hm' := hl (i+1) m (Nat.le_refl _) (hp.next hpm hm)
    refine .next (ih ?_ ?_) hpm' hm'
    · exact fun j q hj => hl j q (Nat.le_succ_of_le hj)
    · exact fun j q r hj => hb j q r (Nat.lt_succ_of_lt hj)

end AnonChain.Lib
