import Mathlib

/-! Sequences of guards over `Except`, and the inversion rules for successful runs. -/

namespace AnonChain.Lib

open List

variable {ε α β σ : Type} {x : Except ε α}

def ensure (c : Prop) [Decidable c] (e : ε) : Except ε Unit :=
  if c then .ok () else .error e

def orFail (o : Option α) (e : ε) : Except ε α :=
  match o with
  | some a => .ok a
  | none => .error e

theorem ensure_eq_ok {c : Prop} [Decidable c] {e : ε} {r : Unit} :
    ensure c e = .ok r ↔ c := by
  unfold ensure
  split <;> rename_i hc <;> simp [hc]

theorem orFail_eq_ok {o : Option α} {e : ε} {r : α} :
    orFail o e = .ok r ↔ o = some r := by cases o <;> simp [orFail]

theorem bind_eq_ok {k : α → Except ε β} {r : β} :
    (x >>= k) = .ok r ↔ ∃ a, x = .ok a ∧ k a = .ok r := by cases x <;> simp [bind,Except.bind]

theorem ok_bind (a : α) (k : α → Except ε β) : ((Except.ok a : Except ε α) >>= k) = k a := rfl

theorem pure_eq_ok {a r : α} : (pure a : Except ε α) = .ok r ↔ a = r := by simp [pure,Except.pure]

theorem toOption_eq_some {a : α} : x.toOption = some a ↔ x = .ok a := by
  cases x <;> simp [Except.toOption]

theorem isOk_iff : x.isOk = true ↔ ∃ a, x = .ok a := by cases x <;> simp [Except.isOk,Except.toBool]

theorem foldl_keeps {f : σ → α → σ} {P : σ → Prop} {l : List α} {s : σ}
    (hs : ∀ a ∈ l, ∀ t, P t → P (f t a)) (h0 : P s) : P (l.foldl f s) := by
  induction l generalizing s with
  | nil => exact h0
  | cons a l ih =>
    exact ih (fun b hb => hs b (mem_cons_of_mem a hb)) (hs a mem_cons_self s h0)

def holds (x : Except ε α) (p : α → Bool) : Bool :=
  match x with
  | .ok a => p a
  | .error _ => false

theorem holds_iff {p : α → Bool} :
    holds x p = true ↔ ∃ a, x = .ok a ∧ p a = true := by cases x <;> simp [holds]

theorem foldlM_keeps {f : σ → α → Except ε σ} {P : σ → Prop} {l : List α} {s r : σ}
    (hs : ∀ a ∈ l, ∀ t t', P t → f t a = .ok t' → P t') (h0 : P s) (h : l.foldlM f s = .ok r) :
    P r := by
  induction l generalizing s with
  | nil =>
    rw [foldlM_nil,pure_eq_ok] at h
    exact h ▸ h0
  | cons a l ih =>
    rw [foldlM_cons,bind_eq_ok] at h
    obtain ⟨t,ht,hr⟩ := h
    exact ih (fun b hb => hs b (mem_cons_of_mem a hb))
      (hs a mem_cons_self s t h0 ht) hr

end AnonChain.Lib
