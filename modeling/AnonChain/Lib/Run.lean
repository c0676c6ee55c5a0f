import Mathlib

/-! Transition systems: reachable states, invariants, restricted runs, runs with history. -/

namespace AnonChain.Lib

structure System (σ α : Type) where
  init : σ → Prop
  step : σ → α → σ → Prop

namespace System

variable {σ α : Type} {S : System σ α}

inductive Reachable (S : System σ α) : σ → Prop where
  | init {s : σ} : S.init s → Reachable S s
  | step {s s' : σ} {a : α} : Reachable S s → S.step s a s' → Reachable S s'

theorem Reachable.invariant {P : σ → Prop} (hi : ∀ s, S.init s → P s)
    (hs : ∀ s a s', S.Reachable s → P s → S.step s a s' → P s') {s : σ}
    (h : S.Reachable s) : P s := by
  induction h with
  | init h0 => exact hi _ h0
  | step hr hst ih => exact hs _ _ _ hr ih hst

theorem Reachable.mono {T : System σ α} (hi : ∀ s, S.init s → T.init s)
    (hs : ∀ s a s', S.step s a s' → T.step s a s') {s : σ} (h : S.Reachable s) : T.Reachable s := by
  induction h with
  | init h0 => exact .init (hi _ h0)
  | step _ hst ih => exact .step ih (hs _ _ _ hst)

/-- A list of moves that can be made one after the other, each a step of the system, with a test of
the state they end in. -/
theorem Reachable.follow {β : Type} {next : σ → β → Option σ} {test : σ → Bool}
    (hn : ∀ s b s', next s b = some s' → ∃ a, S.step s a s') {moves : List β} {s : σ}
    (h : S.Reachable s)
    (hr : (moves.foldlM next s).any test = true) : ∃ s', S.Reachable s' ∧ test s' = true := by
  induction moves generalizing s with
  | nil => exact ⟨s,h,hr⟩
  | cons b _ ih =>
    obtain ⟨s',hs',hts⟩ := (Option.any_eq_true _ _).mp hr
    obtain ⟨t,ht,hrs⟩ := Option.bind_eq_some_iff.mp hs'
    obtain ⟨a,ha⟩ := hn s b t ht
    exact ih (h.step ha) ((Option.any_eq_true _ _).mpr ⟨s',hrs,hts⟩)

/-- The runs of `S` whose every step meets `G`. -/
def restrict (S : System σ α) (G : σ → α → σ → Prop) : System σ α where
  init := S.init
  step s a s' := S.step s a s' ∧ G s a s'

theorem Reachable.of_restrict {G : σ → α → σ → Prop} {s : σ} (h : (S.restrict G).Reachable s) :
    S.Reachable s := by
  induction h with
  | init h0 => exact .init h0
  | step _ hs ih => exact .step ih hs.1

/-- The runs of `S` together with everything their steps put out. -/
def recorded {β : Type} (S : System σ α) (out : σ → α → List β) : System (σ × List β) α where
  init p := S.init p.1 ∧ p.2 = []
  step p a p' := S.step p.1 a p'.1 ∧ p'.2 = p.2 ++ out p.1 a

theorem Reachable.of_recorded {β : Type} {out : σ → α → List β} {p : σ × List β}
    (h : (S.recorded out).Reachable p) : S.Reachable p.1 := by
  induction h with
  | init h0 => exact .init h0.1
  | step _ hs ih => exact .step ih hs.1

theorem Reachable.recorded {β : Type} (out : σ → α → List β) {s : σ} (h : S.Reachable s) :
    ∃ l, (S.recorded out).Reachable (s,l) := by
  induction h with
  | init h0 => exact ⟨[],.init ⟨h0,rfl⟩⟩
  | @step s s' a _ hs ih =>
    obtain ⟨l,hl⟩ := ih
    exact ⟨l ++ out s a,hl.step ⟨hs,rfl⟩⟩

end System

end AnonChain.Lib
