import AnonChain.Lib.Checked

/-! Two computations that fail together, with the same error, or succeed with related results. -/

namespace AnonChain.Lib

variable {ε α β γ δ : Type}

inductive Matches (P : α → β → Prop) : Except ε α → Except ε β → Prop
  | ok {a : α} {b : β} : P a b → Matches P (.ok a) (.ok b)
  | error (e : ε) : Matches P (.error e) (.error e)

namespace Matches

variable {P : α → β → Prop} {Q : γ → δ → Prop}

theorem same {P : α → α → Prop} (h : ∀ a, P a a) (x : Except ε α) : Matches P x x := by
  cases x with
  | error e => exact .error e
  | ok a => exact .ok (h a)

theorem bind {x : Except ε α} {y : Except ε β} {f : α → Except ε γ} {g : β → Except ε δ}
    (h : Matches P x y)
    (hf : ∀ a b, P a b → Matches Q (f a) (g b)) : Matches Q (x >>= f) (y >>= g) := by
  cases h with
  | ok ha => exact hf _ _ ha
  | error e => exact .error e

theorem bind_same {x : Except ε α} {f : α → Except ε γ} {g : α → Except ε δ}
    (hf : ∀ a, Matches Q (f a) (g a)) : Matches Q (x >>= f) (x >>= g) :=
  (same (P := Eq) (fun _ => rfl) x).bind fun a _ ha => ha ▸ hf a

theorem foldlM {σ τ : Type} {P : σ → τ → Prop} {f : σ → α → Except ε σ} {g : τ → α → Except ε τ}
    (hf : ∀ a s t, P s t → Matches P (f s a) (g t a)) (l : List α) {s : σ} {t : τ} (h : P s t) :
    Matches P (l.foldlM f s) (l.foldlM g t) := by
  induction l generalizing s t with
  | nil => exact .ok h
  | cons a l ih =>
    exact (hf a s t h).bind fun _ _ hs => ih hs

end Matches

theorem foldl_relates {σ τ : Type} {P : σ → τ → Prop} {f : σ → α → σ} {g : τ → α → τ}
    (hf : ∀ a s t, P s t → P (f s a) (g t a)) (l : List α) {s : σ} {t : τ} (h : P s t) :
    P (l.foldl f s) (l.foldl g t) := by
  induction l generalizing s t with
  | nil => exact h
  | cons a l ih => exact ih (hf a s t h)

end AnonChain.Lib
