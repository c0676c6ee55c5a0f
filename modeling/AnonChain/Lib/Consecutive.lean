import Mathlib

/-! Ascending lists of numbers without gaps. -/

namespace AnonChain.Lib

open List

variable {α : Type} {num : α → Nat}

/-- The elements are `n`, `n + 1`, and so on. -/
def ConsecutiveFrom {α : Type} (num : α → Nat) : Nat → List α → Prop
  | _, [] => True
  | n, a :: l => num a = n ∧ ConsecutiveFrom num (n+1) l

instance decidableConsecutiveFrom {α : Type} (num : α → Nat) :
    (n : Nat) → (l : List α) → Decidable (ConsecutiveFrom num n l)
  | _, [] => .isTrue trivial
  | n, a :: l =>
    have := decidableConsecutiveFrom num (n+1) l
    inferInstanceAs (Decidable (num a = n ∧ _))

theorem consecutiveFrom_append {n : Nat} {l l' : List α} :
    ConsecutiveFrom num n (l ++ l') ↔ ConsecutiveFrom num n l ∧
      ConsecutiveFrom num (n+l.length) l' := by
  induction l generalizing n with
  | nil => simp [ConsecutiveFrom]
  | cons a l ih =>
    have hl : n+(a :: l).length = n+1+l.length := by
      rw [length_cons]
      omega
    rw [cons_append,ConsecutiveFrom,ConsecutiveFrom,ih,hl,and_assoc]

theorem ConsecutiveFrom.le_of_mem {n : Nat} {l : List α} (h : ConsecutiveFrom num n l)
    {a : α} (ha : a ∈ l) : n ≤ num a := by
  induction l generalizing n with
  | nil => cases ha
  | cons b l ih =>
    obtain ⟨hb,hr⟩ := h
    rcases mem_cons.mp ha with rfl | ha
    · exact Nat.le_of_eq hb.symm
    · have hl := ih hr ha
      omega

theorem ConsecutiveFrom.pairwise_lt {n : Nat} {l : List α} (h : ConsecutiveFrom num n l) :
    l.Pairwise (fun x y => num x < num y) := by
  induction l generalizing n with
  | nil => exact .nil
  | cons a l ih =>
    obtain ⟨ha,hr⟩ := h
    refine .cons (fun b hb => ?_) (ih hr)
    have hl := hr.le_of_mem hb
    omega

end AnonChain.Lib
