import Mathlib

/-! Binary search for the first index at which a test holds, as a loop that halves an interval. -/

namespace AnonChain.Lib

open List

/-- The loop over `[i, j)`; every round drops at least one index, so `j - i` rounds are enough. -/
def sortSearchLoop (f : Nat → Bool) : Nat → Nat → Nat → Nat
  | 0, i, _ => i
  | rounds+1, i, j =>
    if i < j then
      let h := (i+j)/2
      if f h then sortSearchLoop f rounds i h else sortSearchLoop f rounds (h+1) j
    else i

/-- `sort.Search`: the smallest index in `[0, n)` at which `f` holds, and `n` if there is none. -/
def sortSearch (n : Nat) (f : Nat → Bool) : Nat := sortSearchLoop f n 0 n

/-- `r` splits `[0, n)` into the indices that fail the test and those that pass it. -/
structure SplitsAt (n : Nat) (f : Nat → Bool) (r : Nat) : Prop where
  le : r ≤ n
  below : ∀ k, k < r → f k = false
  above : ∀ k, r ≤ k → k < n → f k = true

variable {n : Nat} {f : Nat → Bool}

theorem sortSearchLoop_splits (hf : ∀ a b, a ≤ b → b < n → f a = true → f b = true)
    {rounds i j : Nat} (hi : i ≤ j) (hr : j-i ≤ rounds) (hj : j ≤ n) (hl : ∀ k, k < i → f k = false)
    (hh : ∀ k, j ≤ k → k < n → f k = true) : SplitsAt n f (sortSearchLoop f rounds i j) := by
  induction rounds generalizing i j with
  | zero =>
    obtain rfl : i = j := by omega
    exact ⟨hj,hl,hh⟩
  | succ _ ih =>
    simp only [sortSearchLoop]
    split
    · split
      · rename_i hlt ht
        apply ih
        · omega
        · omega
        · omega
        · exact hl
        · intro k hk hkn
          exact hf _ k hk hkn ht
      · rename_i hlt ht
        apply ih
        · omega
        · omega
        · exact hj
        · intro k hk
          -- a passing index at or below the middle would make the middle pass
          cases hfk : f k with
          | false => rfl
          | true => exact absurd (hf k _ (by omega) (by omega) hfk) ht
        · exact hh
    · obtain rfl : i = j := by omega
      exact ⟨hj,hl,hh⟩

theorem sortSearch_splits (hf : ∀ a b, a ≤ b → b < n → f a = true → f b = true) :
    SplitsAt n f (sortSearch n f) := by
  apply sortSearchLoop_splits hf
  · omega
  · omega
  · omega
  · omega
  · omega

theorem sortSearch_increasing {α : Type} [LinearOrder α] {l : List α}
    (hl : l.Pairwise (· < ·)) (h d : α) :
    sortSearch l.length (fun i => decide (h < l.getD i d)) ≤ l.length ∧
      ∀ i x, l[i]? = some x → (i < sortSearch l.length (fun i => decide (h < l.getD i d)) ↔
        x ≤ h) := by
  have hm : ∀ a b, a ≤ b → b < l.length → decide (h < l.getD a d) = true →
      decide (h < l.getD b d) = true := by
    intro a b hab hb ha
    rw [decide_eq_true_eq] at ha ⊢
    rw [getD_eq_getElem _ _ (by omega)] at ha
    rw [getD_eq_getElem _ _ hb]
    rcases Nat.lt_or_eq_of_le hab with hlt | he
    · exact lt_trans ha (pairwise_iff_getElem.mp hl a b _ hb hlt)
    · subst he
      exact ha
  have hs := sortSearch_splits hm
  constructor
  · exact hs.le
  · intro i x hx
    obtain ⟨hi,rfl⟩ := List.getElem?_eq_some_iff.mp hx
    constructor
    · intro hlt
      have hf := hs.below i hlt
      rw [decide_eq_false_iff_not,getD_eq_getElem _ _ hi] at hf
      exact not_lt.mp hf
    · intro hle
      by_contra hg
      have ht := hs.above i (Nat.not_lt.mp hg) hi
      rw [decide_eq_true_eq,getD_eq_getElem _ _ hi] at ht
      exact absurd hle (not_le.mpr ht)

end AnonChain.Lib
