import Mathlib

/-! Entries filed under numbers in non-decreasing order, read back number by number. -/

namespace AnonChain.Lib

open List

variable {α : Type} {num : α → Nat}

theorem filter_eq_append_filter_ne {l : List α} {lo : Nat}
    (hs : l.Pairwise (fun a b => num a ≤ num b))
    (hlo : ∀ a ∈ l, lo ≤ num a) :
    l.filter (fun a => num a = lo) ++ l.filter (fun a => num a ≠ lo) = l := by
  induction l with
  | nil => rfl
  | cons a l ih =>
    rw [pairwise_cons] at hs
    rw [forall_mem_cons] at hlo
    by_cases ha : num a = lo
    · simpa [ha] using ih hs.2 hlo.2
    · have hn : ∀ b ∈ l, num b ≠ lo := by
        intro b hb
        have := hs.1 b hb
        omega
      have hl : l.filter (fun b => num b = lo) = [] := by
        rw [filter_eq_nil_iff]
        intro b hb
        simpa using hn b hb
      have hl' : l.filter (fun b => num b ≠ lo) = l := by
        rw [filter_eq_self]
        intro b hb
        simpa using hn b hb
      simp only [ne_eq,decide_not] at hl'
      simp [ha,hl,hl']

theorem flatMap_range_filter {l : List α} {lo n : Nat} (hs : l.Pairwise (fun a b => num a ≤ num b))
    (hl : ∀ a ∈ l, lo ≤ num a) (hh : ∀ a ∈ l, num a < lo+n) :
    (List.range' lo n).flatMap (fun x => l.filter (fun a => num a = x)) = l := by
  induction n generalizing l lo with
  | zero =>
    cases l with
    | nil => rfl
    | cons a l =>
      have h₁ := hl a (mem_cons_self ..)
      have h₂ := hh a (mem_cons_self ..)
      omega
  | succ n ih =>
    have hr : (range' (lo+1) n).flatMap (fun x => l.filter (fun a => num a = x)) =
        l.filter (fun a => num a ≠ lo) := by
      have ht : (range' (lo+1) n).flatMap (fun x =>
          (l.filter (fun a => num a ≠ lo)).filter (fun a => num a = x)) =
            l.filter (fun a => num a ≠ lo) := by
        refine ih (hs.filter _) ?_ ?_
        · intro a ha
          obtain ⟨hm,hn⟩ := mem_filter.mp ha
          have := hl a hm
          simp only [ne_eq,decide_not,Bool.not_eq_true',decide_eq_false_iff_not] at hn
          omega
        · intro a ha
          have := hh a (mem_filter.mp ha).1
          omega
      refine (flatMap_congr ?_).trans ht
      intro x hx
      have hx' := (mem_range'_1.mp hx).1
      rw [filter_filter]
      refine filter_congr ?_
      intro a _
      by_cases ha : num a = x
      · simp [ha]
        omega
      · simp [ha]
    rw [range'_succ,flatMap_cons,hr,filter_eq_append_filter_ne hs hl]

theorem sum_range'_single (a n e : Nat) :
    ((List.range' a n).map (fun h => if h = e then 1 else 0)).sum =
      if a ≤ e ∧ e < a+n then 1 else 0 := by
  induction n generalizing a with
  | zero => simp
  | succ n ih =>
    rw [range'_succ,map_cons,sum_cons,ih]
    split <;> split <;> split <;> omega

end AnonChain.Lib
