import AnonChain.Lib.KVStore

/-! Two sets with more than two thirds of the weight each share more than one third of it. -/

namespace AnonChain.Lib

open List

namespace KVStore

variable {K : Type} [LinearOrder K] {t : KVStore K Nat}

def weight (t : KVStore K Nat) (p : K → Bool) : Nat := t.sumBy (fun k w => if p k then w else 0)

def total (t : KVStore K Nat) : Nat := t.sumBy (fun _ w => w)

theorem weight_mono {p q : K → Bool} (h : ∀ k, p k = true → q k = true) :
    t.weight p ≤ t.weight q := by
  refine sum_le_sum ?_
  intro e _
  by_cases hp : p e.1 = true
  · simp [hp,h e.1 hp]
  · simp [hp]

theorem weight_le_total {p : K → Bool} : t.weight p ≤ t.total := by
  refine sum_le_sum ?_
  intro e _
  by_cases hp : p e.1 = true <;> simp [hp]

theorem weight_add_weight_le (t : KVStore K Nat) (p q : K → Bool) :
    t.weight p+t.weight q ≤ t.total+t.weight (fun k => p k && q k) := by
  unfold weight total sumBy
  induction t.entries with
  | nil => simp
  | cons e l ih =>
    simp only [Bool.and_eq_true] at ih
    simp only [map_cons,sum_cons,Bool.and_eq_true]
    split_ifs <;> first | omega | (exfalso; tauto)

theorem quorum_intersection {p q : K → Bool} (hp : 2*t.total < 3*t.weight p)
    (hq : 2*t.total < 3*t.weight q) : t.total < 3*t.weight (fun k => p k && q k) := by
  have h := t.weight_add_weight_le p q
  omega

/-- A member whose weight is set to zero leaves the total no larger, and the weight of a set it is
not in unchanged. -/
theorem total_set_zero_le (t : KVStore K Nat) (k : K) : (t.set k 0).total ≤ t.total := by
  unfold total
  cases h : t.get k with
  | none =>
    have hn := sumBy_set_new (fun _ w => w) 0 h
    omega
  | some w =>
    have hold := sumBy_set_old (fun _ w => w) 0 h
    omega

theorem weight_set_zero (t : KVStore K Nat) {k : K} {p : K → Bool} (hp : p k = false) :
    (t.set k 0).weight p = t.weight p := by
  unfold weight
  cases h : t.get k with
  | none =>
    have hn := sumBy_set_new (fun k w => if p k then w else 0) 0 h
    simpa [hp] using hn
  | some w =>
    have hold := sumBy_set_old (fun k w => if p k then w else 0) 0 h
    simpa [hp] using hold

end KVStore

end AnonChain.Lib
