import Mathlib

/-! Lists of records with distinct keys, and the first entries of a list sorted by rank. -/

namespace AnonChain.Lib

open List

variable {α β κ ι : Type}

theorem nodup_map_filterMap (key : α → κ) {f : α → Option β} {key' : β → κ}
    (hf : ∀ a b, f a = some b → key' b = key a) {l : List α} (hn : (l.map key).Nodup) :
    ((l.filterMap f).map key').Nodup := by
  refine hn.sublist ?_
  clear hn
  induction l with
  | nil => simp
  | cons a l ih =>
    cases h : f a with
    | none =>
      rw [filterMap_cons_none h,map_cons]
      exact ih.cons _
    | some b =>
      rw [filterMap_cons_some h,map_cons,map_cons,hf a b h]
      exact ih.cons_cons _

/-- Among the first entries of a sorted list is every entry of lower rank than one of them. -/
theorem mem_take_of_rank_lt [LinearOrder ι] {rank : α → ι} {l : List α}
    (hs : l.Pairwise (fun a b => rank a ≤ rank b)) {n : Nat} {a b : α}
    (ha : a ∈ l.take n) (hb : b ∈ l) (h : rank b < rank a) : b ∈ l.take n := by
  rw [← take_append_drop n l,mem_append] at hb
  cases hb with
  | inl ht => exact ht
  | inr hd =>
    rw [← take_append_drop n l,pairwise_append] at hs
    exact absurd (hs.2.2 a ha b hd) (not_le.mpr h)

end AnonChain.Lib
