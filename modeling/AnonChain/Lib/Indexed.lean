import AnonChain.Lib.KVStore

/-! A list kept in a store under the indices of its elements. -/

namespace AnonChain.Lib.KVStore

open List

variable {V : Type} {s t : KVStore Nat V} {l : List V} {v : V}

/-- Under every index stands the element of `l` with that index. -/
def Indexed (s : KVStore Nat V) (l : List V) : Prop := ∀ i, s.get i = l[i]?

theorem indexed_empty : Indexed (empty : KVStore Nat V) [] := fun _ => rfl

theorem Indexed.ext (hs : Indexed s l) (ht : Indexed t l) : s = t :=
  ext_get (fun i => (hs i).trans (ht i).symm)

theorem Indexed.snoc (h : Indexed s l) (v : V) : Indexed (s.set l.length v) (l ++ [v]) := by
  intro i
  rw [get_set,h i]
  rcases Nat.lt_trichotomy i l.length with hl | he | hg
  · rw [if_neg (Nat.ne_of_lt hl),getElem?_append_left hl]
  · simp [he]
  · have hn : i ≠ l.length := by omega
    simp [hn,getElem?_append_right hg.le,hg.le]
    omega

theorem Indexed.values (h : Indexed s l) : s.entries.map Prod.snd = l := by
  induction l using reverseRecOn generalizing s with
  | nil =>
    cases hs : s.entries with
    | nil => rfl
    | cons e es =>
      have hg := mem_entries.mp (show (e.1,e.2) ∈ s.entries by simp [hs])
      simp [h e.1] at hg
  | append_singleton l v ih =>
    have hold : Indexed (s.delete l.length) l := by
      intro i
      rw [get_delete,h i]
      split
      · rename_i hi
        simp [hi]
      · rename_i hi
        rcases Nat.lt_or_gt_of_ne hi with hl | hgt
        · rw [getElem?_append_left hl]
        · rw [getElem?_eq_none (by simp; omega),getElem?_eq_none (by omega)]
    have hst : s = (s.delete l.length).set l.length v := h.ext (hold.snoc v)
    have ha : ∀ e ∈ (s.delete l.length).entries, e.1 < l.length := by
      intro e he
      have hg := mem_entries.mp (show (e.1,e.2) ∈ (s.delete l.length).entries from he)
      rw [hold e.1] at hg
      exact (List.getElem?_eq_some_iff.mp hg).1
    have hen : s.entries = (s.delete l.length).entries ++ [(l.length,v)] := by
      rw [← insertEntry_above ha]
      exact congrArg entries hst
    rw [hen,map_append,ih hold]
    rfl

end AnonChain.Lib.KVStore
