import Mathlib

/-! A key-value store with entries in strictly increasing key order. -/

namespace AnonChain.Lib

open List

structure KVStore (K V : Type) [LinearOrder K] where
  entries : List (K × V)
  sorted : entries.Pairwise (fun a b => a.1 < b.1)

namespace KVStore

variable {K V : Type} [LinearOrder K] {k : K} {v : V} {l : List (K × V)} {s : KVStore K V}

def readEntry (k : K) : List (K × V) → Option V
  | [] => none
  | e :: l => if k = e.1 then some e.2 else readEntry k l

def insertEntry (k : K) (v : V) : List (K × V) → List (K × V)
  | [] => [(k,v)]
  | e :: l =>
    if k < e.1 then (k,v) :: e :: l
    else if k = e.1 then (k,v) :: l
    else e :: insertEntry k v l

theorem mem_insertEntry_key {e : K × V} (h : e ∈ insertEntry k v l) : e = (k,v) ∨ e ∈ l := by
  induction l with
  | nil => simpa [insertEntry] using h
  | cons d l ih =>
    unfold insertEntry at h
    split at h
    · simpa using h
    · split at h
      · rcases mem_cons.mp h with h | h
        · exact .inl h
        · exact .inr (mem_cons_of_mem d h)
      · rcases mem_cons.mp h with h | h
        · exact .inr (by simp [h])
        · exact (ih h).imp id (mem_cons_of_mem d)

theorem sorted_insertEntry (h : l.Pairwise (fun a b => a.1 < b.1)) :
    (insertEntry k v l).Pairwise (fun a b => a.1 < b.1) := by
  induction l with
  | nil => simp [insertEntry]
  | cons d l ih =>
    obtain ⟨hd,hl⟩ := pairwise_cons.mp h
    unfold insertEntry
    split
    · rename_i hk
      refine pairwise_cons.mpr ⟨?_,h⟩
      intro e he
      rcases mem_cons.mp he with rfl | he
      · exact hk
      · exact hk.trans (hd e he)
    · rename_i hk
      split
      · rename_i hkd
        refine pairwise_cons.mpr ⟨?_,hl⟩
        intro e he
        exact hkd ▸ hd e he
      · rename_i hkd
        refine pairwise_cons.mpr ⟨?_,ih hl⟩
        intro e he
        rcases mem_insertEntry_key he with rfl | he
        · exact lt_of_le_of_ne (not_lt.mp hk) (Ne.symm hkd)
        · exact hd e he

def empty : KVStore K V := ⟨[],List.Pairwise.nil⟩

def get (s : KVStore K V) (k : K) : Option V := readEntry k s.entries

def getD (s : KVStore K V) (k : K) (d : V) : V := (s.get k).getD d

def has (s : KVStore K V) (k : K) : Bool := (s.get k).isSome

def set (s : KVStore K V) (k : K) (v : V) : KVStore K V :=
  ⟨insertEntry k v s.entries,sorted_insertEntry s.sorted⟩

def delete (s : KVStore K V) (k : K) : KVStore K V :=
  ⟨s.entries.filter (fun e => e.1 ≠ k),s.sorted.filter _⟩

def keys (s : KVStore K V) : List K := s.entries.map Prod.fst

def first (s : KVStore K V) : Option (K × V) := s.entries.head?

def last (s : KVStore K V) : Option (K × V) := s.entries.getLast?

@[simp] theorem readEntry_nil (k : K) : readEntry k ([] : List (K × V)) = none := rfl

theorem readEntry_eq_none_of_lt (h : ∀ e ∈ l, k < e.1) :
    readEntry k l = none := by
  induction l with
  | nil => rfl
  | cons e l ih =>
    have he := h e mem_cons_self
    rw [readEntry,ih (fun d hd => h d (mem_cons_of_mem e hd))]
    simp [he.ne]

theorem readEntry_insertEntry {k k' : K} (h : l.Pairwise (fun a b => a.1 < b.1)) :
    readEntry k' (insertEntry k v l) = if k' = k then some v else readEntry k' l := by
  induction l with
  | nil =>
    by_cases hk : k' = k <;> simp [insertEntry,readEntry,hk]
  | cons d l ih =>
    obtain ⟨hd,hl⟩ := pairwise_cons.mp h
    unfold insertEntry
    split
    · by_cases hk : k' = k <;> simp [readEntry,hk]
    · split
      · rename_i hkd
        by_cases hk : k' = k
        · simp [readEntry,hk]
        · have hkd' : ¬ k' = d.1 := fun e => hk (e.trans hkd.symm)
          simp [readEntry,hk,hkd']
      · rename_i hkd
        rw [readEntry,readEntry,ih hl]
        by_cases hk : k' = d.1
        · simp [hk,Ne.symm hkd]
        · simp [hk]

@[simp] theorem get_empty (k : K) : (empty : KVStore K V).get k = none := rfl

theorem get_set (s : KVStore K V) (k k' : K) (v : V) :
    (s.set k v).get k' = if k' = k then some v else s.get k' :=
  readEntry_insertEntry s.sorted

@[simp] theorem get_set_self (s : KVStore K V) (k : K) (v : V) :
    (s.set k v).get k = some v := by simp [get_set]

theorem get_set_ne (s : KVStore K V) {k k' : K} (v : V) (h : k' ≠ k) :
    (s.set k v).get k' = s.get k' := by simp [get_set,h]

theorem get_set_cases {s : KVStore K V} {k k' : K} {v v' : V} (h : (s.set k v).get k' = some v') :
    k' = k ∧ v' = v ∨ k' ≠ k ∧ s.get k' = some v' := by
  rw [get_set] at h
  split at h
  · exact .inl ⟨‹_›,(Option.some.inj h).symm⟩
  · exact .inr ⟨‹_›,h⟩

/-- A property of every entry survives the writing of an entry that has it. -/
theorem forall_set {s : KVStore K V} {k : K} {v : V} {P : K → V → Prop} (hv : P k v)
    (hs : ∀ k v, s.get k = some v → P k v) : ∀ k' v', (s.set k v).get k' = some v' → P k' v' := by
  intro k' v' h
  rcases get_set_cases h with ⟨rfl,rfl⟩ | ⟨_,h⟩
  · exact hv
  · exact hs k' v' h

theorem getD_set (s : KVStore K V) (k k' : K) (v d : V) :
    (s.set k v).getD k' d = if k' = k then v else s.getD k' d := by
  unfold getD
  rw [get_set]
  split <;> rfl

theorem get_delete (s : KVStore K V) (k k' : K) :
    (s.delete k).get k' = if k' = k then none else s.get k' := by
  obtain ⟨l,hl⟩ := s
  simp only [delete,get]
  clear hl
  induction l with
  | nil => simp
  | cons e l ih =>
    by_cases he : e.1 = k
    · rw [filter_cons_of_neg (by simpa using he),ih]
      by_cases hk : k' = k
      · simp [hk]
      · have : ¬ k' = e.1 := fun h => hk (h.trans he)
        simp [hk,readEntry,this]
    · rw [filter_cons_of_pos (by simpa using he),readEntry,ih]
      by_cases hk : k' = k
      · simp [hk,Ne.symm he]
      · simp [hk,readEntry]

theorem has_iff : s.has k = true ↔ ∃ v, s.get k = some v := by simp [has,Option.isSome_iff_exists]

theorem has_eq_false : s.has k = false ↔ s.get k = none := by cases h : s.get k <;> simp [has,h]

theorem mem_entries :
    (k,v) ∈ s.entries ↔ s.get k = some v := by
  obtain ⟨l,hl⟩ := s
  simp only [get]
  induction l with
  | nil => simp
  | cons e l ih =>
    obtain ⟨he,hl'⟩ := pairwise_cons.mp hl
    have ih := ih hl'
    rw [mem_cons,readEntry,ih]
    by_cases hk : k = e.1
    · have hn : readEntry k l = none := readEntry_eq_none_of_lt (by rw [hk]; exact he)
      obtain ⟨k₀,v₀⟩ := e
      simp only at hk
      simp [hk,eq_comm]
      intro h
      rw [← hk,hn] at h
      exact absurd h (by simp)
    · have : ¬ (k,v) = e := fun h => hk (by rw [← h])
      simp [hk,this]

theorem mem_keys : k ∈ s.keys ↔ ∃ v, s.get k = some v := by
  unfold keys
  rw [mem_map]
  constructor
  · rintro ⟨⟨k',v⟩,hm,rfl⟩
    exact ⟨v,mem_entries.mp hm⟩
  · rintro ⟨v,hv⟩
    exact ⟨(k,v),mem_entries.mpr hv,rfl⟩

theorem keys_sorted (s : KVStore K V) : s.keys.Pairwise (· < ·) :=
  pairwise_map.mpr s.sorted

theorem insertEntry_above (h : ∀ e ∈ l, e.1 < k) :
    insertEntry k v l = l ++ [(k,v)] := by
  induction l with
  | nil => rfl
  | cons e l ih =>
    have he := h e mem_cons_self
    rw [insertEntry,if_neg he.asymm,if_neg he.ne',ih (fun d hd => h d (mem_cons_of_mem e hd)),
      cons_append]

theorem keys_set_above (v : V) (h : ∀ k' v', s.get k' = some v' → k' < k) :
    (s.set k v).keys = s.keys ++ [k] := by
  have ha := insertEntry_above (v := v) (fun e he => h e.1 e.2 (mem_entries.mp he))
  simp [keys,set,ha]

theorem keys_nodup (s : KVStore K V) : s.keys.Nodup :=
  s.keys_sorted.imp (fun h => h.ne)

theorem ext_get {s t : KVStore K V} (h : ∀ k, s.get k = t.get k) : s = t := by
  have hp : s.entries.Perm t.entries := by
    refine (perm_ext_iff_of_nodup ?_ ?_).mpr ?_
    · exact s.sorted.imp (fun h e => absurd (congrArg Prod.fst e) h.ne)
    · exact t.sorted.imp (fun h e => absurd (congrArg Prod.fst e) h.ne)
    · rintro ⟨k,v⟩
      rw [mem_entries,mem_entries,h]
  have he : s.entries = t.entries :=
    hp.eq_of_pairwise (fun a b _ _ ha hb => absurd ha hb.asymm) s.sorted t.sorted
  cases s
  cases t
  simpa using he

theorem set_set (s : KVStore K V) (k : K) (v v' : V) : (s.set k v).set k v' = s.set k v' := by
  refine ext_get ?_
  intro k'
  rw [get_set,get_set,get_set]
  split <;> rfl

theorem set_same (h : s.get k = some v) : s.set k v = s := by
  refine ext_get ?_
  intro k'
  rw [get_set]
  split
  · rename_i hk
    rw [hk,h]
  · rfl

theorem first_eq_none : s.first = none ↔ ∀ k, s.get k = none := by
  constructor
  · intro h k
    have : s.entries = [] := head?_eq_none_iff.mp h
    simp [get,this]
  · intro h
    cases hs : s.entries with
    | nil => simp [first,hs]
    | cons e l =>
      have hm : (e.1,e.2) ∈ s.entries := by simp [hs]
      exact absurd (mem_entries.mp hm) (by simp [h])

theorem first_spec (h : s.first = some (k,v)) :
    s.get k = some v ∧ ∀ k' v', s.get k' = some v' → k ≤ k' := by
  unfold first at h
  cases hs : s.entries with
  | nil => simp [hs] at h
  | cons e l =>
    rw [hs,head?_cons,Option.some.injEq] at h
    subst h
    refine ⟨mem_entries.mp (by simp [hs]),?_⟩
    intro k' v' h'
    have hm := mem_entries.mpr h'
    have hp := s.sorted
    rw [hs] at hm hp
    rcases mem_cons.mp hm with he | he
    · exact (congrArg Prod.fst he).ge
    · exact ((pairwise_cons.mp hp).1 _ he).le

theorem first_eq_some_of_min (h : s.get k = some v) (hmn : ∀ k' v', s.get k' = some v' → k ≤ k') :
    s.first = some (k,v) := by
  cases hf : s.first with
  | none => exact absurd h (by simp [first_eq_none.mp hf])
  | some e =>
    obtain ⟨k₀,v₀⟩ := e
    obtain ⟨h₀,hm₀⟩ := first_spec hf
    have hk : k = k₀ := le_antisymm (hmn _ _ h₀) (hm₀ _ _ h)
    subst hk
    rw [h] at h₀
    rw [Option.some.inj h₀]

theorem last_spec (h : s.last = some (k,v)) :
    s.get k = some v ∧ ∀ k' v', s.get k' = some v' → k' ≤ k := by
  obtain ⟨l,hl⟩ := getLast?_eq_some_iff.mp h
  refine ⟨mem_entries.mp (by simp [hl]),?_⟩
  intro k' v' h'
  have hm := mem_entries.mpr h'
  have hp := s.sorted
  rw [hl] at hm hp
  rcases mem_append.mp hm with hm | hm
  · exact ((pairwise_append.mp hp).2.2 _ hm _ (mem_singleton_self _)).le
  · exact (congrArg Prod.fst (mem_singleton.mp hm)).le

theorem last_eq_some_of_max (h : s.get k = some v) (hmx : ∀ k' v', s.get k' = some v' → k' ≤ k) :
    s.last = some (k,v) := by
  cases hf : s.last with
  | none =>
    have : s.entries = [] := getLast?_eq_none_iff.mp hf
    simp [get,this] at h
  | some e =>
    obtain ⟨k₀,v₀⟩ := e
    obtain ⟨h₀,hm₀⟩ := last_spec hf
    have hk : k = k₀ := le_antisymm (hm₀ _ _ h) (hmx _ _ h₀)
    subst hk
    rw [h] at h₀
    rw [Option.some.inj h₀]

section

variable {M : Type} [AddCommMonoid M] {k : K} {l : List (K × V)} {s : KVStore K V}

def sumBy (f : K → V → M) (s : KVStore K V) : M := (s.entries.map (fun e => f e.1 e.2)).sum

theorem sum_insertEntry_new {f : K → V → M} {v : V} (h : readEntry k l = none) :
    ((insertEntry k v l).map (fun e => f e.1 e.2)).sum =
      f k v+(l.map (fun e => f e.1 e.2)).sum := by
  induction l with
  | nil => simp [insertEntry]
  | cons d l ih =>
    by_cases hk : k = d.1
    · simp [readEntry,hk] at h
    · rw [readEntry,if_neg hk] at h
      unfold insertEntry
      split
      · simp
      · rw [map_cons,sum_cons,ih h,map_cons,sum_cons]
        exact add_left_comm _ _ _

theorem sum_insertEntry_old {f : K → V → M} {v v₀ : V}
    (hs : l.Pairwise (fun a b => a.1 < b.1)) (h : readEntry k l = some v₀) :
    ((insertEntry k v l).map (fun e => f e.1 e.2)).sum+f k v₀ =
      f k v+(l.map (fun e => f e.1 e.2)).sum := by
  induction l with
  | nil => simp at h
  | cons d l ih =>
    obtain ⟨hd,hl⟩ := pairwise_cons.mp hs
    by_cases hk : k = d.1
    · rw [readEntry,if_pos hk,Option.some.injEq] at h
      unfold insertEntry
      rw [if_neg (by simp [hk]),if_pos hk]
      subst hk h
      simp only [map_cons,sum_cons]
      rw [add_comm (f d.1 d.2),add_assoc]
    · rw [readEntry,if_neg hk] at h
      have hlt : ¬ k < d.1 := by
        intro hlt
        have := readEntry_eq_none_of_lt (k := k) (l := l) (fun e he => hlt.trans (hd e he))
        simp [this] at h
      unfold insertEntry
      rw [if_neg hlt,if_neg hk,map_cons,sum_cons,map_cons,sum_cons,add_assoc,ih hl h]
      exact add_left_comm _ _ _

theorem sumBy_set_new (f : K → V → M) (v : V) (h : s.get k = none) :
    sumBy f (s.set k v) = f k v+sumBy f s :=
  sum_insertEntry_new h

theorem sumBy_set_old (f : K → V → M) (v : V) {v₀ : V} (h : s.get k = some v₀) :
    sumBy f (s.set k v)+f k v₀ = f k v+sumBy f s :=
  sum_insertEntry_old s.sorted h

theorem sumBy_congr {f g : K → V → M} (h : ∀ k v, s.get k = some v → f k v = g k v) :
    sumBy f s = sumBy g s := by
  unfold sumBy
  congr 1
  exact map_congr_left (fun e he => h e.1 e.2 (mem_entries.mp he))

theorem sumBy_add (f g : K → V → M) (s : KVStore K V) :
    sumBy (fun k v => f k v+g k v) s = sumBy f s+sumBy g s := by simp only [sumBy,sum_map_add]

theorem sumBy_zero (s : KVStore K V) : sumBy (fun _ _ => (0 : M)) s = 0 := by simp [sumBy]

theorem sum_single {f : V → M} (hs : l.Pairwise (fun a b => a.1 < b.1)) :
    (l.map (fun e => if e.1 = k then f e.2 else 0)).sum = ((readEntry k l).map f).getD 0 := by
  induction l with
  | nil => simp
  | cons e l ih =>
    obtain ⟨he,hl⟩ := pairwise_cons.mp hs
    rw [map_cons,sum_cons,ih hl,readEntry]
    by_cases hk : k = e.1
    · have hn : readEntry k l = none := readEntry_eq_none_of_lt (hk ▸ he)
      simp [hk.symm,hn]
    · simp [hk,Ne.symm hk]

theorem sumBy_single (f : V → M) (k : K) (s : KVStore K V) :
    sumBy (fun k' v => if k' = k then f v else 0) s = ((s.get k).map f).getD 0 :=
  sum_single s.sorted

theorem sumBy_natCast (f : K → V → Nat) (s : KVStore K V) :
    sumBy (fun k v => (f k v : Int)) s = (sumBy f s : Nat) := by
  unfold sumBy
  induction s.entries with
  | nil => rfl
  | cons e l ih => simp only [map_cons,sum_cons,ih,Int.natCast_add]

theorem sumBy_one (s : KVStore K V) : sumBy (fun _ _ => 1) s = s.entries.length := by simp [sumBy]

theorem length_set_new (v : V) (h : s.get k = none) :
    (s.set k v).entries.length = s.entries.length+1 := by
  have hs := sumBy_set_new (fun _ _ => 1) v h
  simp only [sumBy_one] at hs
  omega

theorem length_set_old (v : V) {v₀ : V} (h : s.get k = some v₀) :
    (s.set k v).entries.length = s.entries.length := by
  have hs := sumBy_set_old (fun _ _ => 1) v h
  simp only [sumBy_one] at hs
  omega

end

section

variable {W M : Type} [AddCommMonoid M]

def mapValues (g : V → W) (s : KVStore K V) : KVStore K W :=
  ⟨s.entries.map (fun e => (e.1,g e.2)),List.pairwise_map.mpr s.sorted⟩

theorem get_mapValues (g : V → W) (s : KVStore K V) (k : K) :
    (s.mapValues g).get k = (s.get k).map g := by
  obtain ⟨l,hl⟩ := s
  simp only [mapValues,get]
  clear hl
  induction l with
  | nil => rfl
  | cons e l ih =>
    rw [map_cons,readEntry,readEntry,ih]
    split <;> rfl

end

variable {K L V : Type} [LinearOrder K] [LinearOrder L]

/-- The inner store under a prefix, empty when nothing was written there. -/
def sub (s : KVStore K (KVStore L V)) (k : K) : KVStore L V := s.getD k empty

def get₂ (s : KVStore K (KVStore L V)) (k : K) (l : L) : Option V := (s.sub k).get l

def set₂ (s : KVStore K (KVStore L V)) (k : K) (l : L) (v : V) : KVStore K (KVStore L V) :=
  s.set k ((s.sub k).set l v)

@[simp] theorem sub_empty (k : K) : (empty : KVStore K (KVStore L V)).sub k = empty := rfl

@[simp] theorem get₂_empty (k : K) (l : L) : (empty : KVStore K (KVStore L V)).get₂ k l = none :=
  rfl

theorem sub_set₂ (s : KVStore K (KVStore L V)) (k k' : K) (l : L) (v : V) :
    (s.set₂ k l v).sub k' = if k' = k then (s.sub k).set l v else s.sub k' :=
  getD_set s k k' _ _

theorem get₂_set₂ (s : KVStore K (KVStore L V)) (k k' : K) (l l' : L) (v : V) :
    (s.set₂ k l v).get₂ k' l' = if k' = k ∧ l' = l then some v else s.get₂ k' l' := by
  unfold get₂
  rw [sub_set₂]
  by_cases hk : k' = k
  · subst hk
    simp [get_set]
  · simp [hk]

theorem get₂_set₂_cases {s : KVStore K (KVStore L V)} {k k' : K} {l l' : L} {v v' : V}
    (h : (s.set₂ k l v).get₂ k' l' = some v') :
    k' = k ∧ l' = l ∧ v' = v ∨ ¬(k' = k ∧ l' = l) ∧ s.get₂ k' l' = some v' := by
  rw [get₂_set₂] at h
  split at h
  case isTrue he => exact .inl ⟨he.1,he.2,(Option.some.inj h).symm⟩
  case isFalse hn => exact .inr ⟨hn,h⟩

theorem forall_set₂ {s : KVStore K (KVStore L V)} {k : K} {l : L} {v : V} {P : K → L → V → Prop}
    (hv : P k l v) (hs : ∀ k l v, s.get₂ k l = some v → P k l v) :
    ∀ k' l' v', (s.set₂ k l v).get₂ k' l' = some v' → P k' l' v' := by
  intro k' l' v' h
  rcases get₂_set₂_cases h with ⟨rfl,rfl,rfl⟩ | ⟨_,h⟩
  · exact hv
  · exact hs k' l' v' h

end KVStore

end AnonChain.Lib
