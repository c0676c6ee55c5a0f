import AnonChain.Lib.KVStore

/-! A store read as a list of records with distinct keys. -/

namespace AnonChain.Lib.KVStore

open List

variable {A K V : Type} [LinearOrder K] {key : A → K} {val : A → V} {s : KVStore K V}
variable {l : List A} {a : A}

/-- The store holds the records of `l`, each value under its record's key, and nothing else. -/
def Lists (s : KVStore K V) (key : A → K) (val : A → V) (l : List A) : Prop :=
  ∀ k v, s.get k = some v ↔ ∃ a ∈ l, key a = k ∧ val a = v

omit [LinearOrder K] in
theorem exists_snoc [DecidableEq K] (hn : ((l ++ [a]).map key).Nodup) (k : K) (v : V) :
    (∃ b ∈ l ++ [a], key b = k ∧ val b = v) ↔
      if k = key a then val a = v else ∃ b ∈ l, key b = k ∧ val b = v := by
  simp only [map_append,nodup_append] at hn
  have hnw : ∀ b ∈ l, key b ≠ key a := by simpa using hn.2.2
  split
  case isTrue hk =>
    subst hk
    have hold : ¬ ∃ b ∈ l, key b = key a ∧ val b = v := fun ⟨b,hb,hkb,_⟩ => hnw b hb hkb
    simp [or_and_right,exists_or,hold]
  case isFalse hk => simp [or_and_right,exists_or,Ne.symm hk]

theorem Lists.snoc (h : s.Lists key val l) (hn : ((l ++ [a]).map key).Nodup) :
    (s.set (key a) (val a)).Lists key val (l ++ [a]) := by
  intro k v
  rw [get_set,exists_snoc hn,← h k v]
  split <;> simp

theorem Lists.unsnoc (h : s.Lists key val (l ++ [a])) (hn : ((l ++ [a]).map key).Nodup) :
    (s.delete (key a)).Lists key val l := by
  intro k v
  have hr := (h k v).trans (exists_snoc hn k v)
  rw [get_delete]
  split
  case isTrue hk =>
    simp only [map_append,nodup_append] at hn
    have hnw : ∀ b ∈ l, key b ≠ key a := by simpa using hn.2.2
    simpa using fun b hb hkb => absurd (hkb.trans hk) (hnw b hb)
  case isFalse hk => simpa [hk] using hr

theorem Lists.entries_eq (h : s.Lists key val l) (hs : l.Pairwise (fun a b => key a < key b)) :
    s.entries = l.map (fun a => (key a,val a)) := by
  have hp : (l.map (fun a => (key a,val a))).Pairwise (fun a b => a.1 < b.1) :=
    pairwise_map.mpr hs
  have he : s = ⟨_,hp⟩ := by
    apply ext_get
    intro k
    apply Option.ext
    intro v
    rw [h k v,← mem_entries (s := ⟨_,hp⟩),mem_map]
    simp only [Prod.mk.injEq]
  rw [he]

end AnonChain.Lib.KVStore
