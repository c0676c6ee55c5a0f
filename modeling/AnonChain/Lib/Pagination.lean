import AnonChain.Lib.KVStore

/-! Pages over the keys of an ordered store, with a filter. -/

namespace AnonChain.Lib

open List

/-- A page ends with the key at which the next one begins, so a hit is never between two pages. -/
structure Paginator (K V : Type) [LinearOrder K] where
  page : (K → Option V) → List K → Option K → Nat → List V × Option K
  mem_page : ∀ {hit keys key limit v}, v ∈ (page hit keys key limit).1 → ∃ k ∈ keys, hit k = some v
  covers : ∀ {hit keys key limit k v}, keys.Pairwise (· < ·) → k ∈ keys →
    (∀ start ∈ key, start ≤ k) → hit k = some v → v ∈ (page hit keys key limit).1 ∨
      ∃ next, (page hit keys key limit).2 = some next ∧ next ≤ k

namespace KVStore

variable {K L V : Type} [LinearOrder K] [LinearOrder L]

def keys₂ (s : KVStore K (KVStore L V)) : List (K ×ₗ L) :=
  s.entries.flatMap fun e => e.2.keys.map fun l => toLex (e.1,l)

theorem mem_keys₂ {s : KVStore K (KVStore L V)} {k : K} {l : L} {v : V} (h : s.get₂ k l = some v) :
    toLex (k,l) ∈ s.keys₂ := by
  unfold get₂ sub getD at h
  cases hs : s.get k with
  | none =>
    rw [hs] at h
    cases h
  | some t =>
    rw [hs] at h
    refine mem_flatMap.mpr ⟨(k,t),mem_entries.mpr hs,?_⟩
    exact mem_map.mpr ⟨l,mem_keys.mpr ⟨v,h⟩,rfl⟩

theorem keys₂_sorted (s : KVStore K (KVStore L V)) : s.keys₂.Pairwise (· < ·) := by
  refine pairwise_flatMap.mpr ⟨fun e _ => ?_,?_⟩
  · refine pairwise_map.mpr (e.2.keys_sorted.imp fun hl => ?_)
    exact Prod.Lex.toLex_lt_toLex.mpr (.inr ⟨rfl,hl⟩)
  · refine s.sorted.imp fun hl x hx y hy => ?_
    obtain ⟨l, -,rfl⟩ := mem_map.mp hx
    obtain ⟨l', -,rfl⟩ := mem_map.mp hy
    exact Prod.Lex.toLex_lt_toLex.mpr (.inl hl)

end KVStore

end AnonChain.Lib
