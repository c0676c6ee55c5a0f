import AnonChain.Lib.Checked
import AnonChain.Lib.KVStore

/-! A map collected from a list by a loop whose iterations may fail. -/

namespace AnonChain.Lib

open List

variable {K V α ε : Type} [LinearOrder K]

/-- A later element replaces an earlier one with the same key. -/
def collect (key : α → K) (val : α → Except ε V) (l : List α) : Except ε (KVStore K V) :=
  l.foldlM (fun m a => do
    let v ← val a
    pure (m.set (key a) v)) .empty

section

variable {key : α → K} {val : α → Except ε V} {l : List α} {m : KVStore K V}

theorem collect_concat {a : α} : collect key val (l ++ [a]) = .ok m ↔
    ∃ m' v, collect key val l = .ok m' ∧ val a = .ok v ∧ m'.set (key a) v = m := by
  simp only [collect,foldlM_append,foldlM_cons,foldlM_nil,bind_eq_ok,pure_eq_ok]
  constructor
  · rintro ⟨m',hm',_,⟨v,hv,rfl⟩,rfl⟩
    exact ⟨m',v,hm',hv,rfl⟩
  · rintro ⟨m',v,hm',hv,rfl⟩
    exact ⟨m',hm',_,⟨v,hv,rfl⟩,rfl⟩

theorem collect_succeeds (key : α → K) (h : ∀ a ∈ l, ∃ v, val a = .ok v) :
    ∃ m, collect key val l = .ok m := by
  induction l using reverseRecOn with
  | nil => exact ⟨.empty,rfl⟩
  | append_singleton l a ih =>
    obtain ⟨m,hm⟩ := ih fun b hb => h b (by simp [hb])
    obtain ⟨v,hv⟩ := h a (by simp)
    exact ⟨_,collect_concat.mpr ⟨m,v,hm,hv,rfl⟩⟩

theorem collect_get (h : collect key val l = .ok m) {k : K} {v : V} (hg : m.get k = some v) :
    ∃ a ∈ l, key a = k ∧ val a = .ok v := by
  induction l using reverseRecOn generalizing m with
  | nil =>
    rw [collect,foldlM_nil,pure_eq_ok] at h
    simp [← h] at hg
  | append_singleton l a ih =>
    obtain ⟨m',w,hm',hw,rfl⟩ := collect_concat.mp h
    by_cases hk : k = key a
    · rw [hk,KVStore.get_set_self,Option.some.injEq] at hg
      exact ⟨a,by simp,hk.symm,by rw [hw,hg]⟩
    · rw [KVStore.get_set_ne _ _ hk] at hg
      obtain ⟨b,hb,hky,hv⟩ := ih hm' hg
      exact ⟨b,by simp [hb],hky,hv⟩

theorem collect_isSome (h : collect key val l = .ok m) {a : α} (ha : a ∈ l) :
    (m.get (key a)).isSome = true := by
  induction l using reverseRecOn generalizing m with
  | nil => simp at ha
  | append_singleton l b ih =>
    obtain ⟨m',w,hm',_,rfl⟩ := collect_concat.mp h
    by_cases hk : key a = key b
    · simp [hk]
    · rw [KVStore.get_set_ne _ _ hk]
      refine ih hm' ?_
      cases mem_append.mp ha with
      | inl hl => exact hl
      | inr hr => exact absurd (by rw [mem_singleton.mp hr]) hk

theorem collect_get_iff (h : collect key val l = .ok m) (hn : (l.map key).Nodup) {k : K} {v : V} :
    m.get k = some v ↔ ∃ a ∈ l, key a = k ∧ val a = .ok v := by
  refine ⟨collect_get h,?_⟩
  rintro ⟨a,ha,rfl,hv⟩
  obtain ⟨w,hw⟩ := Option.isSome_iff_exists.mp (collect_isSome h ha)
  obtain ⟨b,hb,hk,hvl⟩ := collect_get h hw
  rw [inj_on_of_nodup_map hn hb ha hk,hv,Except.ok.injEq] at hvl
  rw [hw,hvl]

end

/-- Every element with a key of its own is found under some key of a list that has them all. -/
theorem length_le_countP {key : α → K} {l : List α} {keys : List K} {m : KVStore K V}
    (hal : ∀ a ∈ l, (m.get (key a)).isSome = true) (hn : (l.map key).Nodup)
    (hsu : ∀ a ∈ l, key a ∈ keys) : l.length ≤ keys.countP (fun k => (m.get k).isSome) := by
  have hs : l.map key ⊆ keys.filter (fun k => (m.get k).isSome) := by
    intro k hk
    obtain ⟨a,ha,rfl⟩ := mem_map.mp hk
    simp [hsu a ha,hal a ha]
  have hl := (subperm_of_subset hn hs).length_le
  rw [length_map] at hl
  rw [countP_eq_length_filter]
  exact hl

end AnonChain.Lib
