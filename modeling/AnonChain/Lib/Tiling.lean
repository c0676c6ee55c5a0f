import AnonChain.Lib.KVStore

/-! Numbered segments that tile an initial stretch of the natural numbers. -/

namespace AnonChain.Lib

open KVStore (empty get_set get_set_ne forall_set get_set_cases)
variable {V : Type}

structure Tiles (first last : V → Nat) (s : KVStore Nat V) (n : Nat) : Prop where
  stored : ∀ i, (∃ v, s.get i = some v) ↔ i ≤ n
  start : ∀ v, s.get 0 = some v → first v = 0
  nonempty : ∀ i v, s.get i = some v → first v ≤ last v
  next : ∀ i v v', s.get i = some v → s.get (i+1) = some v' → first v' = last v+1

namespace Tiles

variable {first last : V → Nat} {s : KVStore Nat V} {n : Nat} {v v' : V}

theorem single {v : V} (hs : first v = 0) (hn : first v ≤ last v) :
    Tiles first last (empty.set 0 v) 0 := by
  have hg : ∀ i, (empty.set 0 v).get i = if i = 0 then some v else none := fun i => by
    simp [get_set]
  constructor
  · intro i
    rw [hg]
    split <;> simp <;> omega
  · intro v' h
    simp at h
    rw [← h,hs]
  · intro i v' h
    rw [hg] at h
    split at h
    · cases h
      exact hn
    · cases h
  · intro i v₁ v₂ _ h
    simp [hg] at h

theorem last_eq (h : Tiles first last s n) {v : V} (hv : s.get n = some v) : s.last = some (n,v) :=
  KVStore.last_eq_some_of_max hv (fun i _ hi => (h.stored i).mp ⟨_,hi⟩)

theorem last_lt_first (h : Tiles first last s n) {i j : Nat} (hi : i < j) (hv : s.get i = some v)
    (hv' : s.get j = some v') : last v < first v' := by
  induction j generalizing v' with
  | zero => omega
  | succ j ih =>
    have hj : j ≤ n := Nat.le_of_succ_le ((h.stored (j+1)).mp ⟨v',hv'⟩)
    obtain ⟨u,hu⟩ := (h.stored j).mpr hj
    have hn := h.next j u v' hu hv'
    rcases Nat.lt_succ_iff_lt_or_eq.mp hi with hl | he
    · have hb := ih hl hu
      have hne := h.nonempty j u hu
      omega
    · subst he
      rw [hv] at hu
      cases hu
      omega

theorem unique (h : Tiles first last s n) {i j p : Nat} (hv : s.get i = some v)
    (hv' : s.get j = some v')
    (hp : first v ≤ p ∧ p ≤ last v) (hp' : first v' ≤ p ∧ p ≤ last v') : i = j := by
  rcases Nat.lt_trichotomy i j with hl | he | hg
  · have hb := h.last_lt_first hl hv hv'
    omega
  · exact he
  · have hb := h.last_lt_first hg hv' hv
    omega

theorem covered (h : Tiles first last s n) {j p : Nat} {v : V} (hv : s.get j = some v)
    (hp : p ≤ last v) : ∃ i u, i ≤ j ∧ s.get i = some u ∧ first u ≤ p ∧ p ≤ last u := by
  induction j generalizing v with
  | zero => exact ⟨0,v,Nat.le_refl 0,hv,by rw [h.start v hv]; exact Nat.zero_le p,hp⟩
  | succ j ih =>
    have hj : j ≤ n := Nat.le_of_succ_le ((h.stored (j+1)).mp ⟨v,hv⟩)
    obtain ⟨u,hu⟩ := (h.stored j).mpr hj
    by_cases hin : first v ≤ p
    · exact ⟨j+1,v,Nat.le_refl _,hv,hin,hp⟩
    · have hn := h.next j u v hu hv
      obtain ⟨i,t,hi,ht,hin'⟩ := ih hu (by omega)
      exact ⟨i,t,by omega,ht,hin'⟩

theorem set_same (h : Tiles first last s n) {i : Nat} (hv : s.get i = some v)
    (hfr : first v' = first v) (hls : last v' = last v) : Tiles first last (s.set i v') n := by
  have hr : ∀ j u, (s.set i v').get j = some u → ∃ u₀, s.get j = some u₀ ∧ first u = first u₀ ∧
      last u = last u₀ := by
    exact forall_set ⟨v,hv,hfr,hls⟩ fun _ u hu => ⟨u,hu,rfl,rfl⟩
  constructor
  · intro j
    rw [← h.stored j,get_set]
    split
    · rename_i hj
      simp [hj,hv]
    · rfl
  · intro u hu
    obtain ⟨u₀,h₀,hf, -⟩ := hr 0 u hu
    rw [hf,h.start u₀ h₀]
  · intro j u hu
    obtain ⟨u₀,h₀,hf,hl⟩ := hr j u hu
    rw [hf,hl]
    exact h.nonempty j u₀ h₀
  · intro j u u' hu hu'
    obtain ⟨u₀,h₀, -,hl⟩ := hr j u hu
    obtain ⟨u₁,h₁,hf, -⟩ := hr (j+1) u' hu'
    rw [hf,hl]
    exact h.next j u₀ u₁ h₀ h₁

theorem extend (h : Tiles first last s n) (hv : s.get n = some v) (hf : first v' = last v+1)
    (hn : first v' ≤ last v') : Tiles first last (s.set (n+1) v') (n+1) := by
  constructor
  · intro i
    rw [get_set]
    split
    · rename_i hi
      simp [hi]
    · rename_i hi
      rw [h.stored i]
      omega
  · intro u hu
    rw [get_set_ne _ _ (by omega)] at hu
    exact h.start u hu
  · exact forall_set hn h.nonempty
  · intro i u u' hu hu'
    have hi : i ≠ n+1 := by
      intro hi
      rw [get_set_ne _ _ (by omega)] at hu'
      have := (h.stored _).mp ⟨u',hu'⟩
      omega
    rw [get_set_ne _ _ hi] at hu
    rcases get_set_cases hu' with ⟨he,rfl⟩ | ⟨_,hu'⟩
    · cases Nat.add_right_cancel he
      rw [hv] at hu
      cases hu
      exact hf
    · exact h.next i u u' hu hu'

end Tiles

end AnonChain.Lib
