import AnonChain.Finality.Effects

/-! The commitments of a provider are disjoint, and binary search finds the one for a height. -/

namespace AnonChain.Finality

open Lib List KVStore Option

/-- The commitments of a provider cover disjoint ranges, in the order of their start heights,
and the index lists the start heights. -/
structure CommitInv (s : State) : Prop where
  keyed : ∀ pk k c, s.pubRandCommits.get₂ pk k = some c → c.startHeight = k ∧ 0 < c.numPubRand
  bounded : ∀ pk k c, s.pubRandCommits.get₂ pk k = some c → c.startHeight+c.numPubRand < 2^64
  ordered : ∀ pk k k' c c', s.pubRandCommits.get₂ pk k = some c →
    s.pubRandCommits.get₂ pk k' = some c' → k < k' → c.endHeight < k'
  index : ∀ pk, s.pubRandCommitIndex.getD pk [] = (s.pubRandCommits.sub pk).keys

theorem CommitInv.congr {s s' : State} (hi : CommitInv s)
    (hc : s'.pubRandCommits = s.pubRandCommits)
    (hx : s'.pubRandCommitIndex = s.pubRandCommitIndex) : CommitInv s' := by
  constructor <;> simp only [hc,hx]
  · exact hi.keyed
  · exact hi.bounded
  · exact hi.ordered
  · exact hi.index

section

variable {s s' : Stores} {pk : BIP340PubKey} {c new : PubRandCommit}

theorem startHeight_le_endHeight (hc : 0 < c.numPubRand) : c.startHeight ≤ c.endHeight := by
  unfold PubRandCommit.endHeight
  omega

theorem CommitInv.above (hi : CommitInv s.fin) (he : CommitEffect s s' pk new) {k : Nat}
    (hk : s.fin.pubRandCommits.get₂ pk k = some c) : c.endHeight < new.startHeight := by
  have hls : ∃ k' c', (s.fin.pubRandCommits.sub pk).last = some (k',c') := by
    cases hl : (s.fin.pubRandCommits.sub pk).last with
    | none =>
      have hn : (s.fin.pubRandCommits.sub pk).entries = [] := getLast?_eq_none_iff.mp hl
      simp [KVStore.get₂,KVStore.get,hn] at hk
    | some e => exact ⟨e.1,e.2,rfl⟩
  obtain ⟨k',c',hl⟩ := hls
  obtain ⟨hg,hm⟩ := last_spec hl
  have ha : c'.endHeight < new.startHeight := by
    apply he.above
    simp [State.getLastPubRandCommit,hl]
  rcases Nat.lt_or_eq_of_le (hm k c hk) with hlt | heq
  · have ho := hi.ordered pk k k' c c' hk hg hlt
    obtain ⟨hky,hp⟩ := hi.keyed pk k' c' hg
    have := startHeight_le_endHeight hp
    omega
  · have hc : c = c' := by
      rw [heq] at hk
      exact some.inj (hk.symm.trans hg)
    rw [hc]
    exact ha

theorem CommitEffect.get₂ (he : CommitEffect s s' pk new) (pk' : BIP340PubKey) (k : Nat) :
    s'.fin.pubRandCommits.get₂ pk' k =
      if pk' = pk ∧ k = new.startHeight then some new else s.fin.pubRandCommits.get₂ pk' k := by
  rw [he.fin,get₂_set₂]
  congr

theorem CommitInv.commit (hi : CommitInv s.fin) (he : CommitEffect s s' pk new) :
    CommitInv s'.fin := by
  constructor
  · intro pk' k c hc
    rw [he.get₂] at hc
    split at hc
    · rename_i heq
      rw [← some.inj hc,heq.2]
      exact ⟨rfl,he.nonempty⟩
    · exact hi.keyed pk' k c hc
  · intro pk' k c hc
    rw [he.get₂] at hc
    split at hc
    · rw [← some.inj hc]
      exact he.bounded
    · exact hi.bounded pk' k c hc
  · intro pk' k k' c c' hc hc' hl
    rw [he.get₂] at hc hc'
    split at hc'
    · rename_i heq'
      split at hc
      · omega
      · rw [heq'.2]
        rw [heq'.1] at hc
        exact hi.above he hc
    · split at hc
      · rename_i heq
        rw [heq.1] at hc'
        have hen := hi.above he hc'
        obtain ⟨hk,hp⟩ := hi.keyed pk k' c' hc'
        have := startHeight_le_endHeight hp
        omega
      · exact hi.ordered pk' k k' c c' hc hc' hl
  · intro pk'
    rw [he.fin,getD_set,sub_set₂]
    split
    · rw [hi.index pk,keys_set_above]
      intro k c hc
      obtain ⟨hk,hp⟩ := hi.keyed pk k c hc
      have := startHeight_le_endHeight hp
      have := hi.above he hc
      omega
    · exact hi.index pk'

theorem CommitInv.keeps (hi : CommitInv s.fin) (he : CommitEffect s s' pk new)
    {pk' : BIP340PubKey} {k : Nat}
    (hc : s.fin.pubRandCommits.get₂ pk' k = some c) :
    s'.fin.pubRandCommits.get₂ pk' k = some c := by
  rw [he.get₂,if_neg,hc]
  rintro ⟨rfl,rfl⟩
  obtain ⟨hk,hp⟩ := hi.keyed _ _ c hc
  have := startHeight_le_endHeight hp
  have := hi.above he hc
  omega

end

variable {s : State} {pk : BIP340PubKey} {h : Nat} {c : PubRandCommit}

theorem isInRange_iff : c.isInRange h = true ↔ c.startHeight ≤ h ∧ h ≤ c.endHeight := by
  simp [PubRandCommit.isInRange]

theorem getPubRandCommitForHeight_covers (hc : s.getPubRandCommitForHeight pk h = .ok c) :
    ∃ k, s.pubRandCommits.get₂ pk k = some c ∧ c.isInRange h = true := by
  simp only [State.getPubRandCommitForHeight,ok_iff] at hc
  obtain ⟨_,_,_,_,k,_,c',hg,hr,rfl⟩ := hc
  exact ⟨k,hg,hr⟩

theorem CommitInv.getPubRandCommitForHeight_eq (hi : CommitInv s) {k : Nat}
    (hk : s.pubRandCommits.get₂ pk k = some c) (hr : c.isInRange h = true) :
    s.getPubRandCommitForHeight pk h = .ok c := by
  obtain ⟨hlw,hh⟩ := isInRange_iff.mp hr
  have hm : k ∈ (s.pubRandCommits.sub pk).keys := mem_keys.mpr ⟨c,hk⟩
  have hid : s.pubRandCommitIndex.get pk = some (s.pubRandCommits.sub pk).keys := by
    have hd := hi.index pk
    cases hg : s.pubRandCommitIndex.get pk with
    | none =>
      rw [KVStore.getD,hg,getD_none] at hd
      simp [← hd] at hm
    | some l =>
      rw [KVStore.getD,hg,getD_some] at hd
      rw [hd]
  generalize hky : (s.pubRandCommits.sub pk).keys = keys at hm hid
  have hst : keys.Pairwise (· < ·) := hky ▸ (s.pubRandCommits.sub pk).keys_sorted
  obtain ⟨hle,hs⟩ := sortSearch_increasing hst h 0
  generalize hi' : sortSearch keys.length (fun i => decide (h < keys.getD i 0)) = i at hle hs
  obtain ⟨q,hq⟩ := mem_iff_getElem?.mp hm
  have hqi : q < i := by
    have := (hi.keyed pk k c hk).1
    rw [hs q k hq]
    omega
  -- a later start height up to `h` would begin above the end of the range
  have hl : q = i-1 := by
    by_contra hn
    have hlt : q < i-1 := by omega
    obtain ⟨k',hk'⟩ : ∃ k', keys[i-1]? = some k' := ⟨_,getElem?_eq_getElem (by omega)⟩
    have hb := (hs (i-1) k' hk').mp (by omega)
    obtain ⟨hq',rfl⟩ := List.getElem?_eq_some_iff.mp hq
    obtain ⟨hi'',rfl⟩ := List.getElem?_eq_some_iff.mp hk'
    have hin := pairwise_iff_getElem.mp hst q (i-1) hq' hi'' hlt
    have hm' : keys[i-1] ∈ (s.pubRandCommits.sub pk).keys := by
      rw [hky]
      exact getElem_mem hi''
    obtain ⟨c',hc'⟩ := mem_keys.mp hm'
    have := hi.ordered pk _ _ c c' hk hc' hin
    omega
  simp only [State.getPubRandCommitForHeight,ok_iff]
  refine ⟨keys,hid,ne_nil_of_mem hm,?_⟩
  rw [hi']
  exact ⟨by omega,k,hl ▸ hq,c,hk,hr,rfl⟩

theorem CommitInv.getPubRandCommitForHeight_iff (hi : CommitInv s) :
    s.getPubRandCommitForHeight pk h = .ok c ↔
      ∃ k, s.pubRandCommits.get₂ pk k = some c ∧ c.isInRange h = true := by
  constructor
  · exact getPubRandCommitForHeight_covers
  · intro ⟨k,hk,hr⟩
    exact hi.getPubRandCommitForHeight_eq hk hr

theorem CommitInv.keeps_lookup {s s' : Stores} {pk' : BIP340PubKey} {new : PubRandCommit}
    (hi : CommitInv s.fin) (he : CommitEffect s s' pk' new)
    (hc : s.fin.getPubRandCommitForHeight pk h = .ok c) :
    s'.fin.getPubRandCommitForHeight pk h = .ok c := by
  obtain ⟨k,hk,hr⟩ := getPubRandCommitForHeight_covers hc
  exact (hi.commit he).getPubRandCommitForHeight_eq (hi.keeps he hk) hr

end AnonChain.Finality
