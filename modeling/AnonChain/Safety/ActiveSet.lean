import AnonChain.Finality.Caches
import AnonChain.Finality.PowerDist
import AnonChain.Regtest
import AnonChain.Steps

/-! The active set of a distribution cache, and the hooks that are called when it changes. -/

namespace AnonChain.Finality

open Lib VotingPowerDistCache Bool
open ProcessingState (addStateForFp setPrevActive isFpInPrevActiveSet new)

variable {dc dc' : VotingPowerDistCache} {fps : List FinalityProviderDistInfo}

/-- The first provider has more satoshis, or as many and the smaller key. -/
def Outranks (i j : FinalityProviderDistInfo) : Prop :=
  j.totalBondedSat < i.totalBondedSat ∨ i.totalBondedSat = j.totalBondedSat ∧ i.btcPk < j.btcPk

theorem outranks_of_rank_lt {i j : FinalityProviderDistInfo} (hi : i.Eligible) (hj : j.Eligible)
    (h : i.rank < j.rank) : Outranks i j := by
  obtain ⟨hl,hn⟩ := lt_iff_le_not_ge.mp h
  rw [rank_le_iff hi hj] at hl
  rw [rank_le_iff hj hi] at hn
  rcases hl with hlt | ⟨he,-⟩
  · exact .inl hlt
  · refine .inr ⟨he,?_⟩
    by_contra hk
    exact hn (.inr ⟨he.symm,not_lt.mp hk⟩)

theorem sort_eq_of_perm {fps' : List FinalityProviderDistInfo} (hn : (fps.map (·.btcPk)).Nodup)
    (h : fps'.Perm fps) : sortFinalityProvidersWithZeroedVotingPower fps' =
      sortFinalityProvidersWithZeroedVotingPower fps := by
  refine List.Perm.eq_of_pairwise ?_ (sort_pairwise fps') (sort_pairwise fps)
    ((sort_perm fps').trans (h.trans (sort_perm fps).symm))
  intro i j hi hj hij hji
  refine List.inj_on_of_nodup_map hn (h.mem_iff.mp ((sort_perm fps').mem_iff.mp hi))
    ((sort_perm fps).mem_iff.mp hj) ?_
  exact btcPk_of_rank_eq (le_antisymm hij hji)

theorem countP_eligible (m : Nat) (hs : fps.Pairwise (fun i j => i.rank ≤ j.rank)) :
    (countActive m fps).1 = min m (fps.countP (·.Eligible)) := by
  obtain ⟨hm,hl,he,-⟩ := countActive_spec m fps
  have ht : (fps.take (countActive m fps).1).countP (·.Eligible) = (countActive m fps).1 := by
    rw [List.countP_eq_length.mpr (fun fp hfp => decide_eq_true (he fp hfp)),List.length_take]
    exact min_eq_left hl
  have hsp := congrArg (List.countP (·.Eligible)) (List.take_append_drop (countActive m fps).1 fps)
  rw [List.countP_append,ht] at hsp
  rcases countActive_maximal (m := m) hs with hf | hr
  · omega
  · rw [List.countP_eq_zero.mpr (fun fp hfp => by simpa using hr fp hfp)] at hsp
    omega

/-- The active providers are the eligible ones of the highest ranks, as many as the maximum allows
and in the order of their ranks. -/
theorem active_set_selected (fps : List FinalityProviderDistInfo) (hn : (fps.map (·.btcPk)).Nodup)
    (m power num : Nat) :
    ∃ dc : VotingPowerDistCache, dc.finalityProviders.Perm fps ∧
      dc.numActiveFps = min m (fps.countP (·.Eligible)) ∧
      (∀ fp ∈ dc.getActiveFinalityProviderSet, fp.Eligible) ∧
      dc.getActiveFinalityProviderSet.Pairwise Outranks ∧
      dc.totalVotingPower = (dc.getActiveFinalityProviderSet.map (·.totalBondedSat)).sum ∧
      (∀ fp ∈ dc.getInactiveFinalityProviderSet, fp.Eligible →
        ∀ a ∈ dc.getActiveFinalityProviderSet, Outranks a fp) ∧
      ∀ fps', fps'.Perm fps → applyActiveFinalityProviders ⟨power,fps',num⟩ m = dc := by
  have hp := sort_perm fps
  have hs := sort_pairwise fps
  have hk := (hp.map (·.btcPk)).nodup_iff.mpr hn
  obtain ⟨-,-,he,hsm⟩ := countActive_spec m (sortFinalityProvidersWithZeroedVotingPower fps)
  refine ⟨applyActiveFinalityProviders ⟨power,fps,num⟩ m,hp,?_,he,?_,hsm,?_,?_⟩
  · rw [← hp.countP_eq]
    exact countP_eligible m hs
  · -- Distinct keys make the order of the sorted list strict.
    have hst := hs.and (List.pairwise_map.mp hk)
    refine (hst.sublist (List.take_sublist _ _)).imp_of_mem ?_
    rintro i j hi hj ⟨hl,hne⟩
    exact outranks_of_rank_lt (he i hi) (he j hj)
      (lt_of_le_of_ne hl (fun h => hne (btcPk_of_rank_eq h)))
  · intro fp hfp hf a ha
    exact outranks_of_rank_lt (he a ha) hf (take_before_drop hs hk ha hfp)
  · intro fps' hfs'
    simp only [applyActiveFinalityProviders,sort_eq_of_perm hn hfs']

/-- In both orders, the provider with more satoshis is the active one. -/
theorem active_set_selected_two : ∃ dc : VotingPowerDistCache, dc.numActiveFps = 1 ∧
    applyActiveFinalityProviders
      ⟨0,[⟨[1],[],0,5,true,false,false⟩,⟨[2],[],0,9,true,false,false⟩],0⟩ 1 = dc ∧
    applyActiveFinalityProviders
      ⟨0,[⟨[2],[],0,9,true,false,false⟩,⟨[1],[],0,5,true,false,false⟩],0⟩ 1 = dc := by
  obtain ⟨dc,-,hn,-,-,-,-,ha⟩ := active_set_selected
    [⟨[1],[],0,5,true,false,false⟩,⟨[2],[],0,9,true,false,false⟩] (by decide) 1 0 0
  exact ⟨dc,hn.trans (by decide),ha _ (.refl _),ha _ (.swap _ _ _)⟩

section

variable {stk : BtcStaking.State} {ps ps' : ProcessingState}

end

variable {ps : ProcessingState} (hprev : (dc.finalityProviders.map (·.btcPk)).Nodup)
  (hnew : (dc'.finalityProviders.map (·.btcPk)).Nodup) (pk : BIP340PubKey)

include hnew

include hprev

variable (hps : ∀ pk, ps.isFpInPrevActiveSet pk = hasPk dc.getActiveFinalityProviderSet pk)

include hps

end AnonChain.Finality

namespace AnonChain

open Lib BtcStaking Finality VotingPowerDistCache

variable {E : Finality.Env} {c c' : Chain}

def DistinctCaches (c : Chain) : Prop := ∀ k, ((c.stores.fin.bondsAt k).map (·.1)).Nodup

theorem DistinctCaches.cache (h : DistinctCaches c) (k : Nat) :
    ((c.stores.fin.lastVotingPowerDistCache k).finalityProviders.map (·.btcPk)).Nodup := by
  have hk := h k
  rw [State.bondsAt,bonds,List.map_map] at hk
  exact hk

theorem DistinctCaches.updated {ctx : Ctx} {stores : Stores} {time : Nat} {appHash : Bytes}
    (h : DistinctCaches c) (hb : BaseInv c) (ctx_eq : ctx = c.nextCtx time appHash)
    (run : c.beginBlocker ctx = .ok stores) :
    ∃ dc', (dc'.finalityProviders.map (·.btcPk)).Nodup ∧
      stores.fin.votingPowerDistCache = c.stores.fin.votingPowerDistCache.set
        (c.ctx.header.height+1) dc' := by
  obtain ⟨cur,last,dc,ps,_,_,ha,_,_,he⟩ := updatePowerDist_effect run
  have hk : (c.stores.stk.indexBTCHeight ctx).FpKeyed := by
    intro pk fp hf
    rw [indexBTCHeight_providers] at hf
    exact hb.providers pk fp hf
  have hn := h.cache (ctx.header.height-1)
  obtain ⟨-,-,-,hdc⟩ := (processAll_eq_ok hk hn).mp ha
  have hd : (dc.finalityProviders.map (·.btcPk)).Nodup := by
    rw [← hdc]
    exact newDist_nodup hk hn
  refine ⟨(c.stores.fin.recordVotingPowerAndCache ctx dc).2,?_,by rw [he.fin,ctx_eq]⟩
  have hp := (recordVotingPowerAndCache_bonds c.stores.fin ctx dc).map (·.1)
  simp only [bonds,List.map_map] at hp
  exact hp.nodup_iff.mpr hd

end AnonChain
