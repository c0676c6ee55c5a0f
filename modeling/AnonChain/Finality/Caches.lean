import AnonChain.Finality.PowerTable

/-! Ranking, labelling and jailing rewrite a cache but leave the stake of every provider in it. -/

namespace AnonChain.Finality

open Lib State
open VotingPowerDistCache (new sort_perm)
open BtcStaking (Ctx)

def FinalityProviderDistInfo.bond (fp : FinalityProviderDistInfo) : BIP340PubKey × Nat × Bool :=
  (fp.btcPk,fp.totalBondedSat,fp.isSlashed)

def VotingPowerDistCache.bonds (dc : VotingPowerDistCache) : List (BIP340PubKey × Nat × Bool) :=
  dc.finalityProviders.map (·.bond)

def State.bondsAt (s : State) (height : Nat) : List (BIP340PubKey × Nat × Bool) :=
  (s.lastVotingPowerDistCache height).bonds

section

variable {s s' : State} {height : Nat} {dc : VotingPowerDistCache}

theorem getVotingPowerDistCache_eq_some (h : s.getVotingPowerDistCache height = some dc) :
    s.votingPowerDistCache.get height = some dc := by
  unfold getVotingPowerDistCache at h
  split at h
  case h_1 => simp at h
  case h_2 dc' hd' =>
    split at h
    · simp at h
    · rw [hd',← Option.some.inj h]

theorem bondsAt_eq (s : State) (height : Nat) :
    s.bondsAt height = ((s.votingPowerDistCache.get height).map (·.bonds)).getD [] := by
  unfold bondsAt lastVotingPowerDistCache getVotingPowerDistCache
  split
  case h_1 hnn => simp [hnn,new,VotingPowerDistCache.bonds]
  case h_2 dc hd =>
    split
    case isTrue he =>
      have hn : dc.finalityProviders = [] := List.isEmpty_iff.mp he.2.1
      simp [hd,new,VotingPowerDistCache.bonds,hn]
    case isFalse => simp [hd]

theorem bondsAt_congr (h : s'.votingPowerDistCache.get height = s.votingPowerDistCache.get height) :
    s'.bondsAt height = s.bondsAt height := by rw [bondsAt_eq,bondsAt_eq,h]

end

theorem applyActive_bonds (dc : VotingPowerDistCache) (m : Nat) :
    (dc.applyActiveFinalityProviders m).bonds.Perm dc.bonds :=
  (sort_perm dc.finalityProviders).map _

theorem recordVotingPowerAndCache_bonds (s : State) (ctx : Ctx) (dc : VotingPowerDistCache) :
    (s.recordVotingPowerAndCache ctx dc).2.bonds.Perm dc.bonds := by
  refine (applyActive_bonds _ _).trans ?_
  simp [VotingPowerDistCache.bonds,List.map_map,Function.comp_def,FinalityProviderDistInfo.bond]

theorem PowerDistEffect.bonds {ctx : Ctx} {s s' : Stores} {dc : VotingPowerDistCache}
    (h : PowerDistEffect ctx s s' dc) : s'.fin.bondsAt ctx.header.height = dc.bonds := by
  rw [bondsAt_eq,h.fin]
  simp

variable {ctx : Ctx} {l : List PkHex}

def jailedEntry (l : List PkHex) (fp : FinalityProviderDistInfo) : FinalityProviderDistInfo :=
  if inHexMap l fp.btcPk && !fp.isSlashed then { fp with isJailed := true } else fp

theorem jailedEntry_keeps (l : List PkHex) (fp : FinalityProviderDistInfo) :
    (jailedEntry l fp).btcPk = fp.btcPk ∧ (jailedEntry l fp).totalBondedSat = fp.totalBondedSat ∧
      (jailedEntry l fp).bond = fp.bond := by
  unfold jailedEntry
  split <;> exact ⟨rfl,rfl,rfl⟩

theorem jailInCache_eq (l : List PkHex) (dc : VotingPowerDistCache) :
    jailInCache l dc = VotingPowerDistCache.applyActiveFinalityProviders
      ⟨0,dc.finalityProviders.map (jailedEntry l),0⟩ dc.numActiveFps := rfl

theorem jailInCache_bonds (l : List PkHex) (dc : VotingPowerDistCache) :
    (jailInCache l dc).bonds.Perm dc.bonds := by
  rw [jailInCache_eq]
  refine (applyActive_bonds _ _).trans ?_
  simp only [VotingPowerDistCache.bonds,List.map_map,Function.comp_def,(jailedEntry_keeps l _).2.2]
  exact .refl _

theorem resumeHeight_bonds {s s' : State} {height : Nat} (h : resumeHeight ctx l s height = .ok s')
    (k : Nat) : (s'.bondsAt k).Perm (s.bondsAt k) := by
  simp only [resumeHeight,ok_iff] at h
  obtain ⟨dc,hd,h⟩ := h
  obtain ⟨i,y,rfl⟩ := handleFPStateUpdates_eq h
  have hg := getVotingPowerDistCache_eq_some hd
  obtain ⟨vp,hv,_⟩ := setVotingPower_foldl (fun _ => 0) height
    (dc.finalityProviders.filter (fun fp => inHexMap l fp.btcPk)) s
  simp only [bondsAt_eq,hv,setVotingPowerDistCache,KVStore.get_set]
  split
  case isTrue hk =>
    rw [hk,hg]
    exact jailInCache_bonds l dc
  case isFalse => exact .refl _

theorem resumeFinalityProposal_bonds {s s' : Stores} {req : MsgResumeFinalityProposal}
    (h : resumeFinalityProposal s ctx req = .ok s') (k : Nat) :
    (s'.fin.bondsAt k).Perm (s.fin.bondsAt k) := by
  simp only [resumeFinalityProposal,handleResumeFinalityProposal,ok_iff] at h
  obtain ⟨_,_,_,_,_,t,ht,fin,hf,rfl⟩ := h
  have hl : t.fin.votingPowerDistCache = s.fin.votingPowerDistCache := by
    rw [(jailListed_foldlM ht).2]
  refine foldlM_keeps (P := fun u : State => (u.bondsAt k).Perm (s.fin.bondsAt k)) ?_ ?_ hf
  · intro height _ u u' hu hs
    exact (resumeHeight_bonds hs k).trans hu
  · exact .of_eq (bondsAt_congr (by rw [hl]))

end AnonChain.Finality
