import AnonChain.Finality.MsgServer
import AnonChain.Finality.Tally
import AnonChain.BtcStaking.Delegations

/-! One equation for each function of the finality keeper that names the fields it writes. -/

namespace AnonChain.Finality

open Lib Relation List State
open BtcStaking (Ctx FpStep FpSteps)

section

variable {s s' : State} {header : HeaderInfo}

theorem processActiveFp_eq (s : State) (header : HeaderInfo) (fp : FinalityProviderDistInfo)
    (shouldCallHooks : Bool) :
    ∃ x y, s.processActiveFp header fp shouldCallHooks =
      { s with signingInfo := x, hookCalls := y } := by
  unfold processActiveFp
  split <;> exact ⟨_,_,rfl⟩

theorem processInactiveFp_eq {state : Option ProcessingState} {fp : FinalityProviderDistInfo}
    {shouldCallHooks : Bool} (h : s.processInactiveFp state fp shouldCallHooks = .ok s') :
    ∃ y, s' = { s with hookCalls := y } := by
  simp only [processInactiveFp,ok_iff] at h
  obtain ⟨wasActive,_,_,_,rfl⟩ := h
  cases wasActive <;> exact ⟨_,rfl⟩

theorem handleFPStateUpdates_eq {state : Option ProcessingState}
    {prevDc newDc : VotingPowerDistCache} {shouldCallHooks : Bool}
    (h : s.handleFPStateUpdates header state prevDc newDc shouldCallHooks = .ok s') :
    ∃ x y, s' = { s with signingInfo := x, hookCalls := y } := by
  refine foldlM_keeps (P := fun t : State => ∃ x y, t = { s with signingInfo := x, hookCalls := y })
    ?_ ?_ h
  · rintro fp _ t t' ⟨x,y,rfl⟩ ht
    obtain ⟨y',rfl⟩ := processInactiveFp_eq ht
    exact ⟨_,_,rfl⟩
  · refine foldl_keeps (P := fun t : State => ∃ x y, t =
      { s with signingInfo := x, hookCalls := y })
      ?_ ⟨s.signingInfo,s.hookCalls,rfl⟩
    rintro fp _ t ⟨x,y,rfl⟩
    obtain ⟨x',y',he⟩ := processActiveFp_eq { s with signingInfo := x, hookCalls := y } header fp
      shouldCallHooks
    exact ⟨x',y',he⟩

theorem updateSigningInfo_eq {pk : BIP340PubKey} {missed : Bool} {height : Int}
    {r : State × Bool × FinalityProviderSigningInfo}
    (h : s.updateSigningInfo pk missed height = .ok r) :
    ∃ m, r.1 = { s with missedBlockBitmap := m } := by
  simp only [updateSigningInfo,ok_iff] at h
  obtain ⟨i,_,h⟩ := h
  split at h
  · rw [pure_eq_ok] at h
    exact ⟨_,by rw [← h]⟩
  · split at h
    · rw [pure_eq_ok] at h
      exact ⟨_,by rw [← h]⟩
    · split at h
      · rw [pure_eq_ok] at h
        exact ⟨_,by rw [← h]⟩
      · rw [pure_eq_ok] at h
        exact ⟨_,by rw [← h]⟩

end

section

variable {s s' : Stores} {ctx : Ctx}

/-- Only signing information and the jailing of providers. -/
def LivenessEffect (ctx : Ctx) (s s' : Stores) : Prop :=
  FpSteps ctx s.stk s'.stk ∧
    s'.fin = { s.fin with
      signingInfo := s'.fin.signingInfo, missedBlockBitmap := s'.fin.missedBlockBitmap }

theorem LivenessEffect.refl (s : Stores) : LivenessEffect ctx s s := ⟨.refl,rfl⟩

theorem LivenessEffect.trans {t : Stores} (h₁ : LivenessEffect ctx s s')
    (h₂ : LivenessEffect ctx s' t) : LivenessEffect ctx s t := by
  refine ⟨ReflTransGen.trans h₁.1 h₂.1,?_⟩
  rw [h₂.2,h₁.2]

theorem handleFinalityProviderLiveness_effect {pk : BIP340PubKey} {missed : Bool} {height : Int}
    (h : handleFinalityProviderLiveness s ctx pk missed height = .ok s') :
    LivenessEffect ctx s s' := by
  simp only [handleFinalityProviderLiveness,bind_eq_ok] at h
  obtain ⟨fp,_,h⟩ := h
  split at h
  · rw [pure_eq_ok] at h
    exact h ▸ LivenessEffect.refl s
  · rw [bind_eq_ok] at h
    obtain ⟨r,hr,h⟩ := h
    obtain ⟨m,hm⟩ := updateSigningInfo_eq hr
    split at h
    · simp only [ok_iff] at h
      obtain ⟨stk,hs,rfl⟩ := h
      refine ⟨(BtcStaking.jailFinalityProvider_step hs).steps,?_⟩
      simp only [resetSigningInfo,hm]
    · split at h
      · rw [pure_eq_ok] at h
        subst h
        exact ⟨.refl,by simp only [hm]⟩
      · rw [pure_eq_ok] at h
        subst h
        exact ⟨.refl,by simp only [hm]⟩

theorem handleLiveness_effect {height : Int} (h : handleLiveness s ctx height = .ok s') :
    LivenessEffect ctx s s' := by
  refine foldlM_keeps (P := LivenessEffect ctx s) ?_ (LivenessEffect.refl s) h
  intro pk _ t t' ht hs
  rw [Result.orPanic_eq_ok] at hs
  exact ht.trans (handleFinalityProviderLiveness_effect hs)

end

section

variable {s s' : State}

def State.isFinalized (s : State) (h : Nat) : Bool := (s.blocks.get h).any (·.finalized)

def State.finalizedFrom (s : State) (i n : Nat) : List Nat := (List.range' i n).filter s.isFinalized

def State.rewardedFrom (s : State) (start target m : Nat) : List Nat :=
  s.finalizedFrom start (min (windowEnd start m) target+1-start)

def afterLast (l : List Nat) (next : Nat) : Nat := (l.getLast?.map (·+1)).getD next

theorem rewardLoop_eq {next n i : Nat} {r : State × Nat} (h : s.rewardLoop next n i = .ok r) :
    ∃ c, r = ({ s with votingPowerDistCache := c },afterLast (s.finalizedFrom i n) next) ∧
      ∀ k, c.get k = if k ∈ s.finalizedFrom i n then none else s.votingPowerDistCache.get k := by
  induction n generalizing s next i with
  | zero =>
    cases h
    exact ⟨_,rfl,by simp [finalizedFrom]⟩
  | succ n ih =>
    simp only [rewardLoop,getBlock,ok_iff] at h
    obtain ⟨b,hb,h⟩ := h
    have hcn : s.finalizedFrom i (n+1) = if b.finalized then i :: s.finalizedFrom (i+1) n else
        s.finalizedFrom (i+1) n := by
      simp [finalizedFrom,range'_succ,filter_cons,isFinalized,hb]
    rw [hcn]
    split at h
    case isTrue hf =>
      simp only [rewardBTCStaking,ok_iff] at h
      obtain ⟨_,⟨_,_,rfl⟩,h⟩ := h
      obtain ⟨c,hc,hg⟩ : ∃ c, r = ({ s with votingPowerDistCache := c },
          afterLast (s.finalizedFrom (i+1) n) (i+1)) ∧ ∀ k, c.get k =
            if k ∈ s.finalizedFrom (i+1) n then none else (s.votingPowerDistCache.delete i).get k :=
              ih h
      refine ⟨c,?_,?_⟩
      · simpa [hf,afterLast,getLast?_cons] using hc
      · intro k
        rw [hg,KVStore.get_delete]
        split_ifs <;> simp_all
    case isFalse hf =>
      rw [if_neg hf]
      exact ih h

theorem handleRewarding_eq {target : Int} {m : Nat} (h : s.handleRewarding target m = .ok s') :
    ∃ start c, s.startHeightToReward = .ok start ∧ s' = { s with
        votingPowerDistCache := c
        nextHeightToReward := if afterLast (s.rewardedFrom start target.toNat m) start = start then
          s.nextHeightToReward else afterLast (s.rewardedFrom start target.toNat m) start } ∧
      ∀ k, c.get k = if k ∈ s.rewardedFrom start target.toNat m then none
        else s.votingPowerDistCache.get k := by
  simp only [handleRewarding,ok_iff] at h
  obtain ⟨start,hs,r,hr,rfl⟩ := h
  obtain ⟨c,rfl,hc⟩ := rewardLoop_eq hr
  refine ⟨start,c,hs,?_,hc⟩
  rw [← rewardedFrom]
  split_ifs <;> simp_all

end

section

variable {s s' : State} {ctx : Ctx}

theorem setVotingPower_foldl (f : FinalityProviderDistInfo → Nat) (height : Nat)
    (l : List FinalityProviderDistInfo) (s : State) :
    ∃ vp, l.foldl (fun t fp => t.setVotingPower fp.btcPk height (f fp)) s =
      { s with votingPower := vp } ∧
      ∀ h, h ≠ height → vp.get h = s.votingPower.get h := by
  induction l generalizing s with
  | nil => exact ⟨s.votingPower,rfl,fun _ _ => rfl⟩
  | cons fp l ih =>
    obtain ⟨vp,hv,hn⟩ := ih (s.setVotingPower fp.btcPk height (f fp))
    refine ⟨vp,hv,?_⟩
    intro h hh
    rw [hn h hh]
    exact KVStore.get_set_ne _ _ hh

theorem recordVotingPowerAndCache_eq (s : State) (ctx : Ctx) (dc : VotingPowerDistCache) :
    ∃ vp, (s.recordVotingPowerAndCache ctx dc).1 = { s with
        votingPower := vp
        votingPowerDistCache := s.votingPowerDistCache.set ctx.header.height
          (s.recordVotingPowerAndCache ctx dc).2 } ∧
      ∀ h, h ≠ ctx.header.height → vp.get h = s.votingPower.get h := by
  simp only [recordVotingPowerAndCache]
  obtain ⟨vp,hv,hn⟩ := setVotingPower_foldl (·.totalBondedSat) ctx.header.height _ s
  refine ⟨vp,?_,hn⟩
  rw [hv]
  rfl

theorem clearEvents_foldl (l : List Nat) (s : BtcStaking.State) :
    ∃ ev, l.foldl BtcStaking.State.clearPowerDistUpdateEvents s =
      { s with powerDistUpdateEvents := ev } := by
  refine foldl_keeps (P := fun t : BtcStaking.State => ∃ ev, t =
    { s with powerDistUpdateEvents := ev })
    ?_ ⟨s.powerDistUpdateEvents,rfl⟩
  rintro h _ t ⟨ev,rfl⟩
  exact ⟨_,rfl⟩

/-- The power distribution of a height: its cache, its table, signing information, and the
consumed events. -/
structure PowerDistEffect (ctx : Ctx) (s s' : Stores) (dc : VotingPowerDistCache) : Prop where
  stk : s'.stk = { s.stk with powerDistUpdateEvents := s'.stk.powerDistUpdateEvents }
  fin : s'.fin = { s.fin with
    votingPower := s'.fin.votingPower
    votingPowerDistCache := s.fin.votingPowerDistCache.set ctx.header.height dc
    signingInfo := s'.fin.signingInfo
    hookCalls := s'.fin.hookCalls }
  tables : ∀ h, h ≠ ctx.header.height → s'.fin.votingPower.get h = s.fin.votingPower.get h

theorem updatePowerDist_effect {s s' : Stores} (h : updatePowerDist s ctx = .ok s') :
    ∃ cur last dc ps, s.stk.getCurrentBTCHeight ctx = .ok cur ∧
      s.stk.getBTCHeightAtAnonHeight ctx (ctx.header.height-1) = .ok last ∧
      processAllPowerDistUpdateEvents s.stk (s.fin.lastVotingPowerDistCache (ctx.header.height-1))
        last cur = .ok (dc,ps) ∧
      s'.stk = (BtcStaking.State.heightRange last cur).foldl
        BtcStaking.State.clearPowerDistUpdateEvents s.stk ∧
      s'.fin.votingPower = (s.fin.recordVotingPowerAndCache ctx dc).1.votingPower ∧
      PowerDistEffect ctx s s' (s.fin.recordVotingPowerAndCache ctx dc).2 := by
  simp only [updatePowerDist,ok_iff] at h
  obtain ⟨cur,hc,last,hl,⟨dc,ps⟩,hp,_,_,fin,hf,rfl⟩ := h
  obtain ⟨vp,hv,hn⟩ := recordVotingPowerAndCache_eq s.fin ctx dc
  obtain ⟨i,calls,hi⟩ := handleFPStateUpdates_eq hf
  obtain ⟨ev,he⟩ := clearEvents_foldl (BtcStaking.State.heightRange last cur) s.stk
  have hpw : fin.votingPower = (s.fin.recordVotingPowerAndCache ctx dc).1.votingPower := by rw [hi]
  rw [hv] at hi
  refine ⟨cur,last,dc,ps,hc,hl,hp,rfl,hpw,?_,?_,?_⟩
  · simp only [he]
  · simp only [hi]
  · intro k hk
    simp only [hi]
    exact hn k hk

end

section

variable {s s' : Stores} {ctx : Ctx}

/-- The end of a block: blocks are indexed and finalized, providers jailed, caches dropped. -/
structure EndBlockEffect (ctx : Ctx) (s s' : Stores) : Prop where
  stk : FpSteps ctx s.stk s'.stk
  blocks : BlocksGrow ctx.header.height s.fin s'.fin
  caches : ∀ h dc, s'.fin.votingPowerDistCache.get h = some dc →
    s.fin.votingPowerDistCache.get h = some dc
  current : 0 < s.fin.params.finalitySigTimeout →
    s'.fin.votingPowerDistCache.get ctx.header.height =
      s.fin.votingPowerDistCache.get ctx.header.height
  fin : s'.fin = { s.fin with
    blocks := s'.fin.blocks
    nextHeightToFinalize := s'.fin.nextHeightToFinalize
    nextHeightToReward := s'.fin.nextHeightToReward
    votingPowerDistCache := s'.fin.votingPowerDistCache
    signingInfo := s'.fin.signingInfo
    missedBlockBitmap := s'.fin.missedBlockBitmap }

theorem endBlocker_tally (h : endBlocker s ctx = .ok s') :
    (s.fin.isFinalityActive ctx.header = false ∧ s' = s) ∨
    (s.fin.isFinalityActive ctx.header = true ∧
      ∃ fin, s.fin.tallyBlocks ctx.header maxFinalizedRewardedBlocksPerEndBlock = .ok fin ∧
        s'.fin.blocks = fin.blocks ∧ s'.fin.nextHeightToFinalize = fin.nextHeightToFinalize) := by
  unfold endBlocker at h
  split at h
  case isFalse ha =>
    simp only [Except.ok.injEq] at h
    exact .inl ⟨Bool.eq_false_iff.mpr ha,h.symm⟩
  case isTrue ha =>
    rw [bind_eq_ok] at h
    obtain ⟨fin,hf,h⟩ := h
    refine .inr ⟨ha,fin,hf,?_⟩
    simp only at h
    split at h
    case isFalse =>
      rw [pure_eq_ok] at h
      subst h
      exact ⟨rfl,rfl⟩
    case isTrue =>
      simp only [ok_iff] at h
      obtain ⟨t,ht,fin',hf',rfl⟩ := h
      obtain ⟨_,c,-,hc,-⟩ := handleRewarding_eq hf'
      have hl := (handleLiveness_effect ht).2
      refine ⟨?_,?_⟩
      · rw [hc,hl]
      · rw [hc,hl]

theorem endBlocker_effect (hk : s.fin.BlocksKeyed) (h : endBlocker s ctx = .ok s') :
    EndBlockEffect ctx s s' := by
  unfold endBlocker at h
  split at h
  case isFalse =>
    simp only [Except.ok.injEq] at h
    subst h
    exact ⟨.refl,BlocksGrow.refl hk,fun _ _ hc => hc,fun _ => rfl,rfl⟩
  case isTrue =>
    rw [bind_eq_ok] at h
    obtain ⟨fin,hf,h⟩ := h
    obtain ⟨hg,-,_,_,-,-,htl⟩ := tallyBlocks_tallied hk hf
    obtain ⟨b,n,hb⟩ := htl.frame
    simp only at h
    split at h
    case isFalse =>
      rw [pure_eq_ok] at h
      subst h
      refine ⟨.refl,hg,?_,?_,?_⟩
      · intro k dc hc
        rw [hb] at hc
        exact hc
      · simp only [hb,implies_true]
      · simp only [hb]
    case isTrue =>
      simp only [ok_iff] at h
      obtain ⟨t,ht,fin',hf',rfl⟩ := h
      obtain ⟨hs,hl⟩ := handleLiveness_effect ht
      obtain ⟨i,l,hl⟩ : ∃ i l, t.fin = { fin with signingInfo := i, missedBlockBitmap := l } :=
        ⟨_,_,hl⟩
      obtain ⟨start,c,-,hc,hgt⟩ := handleRewarding_eq hf'
      have hbl : fin'.blocks = fin.blocks := by rw [hc,hl]
      refine ⟨hs,⟨by rw [hbl]; exact hg.keeps,by rw [hbl]; exact hg.news,?_⟩,?_,?_,?_⟩
      · unfold State.BlocksKeyed
        rw [hbl]
        exact hg.keyed
      · intro k dc hd
        simp only [hc,hgt,hl,hb] at hd
        split at hd
        · cases hd
        · exact hd
      · intro htm
        have hp : fin.params = s.fin.params := by rw [hb]
        rw [← hp] at htm
        have ha : ctx.header.height ∉ t.fin.rewardedFrom start
            (ctx.header.height-fin.params.finalitySigTimeout : Int).toNat
              maxFinalizedRewardedBlocksPerEndBlock := by
          simp only [rewardedFrom,finalizedFrom,mem_filter,mem_range'_1]
          omega
        rw [show fin'.votingPowerDistCache = c by rw [hc],hgt,if_neg ha,hl,hb]
      · simp only [hc,hl,hb]

end

section

variable {s s' : Stores} {ctx : Ctx} {height : Nat}

/-- A resume proposal rewrites tables and caches, and jails providers. -/
structure ResumeEffect (ctx : Ctx) (s s' : Stores) : Prop where
  stk : FpSteps ctx s.stk s'.stk
  fin : s'.fin = { s.fin with
    votingPower := s'.fin.votingPower
    votingPowerDistCache := s'.fin.votingPowerDistCache
    signingInfo := s'.fin.signingInfo
    missedBlockBitmap := s'.fin.missedBlockBitmap
    hookCalls := s'.fin.hookCalls }

theorem jailListed_effect {x : PkHex} (h : jailListed ctx height s x = .ok s') :
    LivenessEffect ctx s s' := by
  simp only [jailListed,ok_iff] at h
  obtain ⟨_,_,fp,_,h⟩ := h
  split at h
  · rw [pure_eq_ok] at h
    exact h ▸ LivenessEffect.refl s
  · simp only [ok_iff] at h
    obtain ⟨stk,hs,i,_,rfl⟩ := h
    exact ⟨(BtcStaking.jailFinalityProvider_step hs).steps,rfl⟩

theorem jailListed_foldlM {l : List PkHex} (h : l.foldlM (jailListed ctx height) s = .ok s') :
    LivenessEffect ctx s s' :=
  foldlM_keeps (P := LivenessEffect ctx s)
    (fun _ _ _ _ ht hs => ht.trans (jailListed_effect hs)) (LivenessEffect.refl s) h

theorem resumeHeight_eq {l : List PkHex} {t t' : State} (h : resumeHeight ctx l t height = .ok t') :
    ∃ vp c i y, t' = { t with
      votingPower := vp, votingPowerDistCache := c, signingInfo := i, hookCalls := y } := by
  simp only [resumeHeight,ok_iff] at h
  obtain ⟨dc,_,h⟩ := h
  obtain ⟨i,y,hi⟩ := handleFPStateUpdates_eq h
  obtain ⟨vp,hv,_⟩ := setVotingPower_foldl (fun _ => 0) height
    (dc.finalityProviders.filter (fun fp => inHexMap l fp.btcPk)) t
  rw [hv] at hi
  exact ⟨vp,_,i,y,hi⟩

theorem resumeFinalityProposal_effect {req : MsgResumeFinalityProposal}
    (h : resumeFinalityProposal s ctx req = .ok s') : ResumeEffect ctx s s' := by
  simp only [resumeFinalityProposal,handleResumeFinalityProposal,ok_iff] at h
  obtain ⟨_,_,_,_,_,t,ht,fin,hf,rfl⟩ := h
  obtain ⟨hs,hl⟩ := jailListed_foldlM ht
  have hlp : ∃ vp c i y, fin = { t.fin with
      votingPower := vp, votingPowerDistCache := c, signingInfo := i, hookCalls := y } := by
    refine foldlM_keeps (P := fun u : State => ∃ vp c i y, u = { t.fin with
      votingPower := vp, votingPowerDistCache := c, signingInfo := i, hookCalls := y }) ?_
      ⟨t.fin.votingPower,t.fin.votingPowerDistCache,t.fin.signingInfo,t.fin.hookCalls,rfl⟩ hf
    rintro k _ u u' ⟨vp,c,i,y,rfl⟩ hu
    obtain ⟨vp',c',i',y',rfl⟩ := resumeHeight_eq hu
    exact ⟨vp',c',i',y',rfl⟩
  obtain ⟨vp,c,i,y,rfl⟩ := hlp
  refine ⟨hs,?_⟩
  rw [hl]

end

section

variable {E : Env} {s s' : Stores} {ctx : Ctx}

/-- An accepted commitment starts above every earlier one of its provider. -/
structure CommitEffect (s s' : Stores) (pk : BIP340PubKey) (c : PubRandCommit) : Prop where
  stk : s'.stk = s.stk
  fin : s'.fin = { s.fin with
    pubRandCommits := s.fin.pubRandCommits.set₂ pk c.startHeight c
    pubRandCommitIndex := s.fin.pubRandCommitIndex.set pk
      (s.fin.pubRandCommitIndex.getD pk [] ++ [c.startHeight]) }
  activated : s.fin.params.finalityActivationHeight ≤ c.startHeight
  nonempty : 0 < c.numPubRand
  bounded : c.startHeight+c.numPubRand < 2^64
  above : ∀ last, s.fin.getLastPubRandCommit pk = some last → last.endHeight < c.startHeight

theorem uint64_add_lt {a b : UInt64} (h : a < a+b) :
    0 < b.toNat ∧ a.toNat+b.toNat < 2^64 := by
  rw [UInt64.lt_iff_toNat_lt,UInt64.toNat_add] at h
  have hb := UInt64.toNat_lt b
  omega

def MsgCommitPubRandList.prCommit (req : MsgCommitPubRandList) (currentEpoch : Nat) :
    PubRandCommit :=
  ⟨req.startHeight.toNat,req.numPubRand.toNat,req.commitment,currentEpoch⟩

theorem commitPubRandList_effect {req : MsgCommitPubRandList}
    (h : commitPubRandList E s ctx req = .ok s') :
    ∃ pk, req.fpBtcPk = some pk ∧ CommitEffect s s' pk (req.prCommit ctx.currentEpoch) := by
  simp only [commitPubRandList,MsgCommitPubRandList.validateBasic,setPubRandCommit,
    upsertPubRandCommitIdx,ok_iff] at h
  obtain ⟨⟨_,_,_,hlt⟩,_,hac,_,pk,hpk,_,_,_,ha,fin,⟨_,rfl⟩,rfl⟩ := h
  obtain ⟨hp,hb⟩ := uint64_add_lt hlt
  refine ⟨pk,hpk,rfl,rfl,hac,hp,hb,?_⟩
  intro last hl
  exact ha last hl

end

variable {E : Env} {s s' : Stores} {ctx : Ctx} {pk : BIP340PubKey} {v : FinalityVote}
  {fp : BtcStaking.FinalityProvider}

structure CheckedVote (E : Env) (ctx : Ctx) (s : Stores) (v : FinalityVote) (block : IndexedBlock)
    (c : PubRandCommit) : Prop where
  pkLength : v.fpBtcPk.length = BIP340PubKeyLen
  randLength : v.pubRand.length = SchnorrPubRandLen
  sigLength : v.finalitySig.length = SchnorrEOTSSigLen
  hashLength : v.blockAppHash.length = 32
  heightBound : v.blockHeight < 2^64
  block : s.fin.blocks.get v.blockHeight = some block
  power : s.fin.getVotingPower v.fpBtcPk v.blockHeight ≠ 0
  notSlashed : ¬ s.stk.isSlashedFp v.fpBtcPk
  commit : s.fin.getPubRandCommitForHeight v.fpBtcPk v.blockHeight = .ok c
  verified : verifyFinalitySig E v c = .ok ()

def forkEvidence (v : FinalityVote) (block : IndexedBlock) (canonicalSig : Option Bytes) :
    Evidence :=
  { fpBtcPk := v.fpBtcPk, blockHeight := v.blockHeight, pubRand := v.pubRand,
    canonicalAppHash := block.appHash, canonicalFinalitySig := canonicalSig,
    forkAppHash := v.blockAppHash, forkFinalitySig := v.finalitySig }

inductive VoteEffect (ctx : Ctx) (s : Stores) (v : FinalityVote) (block : IndexedBlock) :
    Stores → Prop where
  | fork (hfork : block.appHash ≠ v.blockAppHash)
      (novote : v.blockHeight ≤ ctx.header.height →
        s.fin.votes.get₂ v.blockHeight v.fpBtcPk = none) :
      VoteEffect ctx s v block ⟨s.stk,
        (s.fin.setPubRand v.fpBtcPk v.blockHeight v.pubRand).setEvidence
        (forkEvidence v block none)⟩
  | forkSlash {sig : Bytes} {stk : BtcStaking.State} (hfork : block.appHash ≠ v.blockAppHash)
      (vote : s.fin.votes.get₂ v.blockHeight v.fpBtcPk = some sig)
      (slash : s.stk.slashFinalityProvider ctx v.fpBtcPk = .ok stk) :
      VoteEffect ctx s v block ⟨stk,(s.fin.setPubRand v.fpBtcPk v.blockHeight v.pubRand).setEvidence
        (forkEvidence v block (some sig))⟩
  | vote {stk : BtcStaking.State} (canonical : block.appHash = v.blockAppHash)
      (steps : FpSteps ctx s.stk stk)
      (noevidence : s.fin.evidences.get₂ v.fpBtcPk v.blockHeight = none) :
      VoteEffect ctx s v block ⟨stk,(s.fin.setPubRand v.fpBtcPk v.blockHeight v.pubRand).setSig
        v.blockHeight v.fpBtcPk v.finalitySig⟩
  | voteSlash {e : Evidence} {stk stk' : BtcStaking.State}
      (canonical : block.appHash = v.blockAppHash) (steps : FpSteps ctx s.stk stk)
      (evidence : s.fin.evidences.get₂ v.fpBtcPk v.blockHeight = some e)
      (slash : stk.slashFinalityProvider ctx v.fpBtcPk = .ok stk') :
      VoteEffect ctx s v block ⟨stk',((s.fin.setPubRand v.fpBtcPk v.blockHeight v.pubRand).setSig
        v.blockHeight v.fpBtcPk v.finalitySig).setEvidence
          { e with canonicalFinalitySig := some v.finalitySig }⟩

theorem slashFinalityProvider_eq (h : slashFinalityProvider s ctx pk = .ok s') :
    s.stk.slashFinalityProvider ctx pk = .ok s'.stk ∧ s'.fin = s.fin := by
  simp only [slashFinalityProvider,ok_iff] at h
  obtain ⟨stk,hs,rfl⟩ := h
  exact ⟨hs,rfl⟩

theorem getSig_eq_ok {fin : State} {header : HeaderInfo} {height : Nat} {sig : Bytes} :
    fin.getSig header height pk = .ok sig ↔
      height ≤ header.height ∧ fin.votes.get₂ height pk = some sig := by
  simp only [getSig,ok_iff]

theorem addForkSig_effect {block : IndexedBlock} (hfr : block.appHash ≠ v.blockAppHash)
    (h : addForkSig ⟨s.stk,s.fin.setPubRand v.fpBtcPk v.blockHeight v.pubRand⟩ ctx v block =
      .ok s') :
    VoteEffect ctx s v block s' := by
  unfold addForkSig at h
  split at h
  case h_1 sig hs =>
    simp only [ok_iff] at h
    obtain ⟨t,ht,rfl⟩ := h
    obtain ⟨hsl,hf⟩ := slashFinalityProvider_eq ht
    rw [hf]
    exact .forkSlash hfr (getSig_eq_ok.mp hs).2 hsl
  case h_2 e he =>
    simp only [Except.ok.injEq] at h
    subst h
    refine .fork hfr ?_
    intro hl
    cases hv : s.fin.votes.get₂ v.blockHeight v.fpBtcPk with
    | none => rfl
    | some sig =>
      have ho : (s.fin.setPubRand v.fpBtcPk v.blockHeight v.pubRand).getSig ctx.header v.blockHeight
          v.fpBtcPk = .ok sig := getSig_eq_ok.mpr ⟨hl,hv⟩
      rw [ho] at he
      simp at he

theorem updateHighestVotedHeight_steps {stk stk' : BtcStaking.State} {height : Nat}
    (hf : stk.finalityProviders.get pk = some fp)
    (h : updateHighestVotedHeight stk fp height = .ok stk') : FpSteps ctx stk stk' := by
  unfold updateHighestVotedHeight at h
  simp only at h
  split at h
  · simp only [BtcStaking.State.updateFinalityProvider,ok_iff] at h
    obtain ⟨_,rfl⟩ := h
    have he : FpStep ctx stk (stk.setFinalityProvider
        { fp with highestVotedHeight := height%2^32 }) :=
      .edit hf rfl rfl rfl
    exact he.steps
  · simp only [Except.ok.injEq] at h
    exact h ▸ .refl

theorem addCanonicalSig_effect {block : IndexedBlock}
    (hfp : s.stk.finalityProviders.get v.fpBtcPk = some fp) (hc : block.appHash = v.blockAppHash)
    (h : addCanonicalSig ⟨s.stk,s.fin.setPubRand v.fpBtcPk v.blockHeight v.pubRand⟩ ctx v fp =
      .ok s') :
    VoteEffect ctx s v block s' := by
  simp only [addCanonicalSig,bind_eq_ok] at h
  obtain ⟨stk,hsk,h⟩ := h
  have hst : FpSteps ctx s.stk stk := updateHighestVotedHeight_steps hfp hsk
  split at h
  case isTrue hev =>
    simp only [getEvidence,ok_iff] at h
    obtain ⟨e,⟨_,he⟩,h⟩ := h
    obtain ⟨hs,hf⟩ := slashFinalityProvider_eq h
    obtain ⟨stk',fin'⟩ := s'
    simp only at hf hs
    rw [hf]
    exact .voteSlash hc hst he hs
  case isFalse hev =>
    rw [pure_eq_ok] at h
    subst h
    refine .vote hc hst ?_
    simpa [hasEvidence,setSig,setPubRand] using hev

theorem validateBasic_spec {req : MsgAddFinalitySig} (h : req.validateBasic = .ok v) :
    v.fpBtcPk.length = BIP340PubKeyLen ∧ v.pubRand.length = SchnorrPubRandLen ∧
      v.finalitySig.length = SchnorrEOTSSigLen ∧ v.blockAppHash.length = 32 ∧
      v.blockHeight < 2^64 := by
  simp only [MsgAddFinalitySig.validateBasic,ok_iff] at h
  obtain ⟨_,_,pk,_,hp,r,_,hr,_,_,sig,_,hs,hh,rfl⟩ := h
  exact ⟨hp,hr,hs,hh,UInt64.toNat_lt _⟩

theorem addFinalitySig_effect {req : MsgAddFinalitySig} (h : addFinalitySig E s ctx req = .ok s') :
    ∃ v block c, CheckedVote E ctx s v block c ∧ VoteEffect ctx s v block s' := by
  simp only [addFinalitySig,bind_eq_ok] at h
  obtain ⟨v,hv,⟨block,fp,c⟩,hc,h⟩ := h
  obtain ⟨hp,hr,hsg,hh,hbn⟩ := validateBasic_spec hv
  simp only [checkFinalitySig,getBlock,BtcStaking.State.getFinalityProvider,
    getTimestampedPubRandCommitForHeight,ok_iff,Prod.mk.injEq] at hc
  obtain ⟨_,b,hb,_,_,fp',hfp,hcl,_,hpw,_,c',⟨_,hcm,_,_,rfl⟩,_,hvr,rfl,rfl,rfl⟩ := hc
  refine ⟨v,b,_,⟨hp,hr,hsg,hh,hbn,hb,hpw,?_,hcm,hvr⟩,?_⟩
  · rintro ⟨fp₀,h0,hs⟩
    rw [hfp,Option.some.injEq] at h0
    rw [← h0,hcl] at hs
    simp at hs
  · split at h
    case isTrue hf => exact addForkSig_effect hf h
    case isFalse hcn => exact addCanonicalSig_effect hfp (not_not.mp hcn) h

end AnonChain.Finality
