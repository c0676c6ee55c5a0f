import AnonChain.Finality.Types
import AnonChain.Lib.Quorum

/-! The keeper of the finality module, and the two ends of a block. -/

namespace AnonChain.Finality

open Lib
open BtcStaking (Ctx EventPowerDistUpdate BTCDelegation BTCDelegationStatus)

/-- The stores of the staking and the finality module, which the handlers below both write. -/
structure Stores where
  stk : BtcStaking.State
  fin : State

namespace State

def setBlock (s : State) (b : IndexedBlock) : State := { s with blocks := s.blocks.set b.height b }

def indexBlock (s : State) (header : HeaderInfo) : State :=
  s.setBlock ⟨header.height,header.appHash,false⟩

def getBlock (s : State) (height : Nat) : Result IndexedBlock :=
  orFail (s.blocks.get height) (.err .ErrBlockNotFound "")

def setSig (s : State) (height : Nat) (fpBtcPk : BIP340PubKey) (sig : Bytes) : State :=
  { s with votes := s.votes.set₂ height fpBtcPk sig }

def getSig (s : State) (header : HeaderInfo) (height : Nat) (fpBtcPk : BIP340PubKey) :
    Result Bytes := do
  ensure (height ≤ header.height) (.err .ErrHeightTooHigh "")
  orFail (s.votes.get₂ height fpBtcPk) (.err .ErrVoteNotFound "")

def isVoter (s : State) (height : Nat) (fpBtcPk : BIP340PubKey) : Bool :=
  (s.votes.get₂ height fpBtcPk).isSome

def setEvidence (s : State) (e : Evidence) : State :=
  { s with evidences := s.evidences.set₂ e.fpBtcPk e.blockHeight e }

def hasEvidence (s : State) (fpBtcPk : BIP340PubKey) (height : Nat) : Bool :=
  (s.evidences.get₂ fpBtcPk height).isSome

def getEvidence (s : State) (header : HeaderInfo) (fpBtcPk : BIP340PubKey) (height : Nat) :
    Result Evidence := do
  ensure (height ≤ header.height) (.err .ErrHeightTooHigh "")
  orFail (s.evidences.get₂ fpBtcPk height) (.err .ErrEvidenceNotFound "")

def setPubRand (s : State) (fpBtcPk : BIP340PubKey) (height : Nat) (pubRand : Bytes) : State :=
  { s with pubRand := s.pubRand.set₂ fpBtcPk height pubRand }

def getPubRandCommitForHeight (s : State) (fpBtcPk : BIP340PubKey) (height : Nat) :
    Result PubRandCommit := do
  let heights ← orFail (s.pubRandCommitIndex.get fpBtcPk) (.errorf "collections: not found")
  ensure (heights ≠ []) (.err .ErrPubRandNotFound "empty index")
  let i := sortSearch heights.length (fun i => decide (height < heights.getD i 0))
  ensure (i ≠ 0) (.err .ErrPubRandNotFound "height is less than the smallest start height in index")
  let startHeight ← orFail heights[i-1]? .outOfRange
  let prCommit ← orFail (s.pubRandCommits.get₂ fpBtcPk startHeight)
    (.err .ErrPubRandNotFound "startHeight: %d")
  ensure (prCommit.isInRange height = true) (.err .ErrPubRandNotFound
    "height %d is not in range of found PubRandCommit with startHeight %d and NumPubRand %d")
  pure prCommit

def getTimestampedPubRandCommitForHeight (s : State) (lastFinalizedEpoch : Nat)
    (fpBtcPk : BIP340PubKey) (height : Nat) : Result PubRandCommit := do
  let prCommit ← s.getPubRandCommitForHeight fpBtcPk height
  ensure (lastFinalizedEpoch ≠ 0) (.err .ErrPubRandCommitNotBTCTimestamped "no finalized epoch yet")
  ensure (prCommit.epochNum ≤ lastFinalizedEpoch) (.err .ErrPubRandCommitNotBTCTimestamped
    "the finality provider %s last committed epoch number: %d, last finalized epoch number: %d")
  pure prCommit

def hasTimestampedPubRand (s : State) (lastFinalizedEpoch : Nat) (fpBtcPk : BIP340PubKey)
    (height : Nat) : Bool :=
  match s.getTimestampedPubRandCommitForHeight lastFinalizedEpoch fpBtcPk height with
  | .ok _ => true
  | .error _ => false

def upsertPubRandCommitIdx (s : State) (fpBtcPk : BIP340PubKey) (startHeight : Nat) :
    Result State := do
  let heights := s.pubRandCommitIndex.getD fpBtcPk []
  ensure (∀ l ∈ heights.getLast?, l < startHeight)
    (.errorf "startHeight %d must be greater than the last committed height %d")
  pure { s with pubRandCommitIndex := s.pubRandCommitIndex.set fpBtcPk (heights ++ [startHeight]) }

def setPubRandCommit (s : State) (fpBtcPk : BIP340PubKey) (c : PubRandCommit) : Result State :=
  { s with pubRandCommits := s.pubRandCommits.set₂ fpBtcPk c.startHeight c }.upsertPubRandCommitIdx
    fpBtcPk c.startHeight

def getLastPubRandCommit (s : State) (fpBtcPk : BIP340PubKey) : Option PubRandCommit :=
  (s.pubRandCommits.sub fpBtcPk).last.map Prod.snd

def setVotingPower (s : State) (fpBtcPk : BIP340PubKey) (height power : Nat) : State :=
  { s with votingPower := s.votingPower.set₂ height fpBtcPk power }

def getVotingPower (s : State) (fpBtcPk : BIP340PubKey) (height : Nat) : Nat :=
  (s.votingPower.get₂ height fpBtcPk).getD 0

def getVotingPowerTable (s : State) (height : Nat) : Option (KVStore BIP340PubKey Nat) :=
  let table := s.votingPower.sub height
  if table.entries = [] then none else some table

def getBTCStakingActivatedHeight (s : State) : Result Nat :=
  orFail (s.votingPower.first.map Prod.fst) (.err .ErrBTCStakingNotActivated "")

def setVotingPowerDistCache (s : State) (height : Nat) (dc : VotingPowerDistCache) : State :=
  { s with votingPowerDistCache := s.votingPowerDistCache.set height dc }

/-- A cache without any field set has an empty encoding and reads as absent. -/
def getVotingPowerDistCache (s : State) (height : Nat) : Option VotingPowerDistCache :=
  match s.votingPowerDistCache.get height with
  | none => none
  | some dc =>
    if dc.totalVotingPower = 0 ∧ dc.finalityProviders.isEmpty = true ∧ dc.numActiveFps = 0 then none
    else some dc

def removeVotingPowerDistCache (s : State) (height : Nat) : State :=
  { s with votingPowerDistCache := s.votingPowerDistCache.delete height }

def lastVotingPowerDistCache (s : State) (height : Nat) : VotingPowerDistCache :=
  (s.getVotingPowerDistCache height).getD .new

def handleActivatedFinalityProvider (s : State) (header : HeaderInfo) (fpPk : BIP340PubKey) :
    State :=
  let missed := ((s.signingInfo.get fpPk).map (·.missedBlocksCounter)).getD 0
  { s with signingInfo := s.signingInfo.set fpPk ⟨header.height,missed,0⟩ }

/-- What the hook does in other modules is left out; it succeeds. -/
def callHook (s : State) (call : FpHook) : State := { s with hookCalls := s.hookCalls ++ [call] }

def processActiveFp (s : State) (header : HeaderInfo) (fp : FinalityProviderDistInfo)
    (shouldCallHooks : Bool) : State :=
  let s₁ := s.handleActivatedFinalityProvider header fp.btcPk
  if shouldCallHooks then s₁.callHook (.afterAncFpEntersActiveSet fp.btcPk fp.addr) else s₁

end State

/-- `state` is nil for the past heights of a resume proposal. -/
def isFpSlashedOrJailed (state : Option ProcessingState) (fp : FinalityProviderDistInfo) :
    Result Bool :=
  if fp.isJailed || fp.isSlashed then .ok true
  else do
    let ps ← orFail state .nilPointer
    pure (ps.fpState fp.btcPk = .JAILED ∨ ps.fpState fp.btcPk = .SLASHED)

/-- Emitted events are left out. -/
def State.processInactiveFp (s : State) (state : Option ProcessingState)
    (fp : FinalityProviderDistInfo) (shouldCallHooks : Bool) : Result State := do
  let wasActive ← (if shouldCallHooks then
      (orFail state .nilPointer).map
        (·.isFpInPrevActiveSet fp.btcPk)
    else .ok false)
  let _ ← isFpSlashedOrJailed state fp
  pure (if wasActive then s.callHook (.afterAncFpRemovedFromActiveSet fp.btcPk fp.addr) else s)

def State.handleFPStateUpdates (s : State) (header : HeaderInfo) (state : Option ProcessingState)
    (prevDc newDc : VotingPowerDistCache) (shouldCallHooks : Bool) : Result State :=
  let newlyActiveFPs := newDc.findNewActiveFinalityProviders prevDc
  let s₁ := newlyActiveFPs.foldl (fun s fp => s.processActiveFp header fp shouldCallHooks) s
  let newlyInactiveFPs := newDc.findNewInactiveFinalityProviders prevDc
  newlyInactiveFPs.foldlM (fun s fp => s.processInactiveFp state fp shouldCallHooks) s₁

def processPowerDistUpdateEventUnbond (ps : ProcessingState) (d : BTCDelegation) :
    ProcessingState :=
  d.fpBtcPkList.foldl (fun ps pk =>
    { ps with
      unbondingDelegations := ps.unbondingDelegations ++ [⟨d.stakerAddr,pk,d.totalSat⟩]
      deltaSatsByFpBtcPk := ps.deltaSatsByFpBtcPk.set pk (ps.deltaSats pk-d.totalSat) }) ps

def processPowerDistUpdateEventActive (ps : ProcessingState) (d : BTCDelegation) :
    ProcessingState :=
  d.fpBtcPkList.foldl (fun ps pk =>
    { ps with
      activeDelegations := ps.activeDelegations ++ [⟨d.stakerAddr,pk,d.totalSat⟩]
      deltaSatsByFpBtcPk := ps.deltaSatsByFpBtcPk.set pk (ps.deltaSats pk+d.totalSat) }) ps

def delHasQuorum (stk : BtcStaking.State) (d : BTCDelegation) : Result Bool := do
  let delParams ← orFail (stk.getParamsByVersion d.paramsVersion) .nilPointer
  Result.orPanic (stk.btcDelHasCovenantQuorums d delParams.covenantQuorum)

def processBtcDelUpdate (stk : BtcStaking.State) (ps : ProcessingState) (stakingTxHash : Hash)
    (newState : BTCDelegationStatus) : Result ProcessingState := do
  let d ← orFail (stk.btcDelegations.get stakingTxHash) (.panic "the BTC delegation is not found")
  match newState with
  | .ACTIVE => pure (processPowerDistUpdateEventActive ps d)
  | .UNBONDED => do
    let hasQuorum ← delHasQuorum stk d
    pure (if hasQuorum then processPowerDistUpdateEventUnbond ps d else ps)
  | _ => pure ps

def processEvent (stk : BtcStaking.State) (ps : ProcessingState) (event : EventPowerDistUpdate) :
    Result ProcessingState :=
  match event with
  | .btcDelStateUpdate h .EXPIRED => .ok { ps with expiredEvents := ps.expiredEvents ++ [h] }
  | .btcDelStateUpdate h st => processBtcDelUpdate stk ps h st
  | .slashedFp pk => .ok { ps with slashedEvents := ps.slashedEvents ++ [pk] }
  | .jailedFp pk => .ok (ps.setFpState pk .JAILED)
  | .unjailedFp pk => .ok (ps.setFpState pk .UNJAILED)

def processEventsAtHeight (stk : BtcStaking.State) (ps : ProcessingState) (btcHeight : Nat) :
    Result ProcessingState :=
  (stk.eventsAt btcHeight).foldlM (processEvent stk) ps

def processExpiredEvent (stk : BtcStaking.State) (ps : ProcessingState) (h : Hash) :
    Result ProcessingState := do
  let d ← orFail (stk.btcDelegations.get h) (.panic "the BTC delegation is not found")
  if d.isUnbondedEarly then pure ps
  else do
    let hasQuorum ← delHasQuorum stk d
    pure (if hasQuorum then processPowerDistUpdateEventUnbond ps d else ps)

def processExpiredEvents (stk : BtcStaking.State) (ps : ProcessingState) : Result ProcessingState :=
  ps.expiredEvents.foldlM (processExpiredEvent stk) ps

def processSlashedEvents (ps : ProcessingState) : ProcessingState :=
  ps.slashedEvents.foldl (fun ps pk => ps.setFpState pk .SLASHED) ps

def processEvents (stk : BtcStaking.State) (dc : VotingPowerDistCache)
    (lastBTCTip curBTCTip : Nat) : Result ProcessingState := do
  let ps ← (BtcStaking.State.heightRange lastBTCTip curBTCTip).foldlM (processEventsAtHeight stk)
    (ProcessingState.new.fillByPrevVpDstCache dc)
  let ps ← processExpiredEvents stk ps
  pure (processSlashedEvents ps)

def reconcileFp (ps : ProcessingState) (acc : VotingPowerDistCache × KVStore BIP340PubKey Int)
    (fp : FinalityProviderDistInfo) : Result (VotingPowerDistCache × KVStore BIP340PubKey Int) :=
  let st := ps.fpState fp.btcPk
  if st = .SLASHED then .ok acc
  else do
    let fp₁ :=
      if st = .JAILED then { fp with isJailed := true }
      else if st = .UNJAILED then { fp with isJailed := false }
      else fp
    let fp₂ ← Result.orPanic (fp₁.changeDeltaSats (acc.2.getD fp.btcPk 0))
    let deltas := acc.2.delete fp.btcPk
    pure (if 0 < fp₂.totalBondedSat then acc.1.addFinalityProviderDistInfo fp₂ else acc.1,deltas)

def addNewFp (stk : BtcStaking.State) (ps : ProcessingState) (deltas : KVStore BIP340PubKey Int)
    (newDc : VotingPowerDistCache) (pk : BIP340PubKey) : Result VotingPowerDistCache := do
  let newFP ← Result.orPanic (stk.getFinalityProvider pk)
  if newFP.isSlashed then pure newDc
  else do
    let fp := FinalityProviderDistInfo.new newFP
    let st := ps.fpState pk
    let fp₁ :=
      if st = .JAILED then { fp with isJailed := true }
      else if st = .UNJAILED then { fp with isJailed := false }
      else fp
    let fp₂ ← Result.orPanic (fp₁.changeDeltaSats (deltas.getD pk 0))
    pure (if 0 < fp₂.totalBondedSat then newDc.addFinalityProviderDistInfo fp₂ else newDc)

def processAllPowerDistUpdateEvents (stk : BtcStaking.State) (dc : VotingPowerDistCache)
    (lastBTCTip curBTCTip : Nat) : Result (VotingPowerDistCache × ProcessingState) := do
  let ps ← processEvents stk dc lastBTCTip curBTCTip
  let (newDc,deltas) ← dc.finalityProviders.foldlM (reconcileFp ps) (.new,ps.deltaSatsByFpBtcPk)
  let fpActiveBtcPkList := deltas.keys.filter (fun pk => ps.fpState pk ≠ .SLASHED)
  let newDc ← fpActiveBtcPkList.foldlM (addNewFp stk ps deltas) newDc
  pure (newDc,ps)

def State.recordVotingPowerAndCache (s : State) (ctx : Ctx) (newDc : VotingPowerDistCache) :
    State × VotingPowerDistCache :=
  let height := ctx.header.height
  let labelled := newDc.finalityProviders.map (fun fp =>
    { fp with isTimestamped := s.hasTimestampedPubRand ctx.lastFinalizedEpoch fp.btcPk height })
  let dc := { newDc with finalityProviders := labelled }.applyActiveFinalityProviders
    s.params.maxActiveFinalityProviders
  let s' := dc.getActiveFinalityProviderSet.foldl
    (fun s fp => s.setVotingPower fp.btcPk height fp.totalBondedSat) s
  (s'.setVotingPowerDistCache height dc,dc)

/-- The delegations of every event must list registered providers; what their hooks do is left
out. -/
def processHooksBTCDelegation (stk : BtcStaking.State) (ps : ProcessingState) : Result Unit :=
  ensure (∀ i ∈ ps.activeDelegations ++ ps.unbondingDelegations,
      stk.finalityProviders.has i.fpBtcPk = true)
    (.panic "failed to execute btc delegation hooks: %w")

def updatePowerDist (s : Stores) (ctx : Ctx) : Result Stores := do
  let height := ctx.header.height
  let btcTipHeight ← s.stk.getCurrentBTCHeight ctx
  let dc := s.fin.lastVotingPowerDistCache (height-1)
  let lastBTCTipHeight ← s.stk.getBTCHeightAtAnonHeight ctx (height-1)
  let (newDc,ps) ← processAllPowerDistUpdateEvents s.stk dc lastBTCTipHeight btcTipHeight
  let (fin,newDc) := s.fin.recordVotingPowerAndCache ctx newDc
  processHooksBTCDelegation s.stk ps
  let fin ← fin.handleFPStateUpdates ctx.header (some ps) dc newDc true
  let stk := (BtcStaking.State.heightRange lastBTCTipHeight btcTipHeight).foldl
    BtcStaking.State.clearPowerDistUpdateEvents s.stk
  pure ⟨stk,fin⟩

def uint64 (n : Nat) : Nat := n%2^64

/-- The last of `n` heights from `start` on, `start+n-1` in `uint64`. -/
def windowEnd (start n : Nat) : Nat := if start+n = 0 then 2^64-1 else uint64 (start+n-1)

/-- The powers are summed over the table; all of the arithmetic is in `uint64`. -/
def tally (fpSet : KVStore BIP340PubKey Nat) (voters : BIP340PubKey → Bool) : Bool :=
  let totalPower := uint64 fpSet.total
  let votedPower := uint64 (fpSet.weight voters)
  uint64 (totalPower*2) < uint64 (votedPower*3)

def State.finalizeBlock (s : State) (block : IndexedBlock) : State :=
  { (s.setBlock { block with finalized := true }) with nextHeightToFinalize := block.height+1 }

def State.tallyLoop (s : State) : Nat → Nat → Result State
  | 0, _ => .ok s
  | n+1, i => do
    let ib ← Result.orPanic (s.getBlock i)
    match s.getVotingPowerTable ib.height, ib.finalized with
    | some fpSet, false =>
      if tally fpSet (s.isVoter ib.height) then (s.finalizeBlock ib).tallyLoop n (i+1)
      else .ok s
    | none, false => State.tallyLoop { s with nextHeightToFinalize := ib.height+1 } n (i+1)
    | some _, true => .error (.panic
        "block %d is finalized, but last finalized height in DB does not reach here")
    | none, true =>
      .error (.panic "block %d is finalized, but does not have a finality provider set")

def maxFinalizedRewardedBlocksPerEndBlock : Nat := 10000

def State.tallyBlocks (s : State) (header : HeaderInfo) (maxFinalizedBlocks : Nat) :
    Result State := do
  let activatedHeight ← Result.orPanic s.getBTCStakingActivatedHeight
  let startHeight := max s.nextHeightToFinalize activatedHeight
  let s' := if s.blocks.has header.height then s else s.indexBlock header
  let maxHeightToFinalize := min (windowEnd startHeight maxFinalizedBlocks) header.height
  s'.tallyLoop (maxHeightToFinalize+1-startHeight) startHeight

/-- The result tells whether the signing information was modified. -/
def State.updateSigningInfo (s : State) (fpPk : BIP340PubKey) (missed : Bool) (height : Int) :
    Result (State × Bool × FinalityProviderSigningInfo) := do
  let signInfo ← orFail (s.signingInfo.get fpPk) (.errorf "the signing info is not created")
  if height < signInfo.startHeight then pure (s,false,signInfo)
  else
    let index := ((height-signInfo.startHeight)%s.params.signedBlocksWindow).toNat
    let bits := s.missedBlockBitmap.getD fpPk []
    let previous := bits.contains index
    if !previous && missed then
      pure ({ s with missedBlockBitmap := s.missedBlockBitmap.set fpPk (index :: bits) },true,
        { signInfo with missedBlocksCounter := signInfo.missedBlocksCounter+1 })
    else if previous && !missed then
      pure ({ s with missedBlockBitmap := s.missedBlockBitmap.set fpPk (bits.filter (· ≠ index)) },
        true,{ signInfo with missedBlocksCounter := signInfo.missedBlocksCounter-1 })
    else pure (s,false,signInfo)

def State.resetSigningInfo (s : State) (header : HeaderInfo) (fpPk : BIP340PubKey)
    (signInfo : FinalityProviderSigningInfo) : State :=
  { s with
    missedBlockBitmap := s.missedBlockBitmap.delete fpPk
    signingInfo := s.signingInfo.set fpPk
      { signInfo with jailedUntil := header.time+s.params.jailDuration, missedBlocksCounter := 0 } }

def handleFinalityProviderLiveness (s : Stores) (ctx : Ctx) (fpPk : BIP340PubKey) (missed : Bool)
    (height : Int) : Result Stores := do
  let fp ← s.stk.getFinalityProvider fpPk
  if fp.isSlashed || fp.isJailed then pure s
  else do
    let (fin,updated,signInfo) ← s.fin.updateSigningInfo fpPk missed height
    let window := s.fin.params.signedBlocksWindow
    let minHeight := signInfo.startHeight+window
    let maxMissed := window-s.fin.params.minSignedPerWindowInt
    if minHeight < height ∧ maxMissed < signInfo.missedBlocksCounter then do
      let stk ← s.stk.jailFinalityProvider ctx fpPk
      pure ⟨stk,fin.resetSigningInfo ctx.header fpPk signInfo⟩
    else if updated then
      pure ⟨s.stk,{ fin with signingInfo := fin.signingInfo.set fpPk signInfo }⟩
    else pure ⟨s.stk,fin⟩

def handleLiveness (s : Stores) (ctx : Ctx) (height : Int) : Result Stores :=
  (s.fin.votingPower.sub height.toNat).keys.foldlM (fun t fpPk =>
    Result.orPanic (handleFinalityProviderLiveness t ctx fpPk
      (!(s.fin.isVoter height.toNat fpPk)) height)) s

/-- The distribution itself belongs to the incentive module. -/
def State.rewardBTCStaking (s : State) (height : Nat) : Result State := do
  let _ ← orFail (s.getVotingPowerDistCache height)
    (.panic "voting power distribution cache not found at height %d")
  pure (s.removeVotingPowerDistCache height)

/-- The heights from `i` on, at most `n` of them; the second component is the next height to
reward. -/
def State.rewardLoop (s : State) (next : Nat) : Nat → Nat → Result (State × Nat)
  | 0, _ => .ok (s,next)
  | n+1, i => do
    let block ← Result.orPanic (s.getBlock i)
    if block.finalized then do
      let s' ← s.rewardBTCStaking i
      s'.rewardLoop (i+1) n (i+1)
    else s.rewardLoop next n (i+1)

def State.startHeightToReward (s : State) : Result Nat :=
  if s.nextHeightToReward = 0 then Result.orPanic s.getBTCStakingActivatedHeight
  else .ok s.nextHeightToReward

def State.handleRewarding (s : State) (targetHeight : Int) (maxRewardedBlocks : Nat) :
    Result State := do
  let nextHeightToReward ← s.startHeightToReward
  let maxHeightToReward := min (windowEnd nextHeightToReward maxRewardedBlocks) targetHeight.toNat
  let (s',next) ← s.rewardLoop nextHeightToReward (maxHeightToReward+1-nextHeightToReward)
    nextHeightToReward
  pure (if next ≠ nextHeightToReward then { s' with nextHeightToReward := next } else s')

def beginBlocker (s : Stores) (ctx : Ctx) : Result Stores := updatePowerDist s ctx

def State.isFinalityActive (s : State) (header : HeaderInfo) : Bool :=
  s.params.finalityActivationHeight ≤ header.height ∧ s.votingPower.first.isSome = true

def endBlocker (s : Stores) (ctx : Ctx) : Result Stores :=
  if s.fin.isFinalityActive ctx.header then do
    let fin ← s.fin.tallyBlocks ctx.header maxFinalizedRewardedBlocksPerEndBlock
    let heightToExamine := ctx.header.height-fin.params.finalitySigTimeout
    if 1 ≤ heightToExamine then do
      let s' ← handleLiveness ⟨s.stk,fin⟩ ctx heightToExamine
      let fin' ← s'.fin.handleRewarding heightToExamine maxFinalizedRewardedBlocksPerEndBlock
      pure ⟨s'.stk,fin'⟩
    else pure ⟨s.stk,fin⟩
  else .ok s

end AnonChain.Finality
