import AnonChain.BtcStaking.Types
import AnonChain.Lib.BinarySearch

/-! The keeper of the staking module. -/

namespace AnonChain.BtcStaking

open Lib BtcLightClient

namespace State

def eventsAt (s : State) (btcHeight : Nat) : List EventPowerDistUpdate :=
  s.powerDistUpdateEvents.getD btcHeight []

def addPowerDistUpdateEvent (s : State) (anonHeight btcHeight : Nat)
    (event : EventPowerDistUpdate) : State :=
  { s with
    powerDistUpdateEvents := s.powerDistUpdateEvents.set btcHeight (s.eventsAt btcHeight ++ [event])
    eventLog := s.eventLog ++ [⟨anonHeight,btcHeight,event⟩] }

def clearPowerDistUpdateEvents (s : State) (btcHeight : Nat) : State :=
  { s with powerDistUpdateEvents := s.powerDistUpdateEvents.delete btcHeight }

def heightRange (lastBTCTip curBTCTip : Nat) : List Nat :=
  List.range' lastBTCTip (curBTCTip+1-lastBTCTip)

def getAllPowerDistUpdateEvents (s : State) (lastBTCTip curBTCTip : Nat) :
    List EventPowerDistUpdate :=
  (heightRange lastBTCTip curBTCTip).flatMap s.eventsAt

def indexBTCHeight (s : State) (ctx : Ctx) : State :=
  match ctx.btclc.getTip with
  | none => s
  | some tip => { s with btcHeights := s.btcHeights.set ctx.header.height tip.height }

def getBTCHeightAtAnonHeight (s : State) (ctx : Ctx) (anonHeight : Nat) : Result Nat :=
  match s.btcHeights.get anonHeight with
  | some h => .ok h
  | none => do
    let base ← orFail ctx.btclc.baseHeader .nilPointer
    pure base.height

def getCurrentBTCHeight (s : State) (ctx : Ctx) : Result Nat :=
  s.getBTCHeightAtAnonHeight ctx ctx.header.height

def setLargestBtcReorg (s : State) (rb : RollBack) : State :=
  let new : LargestBtcReOrg :=
    ⟨rb.rollbackFrom.height-rb.rollbackTo.height,rb.rollbackFrom,rb.rollbackTo⟩
  match s.largestBtcReorg with
  | none => { s with largestBtcReorg := some new }
  | some cur => if new.blockDiff ≤ cur.blockDiff then s else { s with largestBtcReorg := some new }

def haltIfBtcReorgLargerThanConfirmationDepth (s : State) (ctx : Ctx) : Result Unit :=
  match s.largestBtcReorg with
  | none => .ok ()
  | some r => ensure (r.blockDiff < ctx.btcConfirmationDepth)
      (.panic "Reorg is larger than BTC confirmation Depth")

def setFinalityProvider (s : State) (fp : FinalityProvider) : State :=
  { s with finalityProviders := s.finalityProviders.set fp.btcPk fp }

def getFinalityProvider (s : State) (pk : BIP340PubKey) : Result FinalityProvider :=
  orFail (s.finalityProviders.get pk) (.err .ErrFpNotFound "")

def updateFinalityProvider (s : State) (fp : FinalityProvider) : Result State := do
  ensure (s.finalityProviders.has fp.btcPk = true) (.err .ErrFpNotFound "")
  pure (s.setFinalityProvider fp)

def isFinalityProviderDeleted (s : State) (pk : BIP340PubKey) : Bool :=
  s.finalityProvidersDeleted.contains pk

def slashFinalityProvider (s : State) (ctx : Ctx) (pk : BIP340PubKey) : Result State := do
  let fp ← s.getFinalityProvider pk
  ensure (fp.isSlashed = false) (.err .ErrFpAlreadySlashed "")
  let btcTip ← orFail ctx.btclc.getTip (.errorf "failed to get current BTC tip")
  let fp' := { fp with slashedAnonHeight := ctx.header.height, slashedBtcHeight := btcTip.height }
  pure ((s.setFinalityProvider fp').addPowerDistUpdateEvent ctx.header.height btcTip.height
    (.slashedFp fp.btcPk))

def jailFinalityProvider (s : State) (ctx : Ctx) (pk : BIP340PubKey) : Result State := do
  let fp ← s.getFinalityProvider pk
  ensure (fp.isSlashed = false) (.err .ErrFpAlreadySlashed "")
  ensure (fp.isJailed = false) (.err .ErrFpAlreadyJailed "")
  let btcTip ← orFail ctx.btclc.getTip (.errorf "failed to get current BTC tip")
  pure ((s.setFinalityProvider { fp with jailed := true }).addPowerDistUpdateEvent
    ctx.header.height btcTip.height (.jailedFp fp.btcPk))

def unjailFinalityProvider (s : State) (ctx : Ctx) (pk : BIP340PubKey) : Result State := do
  let fp ← s.getFinalityProvider pk
  ensure (fp.isSlashed = false) (.err .ErrFpAlreadySlashed "")
  ensure (fp.isJailed = true) (.err .ErrFpNotJailed "")
  let btcTip ← orFail ctx.btclc.getTip (.errorf "failed to get current BTC tip")
  pure ((s.setFinalityProvider { fp with jailed := false }).addPowerDistUpdateEvent
    ctx.header.height btcTip.height (.unjailedFp fp.btcPk))

def getParamsByVersion (s : State) (v : Nat) : Option Params := s.params.get v

def getParams (s : State) : Result Params :=
  orFail (s.params.last.map Prod.snd) (.panic "last params not found")

def nextParamsVersion (s : State) : Nat :=
  match s.params.last with
  | none => 0
  | some (v,_) => v+1

def getVersionForHeight (pairs : List HeightVersionPair) (height : Nat) : Result Nat := do
  ensure (pairs ≠ []) (.errorf "height to version map is empty")
  let starts := pairs.map (·.startHeight)
  let idx := sortSearch starts.length (fun i => decide (height < starts.getD i 0))
  ensure (idx ≠ 0) (.errorf "no parameters found for block height")
  let pair ← orFail pairs[idx-1]? .outOfRange
  pure pair.version

def getParamsForBtcHeight (s : State) (height : Nat) : Result (Params × Nat) := do
  let version ← getVersionForHeight s.heightToVersionMap height
  let p ← orFail (s.getParamsByVersion version) .nilPointer
  pure (p,version)

def addPair (pairs : List HeightVersionPair) (new : HeightVersionPair) :
    Result (List HeightVersionPair) :=
  match pairs.getLast? with
  | none => do
    ensure (new.version = 0) (.errorf "version must be 0 for the first pair")
    pure [new]
  | some last => do
    ensure (last.startHeight < new.startHeight)
      (.errorf "pairs must be sorted by start height in ascending order")
    ensure (new.version = last.version+1) (.errorf "versions must be strictly increasing")
    pure (pairs ++ [new])

def validateFrom : HeightVersionPair → List HeightVersionPair → Result Unit
  | _, [] => pure ()
  | prev, pair :: pairs => do
    ensure (prev.startHeight < pair.startHeight)
      (.errorf "pairs must be sorted by start height in ascending order")
    ensure (pair.version = prev.version+1) (.errorf "versions must be strictly increasing")
    validateFrom pair pairs

def validatePairs : List HeightVersionPair → Result Unit
  | [] => .error (.errorf "height to version map is empty")
  | [pair] => ensure (pair.version = 0) (.errorf "version must be 0 for the first pair")
  | pair :: pairs => validateFrom pair pairs

end State

section

variable (E : Env)

/-- Dust and slashing-rate checks of the scripts are the library's. -/
def Params.validate (p : Params) : Result Unit := do
  ensure (p.covenantQuorum ≠ 0) (.errorf "covenant quorum size has to be positive")
  ensure (p.covenantPks.length < p.covenantQuorum*2)
    (.errorf "covenant quorum size has to be more than 1/2 of the covenant committee size")
  ensure (0 < p.minStakingValueSat) (.errorf "minimum staking amount has to be positive")
  ensure (0 < p.maxStakingValueSat) (.errorf "maximum staking amount has to be positive")
  ensure (p.minStakingValueSat ≤ p.maxStakingValueSat)
    (.errorf "minimum staking amount cannot be greater than maximum staking amount")
  ensure (p.minStakingTimeBlocks ≠ 0) (.errorf "minimum staking time has to be positive")
  ensure (p.minStakingTimeBlocks ≤ maxUint16)
    (.errorf "minimum staking time cannot be greater than %d")
  ensure (p.maxStakingTimeBlocks ≠ 0) (.errorf "maximum staking time has to be positive")
  ensure (p.maxStakingTimeBlocks ≤ maxUint16)
    (.errorf "maximum staking time cannot be greater than %d")
  ensure (p.minStakingTimeBlocks ≤ p.maxStakingTimeBlocks)
    (.errorf "minimum staking time cannot be greater than maximum staking time")
  ensure p.covenantPks.Nodup (.errorf "duplicate covenant key")
  ensure (0 < p.minSlashingTxFeeSat) (.errorf "minimum slashing tx fee has to be positive")
  ensure (0 ≤ p.minCommissionRate) (.errorf "minimum commission rate cannot be negative")
  ensure (p.minCommissionRate ≤ decOne)
    (.errorf "minimum commission rate cannot be greater than 100%%")
  ensure (0 < p.unbondingFeeSat ∧ p.unbondingFeeSat < p.minStakingValueSat)
    (.errorf "is not a valid unbonding fee value")
  ensure (E.paramsScriptsValid p = true)
    (.errorf "invalid parameters configuration. Minimum slashing output is dust")
  ensure (p.unbondingTimeBlocks ≤ maxUint16)
    (.errorf "minimum unbonding time blocks cannot be greater than %d")

def State.setParams (s : State) (p : Params) : Result State := do
  Params.validate E p
  let nextVersion := s.nextParamsVersion
  let pairs ← State.addPair s.heightToVersionMap ⟨p.btcActivationHeight,nextVersion⟩
  State.validatePairs pairs
  pure { s with params := s.params.set nextVersion p, heightToVersionMap := pairs }

end

structure DelWithParams where
  delegation : BTCDelegation
  params : Params
  prev : Option (BTCDelegation × Params)

namespace State

/-- The recursion follows the stake expansions of a delegation; its depth is bounded by the
number of stored delegations. -/
def getBTCDelWithParamsAux (s : State) : Nat → Hash → Result DelWithParams
  | 0, _ => .error (.panic "stack overflow")
  | n+1, stakingTxHash => do
    let btcDel ← orFail (s.btcDelegations.get stakingTxHash) (.err .ErrBTCDelegationNotFound "")
    let params ← orFail (s.getParamsByVersion btcDel.paramsVersion)
      (.errorf "params version in BTC delegation is not found")
    match btcDel.stkExp with
    | none => pure ⟨btcDel,params,none⟩
    | some e => do
      let info ← getBTCDelWithParamsAux s n e.previousStakingTxHash
      pure ⟨btcDel,params,some (info.delegation,info.params)⟩

def getBTCDelWithParams (s : State) (stakingTxHash : Hash) : Result DelWithParams :=
  s.getBTCDelWithParamsAux (s.btcDelegations.entries.length+1) stakingTxHash

def quorumPreviousStk (s : State) (d : BTCDelegation) : Result Nat :=
  match d.stkExp with
  | none => .ok 0
  | some e => do
    let info ← s.getBTCDelWithParams e.previousStakingTxHash
    pure info.params.covenantQuorum

def btcDelHasCovenantQuorums (s : State) (d : BTCDelegation) (quorum : Nat) : Result Bool := do
  let prev ← s.quorumPreviousStk d
  pure (d.hasCovenantQuorums quorum prev)

def btcDelStatus (s : State) (d : BTCDelegation) (covenantQuorum btcTipHeight : Nat) :
    Result BTCDelegationStatus := do
  let prev ← s.quorumPreviousStk d
  pure (d.getStatus btcTipHeight covenantQuorum prev)

def btcDelStatusWithTip (ctx : Ctx) (info : DelWithParams) :
    Result (BTCDelegationStatus × BTCHeaderInfo) := do
  let btcTip ← orFail ctx.btclc.getTip .nilPointer
  let prev := (info.prev.map (fun p => p.2.covenantQuorum)).getD 0
  pure (info.delegation.getStatus btcTip.height info.params.covenantQuorum prev,btcTip)

def validateStakedFPs (s : State) : List BIP340PubKey → Result Unit
  | [] => .ok ()
  | pk :: l => do
    let fp ← orFail (s.finalityProviders.get pk)
        (.err .ErrFpNotFound "finality provider is not found")
    ensure (fp.isSlashed = false) (.err .ErrFpAlreadySlashed "finality key")
    ensure (s.isFinalityProviderDeleted pk = false)
      (.err .ErrFinalityProviderIsDeleted "finality provider has been deleted")
    validateStakedFPs s l

end State

variable (E : Env)

def State.setBTCDelegation (s : State) (d : BTCDelegation) : State :=
  { s with btcDelegations := s.btcDelegations.set (E.btc.txHash d.stakingTx) d }

def State.addBTCDelegation (s : State) (ctx : Ctx) (d : BTCDelegation) : State :=
  let s' := s.setBTCDelegation E d
  if d.hasInclusionProof then
    s'.addPowerDistUpdateEvent ctx.header.height (d.endHeight-d.unbondingTime)
      (.btcDelStateUpdate (E.btc.txHash d.stakingTx) .EXPIRED)
  else s'

structure DelegationTimeRangeInfo where
  startHeight : Nat
  endHeight : Nat
  tipHeight : Nat

def verifyInclusionProofAndGetHeight (ctx : Ctx) (stakingTx : MsgTx)
    (confirmationDepth stakingTime unbondingTime : Nat) (p : InclusionProof) :
    Result DelegationTimeRangeInfo := do
  let stakingTxHeader ← Result.wrap (ctx.btclc.getHeaderByHash p.headerHash)
    (.errorf "staking tx inclusion proof header %s is not found in BTC light client state")
  ensure (verifyInclusionProof E.btc stakingTx stakingTxHeader.header.merkleRoot
    p.proof p.index = true)
    (.err .ErrInvalidStakingTx "not included in the Bitcoin chain")
  ensure (p.index ≠ 0) (.err .ErrInvalidStakingTx "coinbase tx cannot be used for staking")
  let btcTip ← orFail ctx.btclc.getTip .nilPointer
  ensure (confirmationDepth ≤ btcTip.height-stakingTxHeader.height)
    (.err .ErrInvalidStakingTx "not k-deep")
  ensure (btcTip.height+unbondingTime < stakingTxHeader.height+stakingTime)
    (.err .ErrInvalidStakingTx "staking tx's timelock has no more than unbonding blocks left")
  pure ⟨stakingTxHeader.height,stakingTxHeader.height+stakingTime,btcTip.height⟩

def State.addBTCDelegationInclusionProof (s : State) (ctx : Ctx) (d : BTCDelegation)
    (p : InclusionProof) : Result State := do
  let stakingTxHash := E.btc.txHash d.stakingTx
  ensure (d.hasInclusionProof = false) (.errorf "the delegation already has inclusion proof")
  let params ← orFail (s.getParamsByVersion d.paramsVersion)
    (.panic "params version in BTC delegation is not found")
  let hasQuorum ← s.btcDelHasCovenantQuorums d params.covenantQuorum
  ensure (hasQuorum = true)
    (.errorf "the delegation has not received a quorum of covenant signatures")
  ensure (d.isUnbondedEarly = false) (.errorf "the delegation is already unbonded")
  let timeInfo ← Result.wrap (verifyInclusionProofAndGetHeight E ctx d.stakingTx
    ctx.btcConfirmationDepth d.stakingTime params.unbondingTimeBlocks p)
      (.errorf "invalid inclusion proof")
  ensure (d.btcTipHeight ≤ timeInfo.startHeight)
    (.err .ErrStakingTxIncludedTooEarly "btc tip height at the time of the delegation creation")
  let d' := { d with startHeight := timeInfo.startHeight, endHeight := timeInfo.endHeight }
  let s₁ := s.setBTCDelegation E d'
  let s₂ := s₁.addPowerDistUpdateEvent ctx.header.height timeInfo.tipHeight
    (.btcDelStateUpdate stakingTxHash .ACTIVE)
  pure (s₂.addPowerDistUpdateEvent ctx.header.height (d'.endHeight-params.unbondingTimeBlocks)
    (.btcDelStateUpdate stakingTxHash .EXPIRED))

def State.addCovenantSigsToBTCDelegation (s : State) (ctx : Ctx) (info : DelWithParams)
    (covPK : BIP340PubKey) (slashingSigs : List Bytes) (unbondingTxSig : Bytes)
    (unbondingSlashingSigs : List Bytes) (stakeExpansionTxSig : Option Bytes) (btcTipHeight : Nat) :
    State :=
  let d := info.delegation
  let quorumPreviousStk := (info.prev.map (fun p => p.2.covenantQuorum)).getD 0
  let hadQuorum := d.hasCovenantQuorums info.params.covenantQuorum quorumPreviousStk
  let d' := d.addCovenantSigs covPK slashingSigs unbondingTxSig unbondingSlashingSigs
    stakeExpansionTxSig
  let s' := s.setBTCDelegation E d'
  if ¬ hadQuorum ∧ d'.hasCovenantQuorums info.params.covenantQuorum quorumPreviousStk ∧
      d'.hasInclusionProof then
    s'.addPowerDistUpdateEvent ctx.header.height btcTipHeight
      (.btcDelStateUpdate (E.btc.txHash d'.stakingTx) .ACTIVE)
  else s'

def State.btcUndelegate (s : State) (ctx : Ctx) (d : BTCDelegation) (u : DelegatorUnbondingInfo) :
    Result State := do
  let d' := { d with
    btcUndelegation := { d.btcUndelegation with delegatorUnbondingInfo := some u } }
  let s' := s.setBTCDelegation E d'
  if d'.hasInclusionProof then do
    let btcTip ← orFail ctx.btclc.getTip .nilPointer
    pure (s'.addPowerDistUpdateEvent ctx.header.height btcTip.height
      (.btcDelStateUpdate (E.btc.txHash d'.stakingTx) .UNBONDED))
  else pure s'

end AnonChain.BtcStaking
