import AnonChain.BtcLightClient

/-! Data of the staking module. -/

namespace AnonChain.BtcStaking

open Lib BtcLightClient

structure CommissionInfo where
  maxRate : Int
  maxChangeRate : Int
  updateTime : Nat

structure FinalityProvider where
  addr : AccAddress
  btcPk : BIP340PubKey
  commission : Int
  commissionInfo : CommissionInfo
  slashedAnonHeight : Nat
  slashedBtcHeight : Nat
  jailed : Bool
  highestVotedHeight : Nat

def FinalityProvider.isSlashed (fp : FinalityProvider) : Bool := 0 < fp.slashedAnonHeight

def FinalityProvider.isJailed (fp : FinalityProvider) : Bool := fp.jailed

structure Params where
  covenantPks : List BIP340PubKey
  covenantQuorum : Nat
  minStakingValueSat : Int
  maxStakingValueSat : Int
  minStakingTimeBlocks : Nat
  maxStakingTimeBlocks : Nat
  slashingPkScript : Bytes
  minSlashingTxFeeSat : Int
  slashingRate : Int
  unbondingTimeBlocks : Nat
  unbondingFeeSat : Int
  minCommissionRate : Int
  allowListExpirationHeight : Nat
  btcActivationHeight : Nat

def Params.hasCovenantPK (p : Params) (pk : BIP340PubKey) : Bool := p.covenantPks.contains pk

def maxUint16 : Nat := 65535

def decOne : Int := 10^18

structure SignatureInfo where
  pk : BIP340PubKey
  sig : Bytes

structure CovenantAdaptorSignatures where
  covPk : BIP340PubKey
  adaptorSigs : List Bytes

/-- `spendStakeTx` is absent when the spending transaction is the registered unbonding one. -/
structure DelegatorUnbondingInfo where
  spendStakeTx : Option MsgTx

structure BTCUndelegation where
  unbondingTx : MsgTx
  slashingTx : MsgTx
  delegatorSlashingSig : Bytes
  covenantSlashingSigs : List CovenantAdaptorSignatures
  covenantUnbondingSigList : List SignatureInfo
  delegatorUnbondingInfo : Option DelegatorUnbondingInfo

structure StakeExpansion where
  previousStakingTxHash : Hash
  otherFundingTxOut : TxOut
  previousStkCovenantSigs : List SignatureInfo

structure BTCDelegation where
  stakerAddr : AccAddress
  btcPk : BIP340PubKey
  fpBtcPkList : List BIP340PubKey
  stakingTime : Nat
  startHeight : Nat
  endHeight : Nat
  totalSat : Nat
  stakingTx : MsgTx
  stakingOutputIdx : Nat
  slashingTx : MsgTx
  delegatorSig : Bytes
  unbondingTime : Nat
  covenantSigs : List CovenantAdaptorSignatures
  btcUndelegation : BTCUndelegation
  paramsVersion : Nat
  btcTipHeight : Nat
  stkExp : Option StakeExpansion

inductive BTCDelegationStatus where
  | PENDING
  | VERIFIED
  | ACTIVE
  | UNBONDED
  | EXPIRED
  deriving DecidableEq

namespace BTCUndelegation

def hasCovenantQuorums (ud : BTCUndelegation) (quorum : Nat) : Bool :=
  quorum ≤ ud.covenantUnbondingSigList.length ∧ quorum ≤ ud.covenantSlashingSigs.length

def isSignedByCovMember (ud : BTCUndelegation) (covPk : BIP340PubKey) : Bool :=
  ud.covenantUnbondingSigList.any (fun i => i.pk = covPk) &&
    ud.covenantSlashingSigs.any (fun i => i.covPk = covPk)

def addCovenantSigs (ud : BTCUndelegation) (covPk : BIP340PubKey) (unbondingSig : Bytes)
    (slashingSigs : List Bytes) : BTCUndelegation :=
  { ud with
    covenantUnbondingSigList := ud.covenantUnbondingSigList ++ [⟨covPk,unbondingSig⟩]
    covenantSlashingSigs := ud.covenantSlashingSigs ++ [⟨covPk,slashingSigs⟩] }

end BTCUndelegation

namespace StakeExpansion

def hasCovenantQuorums (e : StakeExpansion) (quorumPreviousStk : Nat) : Bool :=
  quorumPreviousStk ≤ e.previousStkCovenantSigs.length

def isSignedByCovMember (e : StakeExpansion) (covPk : BIP340PubKey) : Bool :=
  e.previousStkCovenantSigs.any (fun i => i.pk = covPk)

def addCovenantSigs (e : StakeExpansion) (covPk : BIP340PubKey) (sig : Bytes) : StakeExpansion :=
  { e with previousStkCovenantSigs := e.previousStkCovenantSigs ++ [⟨covPk,sig⟩] }

end StakeExpansion

namespace BTCDelegation

def isStakeExpansion (d : BTCDelegation) : Bool := d.stkExp.isSome

def hasInclusionProof (d : BTCDelegation) : Bool := 0 < d.startHeight ∧ 0 < d.endHeight

def isUnbondedEarly (d : BTCDelegation) : Bool := d.btcUndelegation.delegatorUnbondingInfo.isSome

def hasCovenantQuorums (d : BTCDelegation) (quorum quorumPreviousStk : Nat) : Bool :=
  let hasQuorum := decide (quorum ≤ d.covenantSigs.length) &&
    d.btcUndelegation.hasCovenantQuorums quorum
  match d.stkExp with
  | some e => hasQuorum && e.hasCovenantQuorums quorumPreviousStk
  | none => hasQuorum

def isSignedByCovMember (d : BTCDelegation) (covPk : BIP340PubKey) : Bool :=
  d.covenantSigs.any (fun i => i.covPk = covPk)

def addCovenantSigs (d : BTCDelegation) (covPk : BIP340PubKey) (stakingSlashingSigs : List Bytes)
    (unbondingSig : Bytes) (unbondingSlashingSigs : List Bytes) (stkExpSig : Option Bytes) :
    BTCDelegation :=
  { d with
    covenantSigs := d.covenantSigs ++ [⟨covPk,stakingSlashingSigs⟩]
    btcUndelegation := d.btcUndelegation.addCovenantSigs covPk unbondingSig unbondingSlashingSigs
    stkExp := d.stkExp.map (fun e => e.addCovenantSigs covPk (stkExpSig.getD [])) }

def getStatus (d : BTCDelegation) (btcHeight covenantQuorum quorumPreviousStk : Nat) :
    BTCDelegationStatus :=
  if d.isUnbondedEarly then .UNBONDED
  else if ¬ d.hasCovenantQuorums covenantQuorum quorumPreviousStk then .PENDING
  else if ¬ d.hasInclusionProof then .VERIFIED
  else if btcHeight < d.startHeight then .UNBONDED
  else if d.endHeight ≤ btcHeight+d.unbondingTime then .EXPIRED
  else .ACTIVE

end BTCDelegation

inductive EventPowerDistUpdate where
  | btcDelStateUpdate (stakingTxHash : Hash) (newState : BTCDelegationStatus)
  | slashedFp (pk : BIP340PubKey)
  | jailedFp (pk : BIP340PubKey)
  | unjailedFp (pk : BIP340PubKey)
  deriving DecidableEq

/-- An event with the block that recorded it and the Bitcoin height it is filed under. -/
structure RecordedEvent where
  anonHeight : Nat
  btcHeight : Nat
  event : EventPowerDistUpdate

structure LargestBtcReOrg where
  blockDiff : Nat
  rollbackFrom : BTCHeaderInfo
  rollbackTo : BTCHeaderInfo

structure HeightVersionPair where
  startHeight : Nat
  version : Nat

structure State where
  params : KVStore Nat Params
  heightToVersionMap : List HeightVersionPair
  finalityProviders : KVStore BIP340PubKey FinalityProvider
  fpAncAddr : List AccAddress
  finalityProvidersDeleted : List BIP340PubKey
  allowedStakingTxHashes : List Hash
  btcDelegations : KVStore Hash BTCDelegation
  powerDistUpdateEvents : KVStore Nat (List EventPowerDistUpdate)
  btcHeights : KVStore Nat Nat
  largestBtcReorg : Option LargestBtcReOrg
  /-- History of every event recorded; no handler reads it. -/
  eventLog : List RecordedEvent

/-- What a handler reads besides the stores of its own module. -/
structure Ctx where
  header : HeaderInfo
  btclc : BtcLightClient.State
  btcConfirmationDepth : Nat
  checkpointFinalizationTimeout : Nat
  currentEpoch : Nat
  lastFinalizedEpoch : Nat
  authority : AccAddress

structure InclusionProof where
  headerHash : Hash
  index : Nat
  proof : Bytes

structure MsgCreateBTCDelegation where
  stakerAddr : Option AccAddress
  pop : Bytes
  btcPk : BIP340PubKey
  fpBtcPkList : List BIP340PubKey
  stakingTime : Nat
  stakingValue : Int
  stakingTx : MsgTx
  stakingTxInclusionProof : Option InclusionProof
  slashingTx : MsgTx
  delegatorSlashingSig : Bytes
  unbondingTime : Nat
  unbondingTx : MsgTx
  unbondingValue : Int
  unbondingSlashingTx : MsgTx
  delegatorUnbondingSlashingSig : Bytes

structure ParsedCreateDelStkExp where
  previousActiveStkTxHash : Hash
  otherFundingOutput : TxOut
  fundingTxHash : Hash
  fundingOutputIndex : Nat

structure ParsedCreateDelegationMessage where
  stakerAddress : AccAddress
  stakingTx : MsgTx
  stakingTxProofOfInclusion : Option InclusionProof
  stakingTime : Nat
  stakingValue : Int
  stakingSlashingTx : MsgTx
  stakerPK : BIP340PubKey
  stakerStakingSlashingTxSig : Bytes
  unbondingTx : MsgTx
  unbondingTime : Nat
  unbondingValue : Int
  unbondingSlashingTx : MsgTx
  stakerUnbondingSlashingSig : Bytes
  finalityProviderKeys : List BIP340PubKey
  parsedPop : Bytes
  stkExp : Option ParsedCreateDelStkExp

/-- What the module takes from the Bitcoin, script and signature libraries. -/
structure Env where
  btc : BtcLib
  validPubKey : BIP340PubKey → Bool
  verifyPop : AccAddress → BIP340PubKey → Bytes → Bool
  paramsScriptsValid : Params → Bool
  stakingOutput : BIP340PubKey → List BIP340PubKey → Params → Nat → Int → Option TxOut
  unbondingOutput : BIP340PubKey → List BIP340PubKey → Params → Nat → Int → Option TxOut
  slashingTxMatchesFundingTx : MsgTx → MsgTx → Nat → Params → BIP340PubKey → Nat → Bool
  delegatorSlashingSigValid : MsgTx → TxOut → ParsedCreateDelegationMessage → Params → Bytes → Bool
  preSignedUnbondingTxSane : MsgTx → Bool
  parseCovSlashingSigs : BTCDelegation → Params → BIP340PubKey → List Bytes → Option (List Bytes)
  covUnbondingSigValid : BTCDelegation → Params → BIP340PubKey → Bytes → Bool
  parseCovUnbondingSlashingSigs :
    BTCDelegation → Params → BIP340PubKey → List Bytes → Option (List Bytes)
  stkExpSigValid : BTCDelegation → BTCDelegation → Params → BIP340PubKey → Bytes → Bool
  stakeSpendingTxSane : MsgTx → Bool
  spendStakeTxStakerSigValid : BIP340PubKey → Option TxOut → Nat → List MsgTx → MsgTx → Bool
  pubKeyOfSk : Bytes → BIP340PubKey

end AnonChain.BtcStaking
