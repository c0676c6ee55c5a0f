import AnonChain.BtcStaking.Keeper

/-! The messages of the staking module. Script and signature checks are the parameters of `Env`. -/

namespace AnonChain.BtcStaking

open Lib BtcLightClient

structure CommissionRates where
  rate : Int
  maxRate : Int
  maxChangeRate : Int

def CommissionRates.validate (c : CommissionRates) : Result Unit := do
  ensure (0 ≤ c.maxRate) (.errorf "commission must be positive")
  ensure (c.maxRate ≤ decOne) (.errorf "commission cannot be more than 100%%")
  ensure (0 ≤ c.rate) (.errorf "commission must be positive")
  ensure (c.rate ≤ c.maxRate) (.err .ErrCommissionGTMaxRate "")
  ensure (0 ≤ c.maxChangeRate) (.errorf "commission change rate must be positive")
  ensure (c.maxChangeRate ≤ c.maxRate)
    (.errorf "commission change rate cannot be more than the max rate")

structure MsgCreateFinalityProvider where
  addr : Option AccAddress
  commission : CommissionRates
  btcPk : BIP340PubKey
  pop : Bytes

structure MsgEditFinalityProvider where
  addr : Option AccAddress
  btcPk : BIP340PubKey
  commission : Option Int

variable (E : Env)

def createFinalityProvider (s : State) (ctx : Ctx) (msg : MsgCreateFinalityProvider) :
    Result State := do
  msg.commission.validate
  ensure (E.validPubKey msg.btcPk = true) (.errorf "invalid BTC public key")
  let fpAddr ← orFail msg.addr (.errorf "invalid address")
  ensure (E.verifyPop fpAddr msg.btcPk msg.pop = true) (.errorf "invalid proof of possession")
  let params ← s.getParams
  ensure (fpAddr ∉ s.fpAncAddr)
    (.err .ErrFpRegistered
      "there is already an finality provider registered with the same anon address")
  ensure (params.minCommissionRate ≤ msg.commission.rate)
    (.err .ErrCommissionLTMinRate
      "cannot set finality provider commission to less than minimum rate")
  ensure (msg.commission.rate ≤ msg.commission.maxRate) (.err .ErrCommissionGTMaxRate "")
  ensure (s.finalityProviders.has msg.btcPk = false) (.err .ErrFpRegistered "")
  let fp : FinalityProvider :=
    { addr := fpAddr, btcPk := msg.btcPk, commission := msg.commission.rate,
      commissionInfo := ⟨msg.commission.maxRate,msg.commission.maxChangeRate,ctx.header.time⟩,
      slashedAnonHeight := 0, slashedBtcHeight := 0, jailed := false, highestVotedHeight := 0 }
  pure ({ s with fpAncAddr := fpAddr :: s.fpAncAddr }.setFinalityProvider fp)

/-- A day, in the nanoseconds block times are counted in. -/
def commissionUpdateInterval : Nat := 24*60*60*10^9

def updateFinalityProviderCommission (s : State) (ctx : Ctx) (newCommission : Option Int)
    (fp : FinalityProvider) : Result FinalityProvider :=
  match newCommission with
  | none => .ok fp
  | some c => do
    ensure (0 ≤ c) (.errorf "commission must be positive")
    ensure (fp.commissionInfo.updateTime+commissionUpdateInterval ≤ ctx.header.time)
      (.errorf "commission cannot be changed more than once in 24h")
    let params ← s.getParams
    ensure (params.minCommissionRate ≤ c)
      (.err .ErrCommissionLTMinRate
        "cannot set finality provider commission to less than minimum rate")
    ensure (c ≤ fp.commissionInfo.maxRate)
      (.errorf "cannot set finality provider commission to more than max rate")
    ensure ((c-fp.commission).natAbs ≤ fp.commissionInfo.maxChangeRate)
      (.errorf "commission cannot be changed more than max change rate")
    pure { fp with commission := c,
                   commissionInfo := { fp.commissionInfo with updateTime := ctx.header.time } }

def editFinalityProvider (s : State) (ctx : Ctx) (msg : MsgEditFinalityProvider) :
    Result State := do
  let fpAddr ← orFail msg.addr (.errorf "invalid address")
  let fp ← s.getFinalityProvider msg.btcPk
  ensure (fpAddr = fp.addr)
    (.errorf "the signer does not correspond to the finality provider's Anon address")
  let fp' ← updateFinalityProviderCommission s ctx msg.commission fp
  pure (s.setFinalityProvider fp')

structure MsgSelectiveSlashingEvidence where
  signer : Option AccAddress
  recoveredFpBtcSk : Bytes

def selectiveSlashingEvidence (s : State) (ctx : Ctx) (msg : MsgSelectiveSlashingEvidence) :
    Result State :=
  s.slashFinalityProvider ctx (E.pubKeyOfSk msg.recoveredFpBtcSk)

def parseCreateDelegationMessage (msg : MsgCreateBTCDelegation) :
    Result ParsedCreateDelegationMessage := do
  ensure (msg.unbondingTime ≤ maxUint16) (.errorf "unbonding time %d must be lower than %d")
  ensure (msg.stakingTime ≤ maxUint16) (.errorf "staking time %d must be lower than %d")
  let stakerAddr ← orFail msg.stakerAddr (.errorf "invalid staker address")
  ensure (msg.fpBtcPkList ≠ []) (.errorf "failed to parse finality provider public keys")
  ensure (∀ pk ∈ msg.fpBtcPkList, E.validPubKey pk = true)
    (.errorf "failed to parse finality provider public keys")
  ensure msg.fpBtcPkList.Nodup (.err .ErrDuplicatedFp "")
  ensure (msg.fpBtcPkList.length = 1) (.err .ErrTooManyFpKeys "")
  ensure (E.validPubKey msg.btcPk = true) (.errorf "failed to parse staker public key")
  ensure (0 ≤ msg.stakingValue) (.errorf "staking value must be positive")
  ensure (0 ≤ msg.unbondingValue) (.errorf "unbonding value must be positive")
  pure { stakerAddress := stakerAddr, stakingTx := msg.stakingTx,
         stakingTxProofOfInclusion := msg.stakingTxInclusionProof, stakingTime := msg.stakingTime,
         stakingValue := msg.stakingValue, stakingSlashingTx := msg.slashingTx,
         stakerPK := msg.btcPk, stakerStakingSlashingTxSig := msg.delegatorSlashingSig,
         unbondingTx := msg.unbondingTx, unbondingTime := msg.unbondingTime,
         unbondingValue := msg.unbondingValue, unbondingSlashingTx := msg.unbondingSlashingTx,
         stakerUnbondingSlashingSig := msg.delegatorUnbondingSlashingSig,
         finalityProviderKeys := msg.fpBtcPkList, parsedPop := msg.pop, stkExp := none }

def getOutputIdxInBTCTx (tx : MsgTx) (output : TxOut) : Option Nat :=
  match (List.range tx.txOut.length).filter (fun i => tx.txOut[i]? = some output) with
  | [i] => some i
  | _ => none

def validateParsedMessageAgainstTheParams (pm : ParsedCreateDelegationMessage) (p : Params) :
    Result Nat := do
  ensure (pm.unbondingTime = p.unbondingTimeBlocks)
    (.err .ErrInvalidUnbondingTx "unbonding time %d must be equal to %d")
  let stakingOutput ← orFail
    (E.stakingOutput pm.stakerPK pm.finalityProviderKeys p pm.stakingTime pm.stakingValue)
    (.err .ErrInvalidStakingTx "failed to build staking info")
  let stakingOutputIdx ← orFail (getOutputIdxInBTCTx pm.stakingTx stakingOutput)
    (.err .ErrInvalidStakingTx "staking tx does not contain expected staking output")
  ensure (p.minStakingTimeBlocks ≤ pm.stakingTime ∧ pm.stakingTime ≤ p.maxStakingTimeBlocks)
    (.err .ErrInvalidStakingTx "staking time %d is out of bounds")
  let fundingOut ← orFail pm.stakingTx.txOut[stakingOutputIdx]? .outOfRange
  ensure (p.minStakingValueSat ≤ fundingOut.value ∧ fundingOut.value ≤ p.maxStakingValueSat)
    (.err .ErrInvalidStakingTx "staking value %d is out of bounds")
  ensure (E.slashingTxMatchesFundingTx pm.stakingSlashingTx pm.stakingTx stakingOutputIdx p
      pm.stakerPK pm.unbondingTime = true) (.err .ErrInvalidStakingTx "slashing tx")
  ensure (E.delegatorSlashingSigValid pm.stakingSlashingTx fundingOut pm p
      pm.stakerStakingSlashingTxSig =
        true) (.err .ErrInvalidSlashingTx "invalid delegator signature")
  ensure (E.preSignedUnbondingTxSane pm.unbondingTx = true)
    (.err .ErrInvalidUnbondingTx "unbonding tx is not a valid pre-signed transaction")
  let unbondingOutput ← orFail
    (E.unbondingOutput pm.stakerPK pm.finalityProviderKeys p pm.unbondingTime pm.unbondingValue)
    (.err .ErrInvalidUnbondingTx "failed to build the unbonding info")
  let unbondingOut ← orFail pm.unbondingTx.txOut.head? .outOfRange
  ensure (unbondingOut.pkScript = unbondingOutput.pkScript)
    (.err .ErrInvalidUnbondingTx "the unbonding output script is not expected")
  ensure (unbondingOut.value = unbondingOutput.value)
    (.err .ErrInvalidUnbondingTx "the unbonding output value is not expected")
  ensure (E.slashingTxMatchesFundingTx pm.unbondingSlashingTx pm.unbondingTx 0 p
      pm.stakerPK pm.unbondingTime = true) (.err .ErrInvalidUnbondingTx "slashing tx")
  ensure (E.delegatorSlashingSigValid pm.unbondingSlashingTx unbondingOut pm p
      pm.stakerUnbondingSlashingSig =
        true) (.err .ErrInvalidSlashingTx "invalid delegator signature")
  let unbondingIn ← orFail pm.unbondingTx.txIn.head? .outOfRange
  ensure (unbondingIn.previousOutPoint = ⟨E.btc.txHash pm.stakingTx,stakingOutputIdx⟩)
    (.err .ErrInvalidUnbondingTx "unbonding transaction must spend staking output")
  ensure (unbondingOut.value < fundingOut.value)
    (.err .ErrInvalidUnbondingTx "unbonding tx fee must be larger that 0")
  ensure (fundingOut.value-unbondingOut.value = p.unbondingFeeSat)
    (.err .ErrInvalidUnbondingTx "unbonding tx fee must be %d, but got %d")
  pure stakingOutputIdx

def isAllowListEnabled (ctx : Ctx) (p : Params) : Bool :=
  0 < p.allowListExpirationHeight ∧ ctx.header.height < p.allowListExpirationHeight

def State.getTimeInfoAndParams (s : State) (ctx : Ctx) (pm : ParsedCreateDelegationMessage) :
    Result (DelegationTimeRangeInfo × Params × Nat) :=
  match pm.stakingTxProofOfInclusion with
  | some proof => do
    let timeInfo ← Result.wrap (verifyInclusionProofAndGetHeight E ctx pm.stakingTx
      ctx.btcConfirmationDepth pm.stakingTime pm.unbondingTime proof)
      (.errorf "invalid inclusion proof")
    let (p,version) ← s.getParamsForBtcHeight timeInfo.startHeight
    pure (timeInfo,p,version)
  | none => do
    let btcTip ← orFail ctx.btclc.getTip .nilPointer
    let (p,version) ← s.getParamsForBtcHeight btcTip.height
    pure (⟨0,0,btcTip.height⟩,p,version)

def newBTCDelegation (pm : ParsedCreateDelegationMessage) (timeInfo : DelegationTimeRangeInfo)
    (version stakingOutputIdx : Nat) : BTCDelegation :=
  { stakerAddr := pm.stakerAddress, btcPk := pm.stakerPK, fpBtcPkList := pm.finalityProviderKeys,
    stakingTime := pm.stakingTime, startHeight := timeInfo.startHeight,
    endHeight := timeInfo.endHeight, totalSat := pm.stakingValue.toNat, stakingTx := pm.stakingTx,
    stakingOutputIdx := stakingOutputIdx, slashingTx := pm.stakingSlashingTx,
    delegatorSig := pm.stakerStakingSlashingTxSig, unbondingTime := pm.unbondingTime,
    covenantSigs := [],
    btcUndelegation :=
      { unbondingTx := pm.unbondingTx, slashingTx := pm.unbondingSlashingTx,
        delegatorSlashingSig := pm.stakerUnbondingSlashingSig,
        covenantSlashingSigs := [], covenantUnbondingSigList :=
          [], delegatorUnbondingInfo := none },
    paramsVersion := version, btcTipHeight := timeInfo.tipHeight,
    stkExp := pm.stkExp.map (fun e => ⟨e.previousActiveStkTxHash,e.otherFundingOutput,[]⟩) }

def State.createBTCDelegation (s : State) (ctx : Ctx) (pm : ParsedCreateDelegationMessage) :
    Result State := do
  ensure (E.verifyPop pm.stakerAddress pm.stakerPK pm.parsedPop = true)
    (.err .ErrInvalidProofOfPossession "")
  let stakingTxHash := E.btc.txHash pm.stakingTx
  ensure (s.btcDelegations.has stakingTxHash = false)
    (.err .ErrReusedStakingTx "duplicated tx hash")
  s.validateStakedFPs pm.finalityProviderKeys
  let (timeInfo,p,version) ← s.getTimeInfoAndParams E ctx pm
  let stakingOutputIdx ← validateParsedMessageAgainstTheParams E pm p
  ensure (isAllowListEnabled ctx p = false ∨ stakingTxHash ∈ s.allowedStakingTxHashes)
    (.err .ErrInvalidStakingTx "staking tx hash is not in the allow list")
  pure (s.addBTCDelegation E ctx (newBTCDelegation pm timeInfo version stakingOutputIdx))

def createBTCDelegation (s : State) (ctx : Ctx) (msg : MsgCreateBTCDelegation) : Result State := do
  let pm ← parseCreateDelegationMessage E msg
  s.createBTCDelegation E ctx pm

structure MsgBtcStakeExpand where
  create : MsgCreateBTCDelegation
  previousStakingTxHash : Hash
  fundingTx : MsgTx

def MsgBtcStakeExpand.getStakeExpansion (msg : MsgBtcStakeExpand) :
    Result ParsedCreateDelStkExp := do
  let tx := msg.create.stakingTx
  ensure (tx.txIn.length = 2) (.errorf "stake expansion must have 2 inputs (TxIn)")
  let in₀ ← orFail tx.txIn[0]? .outOfRange
  let in₁ ← orFail tx.txIn[1]? .outOfRange
  ensure (in₀.previousOutPoint.hash = msg.previousStakingTxHash)
    (.errorf "stake expansion first input must be the previous staking transaction hash %s")
  let fundingTxHash := E.btc.txHash msg.fundingTx
  ensure (in₁.previousOutPoint.hash = fundingTxHash)
    (.errorf "stake expansion second input must be the given funding tx hash %s")
  let otherOutput ← orFail msg.fundingTx.txOut[in₁.previousOutPoint.index]?
    (.errorf "the given funding tx doesn't have the expected output index %d (has %d outputs)")
  ensure (0 < otherOutput.value) (.errorf "funding output has invalid value %d")
  pure ⟨msg.previousStakingTxHash,otherOutput,fundingTxHash,in₁.previousOutPoint.index⟩

/-- Parses the message as a creation without an inclusion proof. -/
def MsgBtcStakeExpand.toParsed (msg : MsgBtcStakeExpand) :
    Result ParsedCreateDelegationMessage := do
  let parsed ← parseCreateDelegationMessage E { msg.create with stakingTxInclusionProof := none }
  let stkExp ← msg.getStakeExpansion E
  pure { parsed with stkExp := some stkExp }

/-- Addition and conversion of Go's signed 64 bit integers wrap around. -/
def int64 (x : Int) : Int := x.bmod (2^64)

def validateStakeExpansionAmt (pm : ParsedCreateDelegationMessage) (stkExp : ParsedCreateDelStkExp)
    (newStakingAmt oldStakingAmt : Int) : Result Unit := do
  ensure (oldStakingAmt ≤ newStakingAmt)
    (.errorf "staking expansion output amount %d is less than previous delegation amount %d")
  ensure (0 < stkExp.otherFundingOutput.value)
    (.errorf "stake expansion funding output has invalid value %d")
  let totalInputValue := int64 (oldStakingAmt+stkExp.otherFundingOutput.value)
  let totalOutputValue := pm.stakingTx.txOut.foldl (fun total out => int64 (total+out.value)) 0
  ensure (0 < int64 (totalInputValue-totalOutputValue))
    (.errorf "invalid transaction fee: inputs %d <= outputs %d")

def hasSufficientCovenantOverlap (covCommittee1 covCommittee2 : List BIP340PubKey)
    (requiredOverlap : Nat) : Bool :=
  if requiredOverlap = 0 ∨ covCommittee1 = [] ∨ covCommittee2 = [] then false
  else requiredOverlap ≤ covCommittee1.countP (fun pk => covCommittee2.contains pk)

def isBtcDelegationActive (s : State) (ctx : Ctx) (stakingTxHash : Hash) :
    Result DelWithParams := do
  let info ← s.getBTCDelWithParams stakingTxHash
  let (status,_) ← State.btcDelStatusWithTip ctx info
  ensure (status = .ACTIVE) (.errorf "BTC delegation %s is not active, current status is %s")
  pure info

def btcStakeExpand (s : State) (ctx : Ctx) (msg : MsgBtcStakeExpand) : Result State := do
  let info ← isBtcDelegationActive s ctx msg.previousStakingTxHash
  let prev := info.delegation
  ensure (msg.create.stakerAddr = some prev.stakerAddr)
    (.errorf
      "the previous BTC staking transaction staker address does not match with current staker address")
  let pm ← Result.wrap (msg.toParsed E) (.errorf "InvalidArgument")
  let stkExp ← orFail pm.stkExp (.errorf "missing stake expansion data")
  ensure (msg.create.fpBtcPkList.head? = prev.fpBtcPkList.head?)
    (.errorf "the previous BTC staking transaction FP is not the same as FP of the stake expansion")
  ensure (pm.stakerPK = prev.btcPk) (.errorf "staker pk %s does not match previous staker pk %s")
  ensure (∀ pk ∈ msg.create.fpBtcPkList.head?, s.isFinalityProviderDeleted pk = false)
    (.err .ErrFinalityProviderIsDeleted "finality provider has been deleted")
  ensure (∀ d ∈ s.btcDelegations.get stkExp.fundingTxHash, d.stakingOutputIdx ≠
    stkExp.fundingOutputIndex)
    (.errorf "the funding output cannot be a staking output")
  let in₀ ← orFail pm.stakingTx.txIn[0]? .outOfRange
  ensure (prev.stakingOutputIdx = in₀.previousOutPoint.index)
    (.errorf
      "staking expansion tx input index does not match previous delegation staking output index")
  validateStakeExpansionAmt pm stkExp pm.stakingValue (int64 prev.totalSat)
  let btcTip ← orFail ctx.btclc.getTip .nilPointer
  let (currentParams,_) ← s.getParamsForBtcHeight btcTip.height
  ensure (hasSufficientCovenantOverlap info.params.covenantPks currentParams.covenantPks
      info.params.covenantQuorum = true) (.errorf "insufficient covenant committee overlap")
  s.createBTCDelegation E ctx pm

structure MsgAddBTCDelegationInclusionProof where
  signer : Option AccAddress
  stakingTxHash : Hash
  stakingTxInclusionProof : InclusionProof

def addBTCDelegationInclusionProof (s : State) (ctx : Ctx)
    (msg : MsgAddBTCDelegationInclusionProof) : Result State := do
  let d ← orFail (s.btcDelegations.get msg.stakingTxHash) (.err .ErrBTCDelegationNotFound "")
  ensure (d.isStakeExpansion = false)
    (.errorf
      "the BTC delegation %s is a stake expansion, use MsgBTCUndelegate to set the inclusion proof")
  s.addBTCDelegationInclusionProof E ctx d msg.stakingTxInclusionProof

structure MsgAddCovenantSigs where
  pk : BIP340PubKey
  stakingTxHash : Hash
  slashingTxSigs : List Bytes
  unbondingTxSig : Bytes
  slashingUnbondingTxSigs : List Bytes
  stakeExpansionTxSig : Option Bytes

def validateStakeExpansionSig (info : DelWithParams) (msg : MsgAddCovenantSigs) : Result Unit :=
  match info.delegation.stkExp, msg.stakeExpansionTxSig with
  | none, some _ =>
    .error (.errorf "stake expansion tx signature provided for non-stake expansion delegation")
  | none, none => .ok ()
  | some _, none => .error (.errorf "empty stake expansion covenant signature")
  | some e, some sig => do
    ensure (e.isSignedByCovMember msg.pk = false)
      (.err .ErrDuplicatedCovenantSig "stake expansion transaction")
    let (prevDel,prevParams) ← orFail info.prev .nilPointer
    ensure (prevParams.hasCovenantPK msg.pk = true) (.err .ErrInvalidCovenantSig
      "covenant with pk %s was not a member at params (version %d) of the previous delegation")
    ensure (hasSufficientCovenantOverlap prevParams.covenantPks info.params.covenantPks
        prevParams.covenantQuorum = true) (.err .ErrInvalidCovenantSig
      "not enough overlap in covenant committee members for stake expansion: quorum=%d")
    ensure (E.stkExpSigValid info.delegation prevDel prevParams msg.pk sig = true)
      (.err .ErrInvalidCovenantSig "bad covenant signature of stake expansion")

def addCovenantSigs (s : State) (ctx : Ctx) (msg : MsgAddCovenantSigs) : Result State := do
  let info ← s.getBTCDelWithParams msg.stakingTxHash
  let d := info.delegation
  ensure (info.params.hasCovenantPK msg.pk = true) (.err .ErrInvalidCovenantPK "covenant pk: %s")
  ensure ((d.isSignedByCovMember msg.pk && d.btcUndelegation.isSignedByCovMember msg.pk) = false)
    (.err .ErrDuplicatedCovenantSig "")
  let (status,btcTip) ← State.btcDelStatusWithTip ctx info
  ensure (status ≠ .UNBONDED ∧ status ≠ .EXPIRED)
    (.err .ErrInvalidCovenantSig "the BTC delegation is already unbonded")
  ensure (msg.slashingTxSigs.length = d.fpBtcPkList.length) (.err .ErrInvalidCovenantSig
    "number of covenant signatures: %d, number of finality providers being staked to: %d")
  let slashingSigs ← orFail (E.parseCovSlashingSigs d info.params msg.pk msg.slashingTxSigs)
    (.err .ErrInvalidCovenantSig "err: %v")
  ensure (msg.slashingUnbondingTxSigs.length = d.fpBtcPkList.length) (.err .ErrInvalidCovenantSig
    "number of covenant signatures: %d, number of finality providers being staked to: %d")
  ensure (E.covUnbondingSigValid d info.params msg.pk msg.unbondingTxSig = true)
    (.err .ErrInvalidCovenantSig "unbonding tx signature")
  let unbondingSlashingSigs ← orFail
    (E.parseCovUnbondingSlashingSigs d info.params msg.pk msg.slashingUnbondingTxSigs)
    (.err .ErrInvalidCovenantSig "err: %v")
  Result.wrap (validateStakeExpansionSig E info msg)
    (.err .ErrInvalidCovenantSig "error validating stake expansion signatures: %v")
  pure (s.addCovenantSigsToBTCDelegation E ctx info msg.pk slashingSigs msg.unbondingTxSig
    unbondingSlashingSigs msg.stakeExpansionTxSig btcTip.height)

structure MsgBTCUndelegate where
  stakingTxHash : Hash
  stakeSpendingTx : MsgTx
  stakeSpendingTxInclusionProof : InclusionProof
  fundingTransactions : List MsgTx

def findInputIdx (tx : MsgTx) (fundingTxHash : Hash) (fundingOutputIdx : Nat) : Option Nat :=
  tx.txIn.findIdx? (fun i => i.previousOutPoint = ⟨fundingTxHash,fundingOutputIdx⟩)

/-- The spending transaction is shown to be on Bitcoin. A registered stake expansion gets its
inclusion proof here, which the result tells. -/
def State.includeStakeSpendingTx (s : State) (ctx : Ctx) (msg : MsgBTCUndelegate)
    (header : BTCHeaderInfo) : Result (State × Bool) :=
  let p := msg.stakeSpendingTxInclusionProof
  match s.btcDelegations.get (E.btc.txHash msg.stakeSpendingTx) with
  | some exp =>
    if exp.isStakeExpansion then do
      let s' ← Result.wrap (s.addBTCDelegationInclusionProof E ctx exp p)
        (.err .ErrInvalidBTCUndelegateReq "failed to handle stake expansion inclusion: %s")
      pure (s',true)
    else do
      ensure (verifyInclusionProof E.btc msg.stakeSpendingTx header.header.merkleRoot
        p.proof p.index = true)
        (.err .ErrInvalidBTCUndelegateReq
          "stake spending tx is not included in the Bitcoin chain: invalid inclusion proof")
      pure (s,false)
  | none => do
    ensure (verifyInclusionProof E.btc msg.stakeSpendingTx header.header.merkleRoot
      p.proof p.index = true)
      (.err .ErrInvalidBTCUndelegateReq
        "stake spending tx is not included in the Bitcoin chain: invalid inclusion proof")
    pure (s,false)

def btcUndelegate (s : State) (ctx : Ctx) (msg : MsgBTCUndelegate) : Result State := do
  ensure (E.stakeSpendingTxSane msg.stakeSpendingTx = true) (.errorf "invalid stake spending tx")
  let info ← s.getBTCDelWithParams msg.stakingTxHash
  let (status,_) ← State.btcDelStatusWithTip ctx info
  ensure (status ≠ .UNBONDED ∧ status ≠ .EXPIRED)
    (.err .ErrInvalidBTCUndelegateReq "cannot unbond an unbonded BTC delegation")
  let header ← Result.wrap (ctx.btclc.getHeaderByHash msg.stakeSpendingTxInclusionProof.headerHash)
    (.err .ErrInvalidBTCUndelegateReq "stake spending tx is not on BTC chain: %v")
  let (s₁,_) ← s.includeStakeSpendingTx E ctx msg header
  let d := info.delegation
  let inputIdx ← orFail
    (findInputIdx msg.stakeSpendingTx (E.btc.txHash d.stakingTx) d.stakingOutputIdx)
    (.err .ErrInvalidBTCUndelegateReq "stake spending tx does not spend staking output: %s")
  ensure (msg.fundingTransactions ≠ [])
    (.err .ErrInvalidBTCUndelegateReq "failed to parse funding transactions: %s")
  ensure (E.spendStakeTxStakerSigValid d.btcPk d.stakingTx.txOut[d.stakingOutputIdx]? inputIdx
      msg.fundingTransactions msg.stakeSpendingTx = true)
    (.err .ErrInvalidBTCUndelegateReq "failed to verify stake spending tx staker signature: %s")
  -- the registered unbonding transaction is not saved a second time
  let u : DelegatorUnbondingInfo :=
    if E.btc.txHash msg.stakeSpendingTx = E.btc.txHash d.btcUndelegation.unbondingTx then ⟨none⟩
    else ⟨some msg.stakeSpendingTx⟩
  s₁.btcUndelegate E ctx d u

structure MsgUpdateParams where
  authority : AccAddress
  params : Params

def updateParams (s : State) (ctx : Ctx) (msg : MsgUpdateParams) : Result State := do
  ensure (msg.authority = ctx.authority) .notAuthority
  ensure (ctx.checkpointFinalizationTimeout < msg.params.unbondingTimeBlocks)
    (.err .ErrInvalidProposalMsg
      "the unbonding time %d must be larger than the checkpoint finalization timeout %d")
  s.setParams E msg.params

end AnonChain.BtcStaking
