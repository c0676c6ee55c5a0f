import AnonChain.BtcStaking.Keeper
import AnonChain.Lib.Collect
import AnonChain.StakingLib.Transactions

/-! Slashing transactions: the adaptor signatures on them and their completion. -/

namespace AnonChain.BtcStaking

open Lib BtcLightClient StakingLib Adaptor Eots

section

variable (B : Bitcoin)

def validPubKey (pk : BIP340PubKey) : Bool := (parsePubKey B.curve.toCurve pk).isSome

def pubKeyOf (sk : ZMod B.curve.n) : BIP340PubKey :=
  serializePubKey B.curve.toCurve (sk • B.curve.G)

def sortBIP340PKs (keys : List BIP340PubKey) : List BIP340PubKey :=
  keys.insertionSort (fun a b => b ≤ a)

theorem sortBIP340PKs_perm (keys : List BIP340PubKey) : (sortBIP340PKs keys).Perm keys :=
  List.perm_insertionSort _ keys

def newBTCPKsFromBIP340PKs (pks : List BIP340PubKey) : Result Unit :=
  ensure (∀ pk ∈ pks, validPubKey B pk = true) (.errorf "invalid public key")

def parseEncVerifyAdaptorSignatures (tx : MsgTx) (fundingOut : TxOut) (slashingPath : Script)
    (pk : BIP340PubKey) : List BIP340PubKey → List Bytes → Result (List (AdaptorSignature B.curve))
  | _, [] => .ok []
  | [], _ :: _ => .error .outOfRange
  | valPK :: valPKs, sig :: sigs => do
    let adaptorSig ← newAdaptorSignatureFromBytes B.curve sig
    let encKey ← newEncryptionKey B.curve valPK
    Result.wrap (encVerifyTransactionSigWithOutput B tx fundingOut slashingPath pk
      encKey adaptorSig)
      (.err .ErrInvalidCovenantSig "err: %v")
    let adaptorSigs ← parseEncVerifyAdaptorSignatures tx fundingOut slashingPath pk valPKs sigs
    pure (adaptorSig :: adaptorSigs)

def covSigAt (fpIdx : Nat) (covSigs : CovenantAdaptorSignatures) :
    Result (AdaptorSignature B.curve) := do
  let covSigBytes ← orFail covSigs.adaptorSigs[fpIdx]?
    (.errorf "finality provider index is out of the scope")
  newAdaptorSignatureFromBytes B.curve covSigBytes

/-- The signatures under the key of one finality provider, in the order of the witness; members
that did not sign have none. -/
def getOrderedCovenantSignatures (fpIdx : Nat) (covSigsList : List CovenantAdaptorSignatures)
    (params : Params) : Result (List (Option (AdaptorSignature B.curve))) := do
  let covSigsMap ← collect CovenantAdaptorSignatures.covPk (covSigAt B fpIdx) covSigsList
  pure ((sortBIP340PKs params.covenantPks).map covSigsMap.get)

/-- Decrypts signatures until `covenantQuorum` of them are there; the places after that stay
empty. -/
def decryptCovenantSigs (decKey : ZMod B.curve.n) (covenantQuorum : Nat) :
    Nat → List (Option (AdaptorSignature B.curve)) →
      Result (List (Option (Signature B.curve)) × Nat)
  | numSigs, [] => .ok ([],numSigs)
  | numSigs, none :: sigs =>
    if numSigs = covenantQuorum then .ok (none :: sigs.map (fun _ => none),numSigs)
    else do
      let (rest,total) ← decryptCovenantSigs decKey covenantQuorum numSigs sigs
      pure (none :: rest,total)
  | numSigs, some covenantSig :: sigs => do
    let covSig ← Result.wrap (covenantSig.decrypt decKey)
      (.errorf "failed to decrypt covenant adaptor signature: %w")
    if numSigs+1 = covenantQuorum then pure (some covSig :: sigs.map (fun _ => none),numSigs+1)
    else do
      let (rest,total) ← decryptCovenantSigs decKey covenantQuorum (numSigs+1) sigs
      pure (some covSig :: rest,total)

def findFPIdxInWitness (fpSK : ZMod B.curve.n) (fpBTCPKs : List BIP340PubKey) : Result Nat :=
  orFail ((sortBIP340PKs fpBTCPKs).findIdx? (fun pk => pk = pubKeyOf B fpSK))
    (.errorf "the given finality provider's PK is not found in the BTC delegation")

def setFirstWitness (tx : MsgTx) (witness : List Bytes) : Result MsgTx :=
  match tx.txIn with
  | [] => .error .outOfRange
  | i :: is => .ok { tx with txIn := { i with witness := witness } :: is }

def buildSlashingTxWithWitness (tx : MsgTx) (fpSK : ZMod B.curve.n) (fpBTCPKs : List BIP340PubKey)
    (fundingMsgTx : MsgTx) (outputIdx : Nat) (delegatorSig : Bytes)
    (covenantSigs : List (Option (AdaptorSignature B.curve))) (covenantQuorum : Nat)
    (slashingPathSpendInfo : SpendInfo) : Result MsgTx := do
  -- making the decryption key negates the secret key in place when its point is odd
  let decKey ← Result.wrap (newDecryptionKey B.curve fpSK)
    (.errorf "failed to get decryption key from BTC SK: %w")
  let (covSigs,numSigs) ← decryptCovenantSigs B decKey covenantQuorum 0 covenantSigs
  ensure (covenantQuorum ≤ numSigs) (.errorf "not enough covenant signatures to reach quorum")
  let fpIdxInWitness ← findFPIdxInWitness B decKey fpBTCPKs
  let fpSig ← Result.wrap (signTxWithOneScriptSpendInputStrict B tx fundingMsgTx outputIdx
    slashingPathSpendInfo.revealedLeaf decKey)
    (.errorf "failed to sign slashing tx for the finality provider: %w")
  let fpSigs := (fpBTCPKs.map (fun _ => none)).set fpIdxInWitness (some fpSig)
  let delegatorSchnorrSig ← orFail (parseSignature B.curve delegatorSig)
      (.panic "invalid signature")
  let witness ← createSlashingPathWitness B slashingPathSpendInfo covSigs fpSigs delegatorSchnorrSig
  setFirstWitness tx witness

end

namespace BTCDelegation

variable (B : Bitcoin)

def mustGetValidStakingTime (d : BTCDelegation) : Result Nat := do
  ensure (d.stakingTime ≤ maxUint16) (.panic "invalid delegation in database")
  pure d.stakingTime

def getStakingInfo (d : BTCDelegation) (p : Params) : Result OutputInfo := do
  Result.wrap (newBTCPKsFromBIP340PKs B d.fpBtcPkList)
    (.errorf "failed to convert finality provider pks to BTC pks %v")
  Result.wrap (newBTCPKsFromBIP340PKs B p.covenantPks)
    (.errorf "failed to convert covenant pks to BTC pks %v")
  ensure (validPubKey B d.btcPk = true) (.panic "invalid public key")
  let stakingTime ← d.mustGetValidStakingTime
  Result.wrap (buildStakingInfo B d.btcPk d.fpBtcPkList p.covenantPks p.covenantQuorum
    stakingTime d.totalSat)
    (.errorf "could not create BTC staking info: %v")

/-- The unbonding time is truncated to sixteen bits. -/
def getUnbondingInfo (d : BTCDelegation) (p : Params) : Result OutputInfo := do
  Result.wrap (newBTCPKsFromBIP340PKs B d.fpBtcPkList)
    (.errorf "failed to convert finality provider pks to BTC pks: %v")
  Result.wrap (newBTCPKsFromBIP340PKs B p.covenantPks)
    (.errorf "failed to convert covenant pks to BTC pks: %v")
  ensure (validPubKey B d.btcPk = true) (.panic "invalid public key")
  let out ← orFail d.btcUndelegation.unbondingTx.txOut[0]? .outOfRange
  Result.wrap (buildUnbondingInfo B d.btcPk d.fpBtcPkList p.covenantPks p.covenantQuorum
    (d.unbondingTime%(maxUint16+1)) out.value) (.errorf "could not create BTC staking info: %v")

def findFPIdx (d : BTCDelegation) (fpBTCPK : BIP340PubKey) : Result Nat :=
  orFail (d.fpBtcPkList.findIdx? (fun pk => pk = fpBTCPK))
    (.errorf "the given finality provider's PK is not found in the BTC delegation")

/-- The steps before the secret key becomes a decryption key. -/
def prepareSlashingTx (d : BTCDelegation) (p : Params) (fpSK : ZMod B.curve.n) (info : OutputInfo)
    (covSigs : List CovenantAdaptorSignatures) :
    Result (SpendInfo × List (Option (AdaptorSignature B.curve))) := do
  let slashingSpendInfo ← Result.wrap (info.slashingPathSpendInfo B)
    (.errorf "could not get slashing spend info: %v")
  let fpIdx ← d.findFPIdx (pubKeyOf B fpSK)
  let covAdaptorSigs ← Result.wrap (getOrderedCovenantSignatures B fpIdx covSigs p)
    (.errorf "failed to get ordered covenant adaptor signatures: %w")
  pure (slashingSpendInfo,covAdaptorSigs)

def completeSlashingTx (d : BTCDelegation) (p : Params) (fpSK : ZMod B.curve.n) (info : OutputInfo)
    (fundingTx : MsgTx) (outputIdx : Nat) (slashingTx : MsgTx) (delegatorSig : Bytes)
    (covSigs : List CovenantAdaptorSignatures) : Result MsgTx := do
  let (slashingSpendInfo,covAdaptorSigs) ← d.prepareSlashingTx B p fpSK info covSigs
  Result.wrap (BtcStaking.buildSlashingTxWithWitness B slashingTx fpSK d.fpBtcPkList
    fundingTx outputIdx
    delegatorSig covAdaptorSigs p.covenantQuorum slashingSpendInfo)
    (.errorf "failed to build witness for BTC delegation of %s under finality provider %s: %v")

def buildSlashingTxWithWitness (d : BTCDelegation) (p : Params) (fpSK : ZMod B.curve.n) :
    Result MsgTx := do
  let stakingInfo ← Result.wrap (d.getStakingInfo B p)
      (.errorf "could not create BTC staking info: %v")
  d.completeSlashingTx B p fpSK stakingInfo d.stakingTx d.stakingOutputIdx
    d.slashingTx d.delegatorSig d.covenantSigs

def buildUnbondingSlashingTxWithWitness (d : BTCDelegation) (p : Params) (fpSK : ZMod B.curve.n) :
    Result MsgTx := do
  let unbondingInfo ← Result.wrap (d.getUnbondingInfo B p)
    (.errorf "could not create BTC unbonding info: %v")
  d.completeSlashingTx B p fpSK unbondingInfo d.btcUndelegation.unbondingTx 0
    d.btcUndelegation.slashingTx
    d.btcUndelegation.delegatorSlashingSig d.btcUndelegation.covenantSlashingSigs

/-! The checks of `AddCovenantSigs`. -/

def parseCovSlashingSigs (d : BTCDelegation) (p : Params) (pk : BIP340PubKey) (sigs : List Bytes) :
    Result (List (AdaptorSignature B.curve)) := do
  let stakingInfo ← d.getStakingInfo B p
  let slashingSpendInfo ← stakingInfo.slashingPathSpendInfo B
  parseEncVerifyAdaptorSignatures B d.slashingTx stakingInfo.output
    slashingSpendInfo.revealedLeaf pk d.fpBtcPkList sigs

def verifyCovUnbondingSig (d : BTCDelegation) (p : Params) (pk : BIP340PubKey) (sig : Bytes) :
    Result Unit := do
  let stakingInfo ← d.getStakingInfo B p
  let unbondingSpendInfo ← stakingInfo.unbondingPathSpendInfo B
  verifyTransactionSigWithOutput B d.btcUndelegation.unbondingTx stakingInfo.output
    unbondingSpendInfo.revealedLeaf pk sig

def parseCovUnbondingSlashingSigs (d : BTCDelegation) (p : Params) (pk : BIP340PubKey)
    (sigs : List Bytes) : Result (List (AdaptorSignature B.curve)) := do
  let unbondingOutput ← orFail d.btcUndelegation.unbondingTx.txOut[0]? .outOfRange
  let unbondingInfo ← d.getUnbondingInfo B p
  let slashingSpendInfo ← unbondingInfo.slashingPathSpendInfo B
  parseEncVerifyAdaptorSignatures B d.btcUndelegation.slashingTx unbondingOutput
    slashingSpendInfo.revealedLeaf pk d.fpBtcPkList sigs

def verifyStkExpSig (d prevDel : BTCDelegation) (prevParams : Params)
    (pk : BIP340PubKey) (sig : Bytes) : Result Unit := do
  let e ← orFail d.stkExp .nilPointer
  let prevStakingInfo ← prevDel.getStakingInfo B prevParams
  let prevUnbondingSpendInfo ← prevStakingInfo.unbondingPathSpendInfo B
  let prevOut ← orFail prevDel.stakingTx.txOut[prevDel.stakingOutputIdx]? .outOfRange
  verifyTransactionSigStkExp B d.stakingTx prevOut e.otherFundingTxOut
    prevUnbondingSpendInfo.revealedLeaf pk sig

end BTCDelegation

variable (B : Bitcoin)

/-- The output of `MustGetCovenantPks` and a builder. -/
def builtOutput (p : Params) (info : Result OutputInfo) : Option TxOut :=
  if ∀ pk ∈ p.covenantPks, validPubKey B pk = true then info.toOption.map
    OutputInfo.output else none

/-- The slashing leaf is the same in the trees of the staking and of the unbonding output. -/
def verifyDelegatorSlashingSig (tx : MsgTx) (out : TxOut)
    (pm : ParsedCreateDelegationMessage) (p : Params) (sig : Bytes) : Result Unit := do
  let paths ← newAnonScriptPaths B pm.stakerPK pm.finalityProviderKeys p.covenantPks
      p.covenantQuorum
    pm.unbondingTime
  verifyTransactionSigWithOutput B tx out paths.slashingPathScript pm.stakerPK sig

def Env.withScripts (E : Env) : Env :=
  { E with
    btc := B.btc
    validPubKey := BtcStaking.validPubKey B
    stakingOutput := fun stakerPk fpPks p stakingTime value => builtOutput B p
      (buildStakingInfo B stakerPk fpPks p.covenantPks p.covenantQuorum stakingTime value)
    unbondingOutput := fun stakerPk fpPks p unbondingTime value => builtOutput B p
      (buildUnbondingInfo B stakerPk fpPks p.covenantPks p.covenantQuorum unbondingTime value)
    slashingTxMatchesFundingTx := fun slashingTx fundingTx idx p stakerPk lockTime =>
      (checkSlashingTxMatchFundingTx B slashingTx fundingTx idx p.minSlashingTxFeeSat p.slashingRate
        p.slashingPkScript stakerPk lockTime).isOk
    delegatorSlashingSigValid :=
      fun tx out pm p sig => (verifyDelegatorSlashingSig B tx out pm p sig).isOk
    preSignedUnbondingTxSane := fun tx => (checkPreSignedUnbondingTxSanity B tx).isOk
    parseCovSlashingSigs := fun d p pk sigs =>
      (d.parseCovSlashingSigs B p pk sigs).toOption.map (List.map AdaptorSignature.marshal)
    covUnbondingSigValid := fun d p pk sig => (d.verifyCovUnbondingSig B p pk sig).isOk
    parseCovUnbondingSlashingSigs := fun d p pk sigs =>
      (d.parseCovUnbondingSlashingSigs B p pk sigs).toOption.map (List.map AdaptorSignature.marshal)
    stkExpSigValid := fun d prevDel prevParams pk sig =>
      (d.verifyStkExpSig B prevDel prevParams pk sig).isOk
    pubKeyOfSk := fun b => pubKeyOf B (readBE b : ZMod B.curve.n) }

end AnonChain.BtcStaking
