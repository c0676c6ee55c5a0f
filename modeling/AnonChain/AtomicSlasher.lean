import AnonChain.BtcStaking.SlashingTx

/-! The atomic slasher: the secret key of a provider from the witness of a slashing transaction. -/

namespace AnonChain.AtomicSlasher

open Lib BtcLightClient StakingLib Adaptor BtcStaking

variable (B : Bitcoin)

def newBIP340Signature (data : Bytes) : Result Bytes := do
  ensure ((parseSignature B.curve data).isSome = true)
    (.errorf "bytes cannot be converted to a *schnorr.Signature object")
  pure data

structure ParsedWitness where
  covSigMap : KVStore BIP340PubKey Bytes
  fpIdx : Nat
  /-- Absent when no finality provider signed. -/
  fpPK : Option BIP340PubKey

def parseSlashingTxWitness (witnessStack : List Bytes) (covPKs fpPKs : List BIP340PubKey) :
    Result ParsedWitness := do
  let orderedCovPKs := sortBIP340PKs covPKs
  let orderedfpPKs := sortBIP340PKs fpPKs
  ensure (orderedCovPKs.length ≤ witnessStack.length) (.panic "slice bounds out of range")
  let covWitnessStack := witnessStack.take orderedCovPKs.length
  -- a position indexes the keys as they were given; the ordered lists only lend their lengths
  let covSigMap ← collect Prod.fst (fun x => newBIP340Signature B x.2)
    ((covPKs.zip covWitnessStack).filter (fun x => x.2 ≠ []))
  ensure (orderedCovPKs.length+orderedfpPKs.length ≤ witnessStack.length)
    (.panic "slice bounds out of range")
  let fpWitnessStack := (witnessStack.drop orderedCovPKs.length).take orderedfpPKs.length
  match fpWitnessStack.findIdx? (fun b => b ≠ []) with
  | some i => pure ⟨covSigMap,i,fpPKs[i]?⟩
  | none => pure ⟨covSigMap,0,none⟩

def tryExtractFPSK (covSigMap : KVStore BIP340PubKey Bytes) (fpIdx : Nat)
    (fpPK : Option BIP340PubKey) : List CovenantAdaptorSignatures → Result (ZMod B.curve.n)
  | [] => .error (.errorf "failed to extract finality provider's SK")
  | covASigList :: covASigLists =>
    match covSigMap.get covASigList.covPk with
    | none => tryExtractFPSK covSigMap fpIdx fpPK covASigLists
    | some covSchnorrSig => do
      let covSchnorrBTCSig ← orFail (parseSignature B.curve covSchnorrSig)
          (.errorf "invalid signature")
      let covAdaptorSigBytes ← orFail covASigList.adaptorSigs[fpIdx]? .outOfRange
      let covAdaptorSig ← newAdaptorSignatureFromBytes B.curve covAdaptorSigBytes
      let fpSK ← covAdaptorSig.extract covSchnorrBTCSig
      let pk ← orFail fpPK .nilPointer
      if pk = pubKeyOf B fpSK then pure fpSK else tryExtractFPSK covSigMap fpIdx fpPK covASigLists

def extractedFPSK (tx : MsgTx) (p : Params) (d : BTCDelegation)
    (covASigLists : List CovenantAdaptorSignatures) : Result (ZMod B.curve.n) := do
  let in₀ ← orFail tx.txIn[0]? .outOfRange
  let w ← parseSlashingTxWitness B in₀.witness p.covenantPks d.fpBtcPkList
  tryExtractFPSK B w.covSigMap w.fpIdx w.fpPK covASigLists

end AnonChain.AtomicSlasher
