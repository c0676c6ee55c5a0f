import AnonChain.StakingLib.Scripts

/-! The checks on pre-signed transactions, the signatures on them and the slashing witness. -/

namespace AnonChain.StakingLib

open Lib BtcLightClient Adaptor

variable (B : Bitcoin)

/-- Between zero and one, written with eighteen decimals, with at most four decimal places. -/
def isSlashingRateValid (rate : Int) : Bool :=
  0 < rate ∧ rate < 10^18 ∧ rate*10000%10^18 = 0

def maxTxVersion : Nat := 2

def checkPreSignedTxSanity (tx : MsgTx) (numInputs numOutputs minTxVersion maxTxVersion : Nat) :
    Result Unit := do
  ensure (B.checkTransactionSanity tx = true) (.errorf "btc transaction do not obey BTC rules: %w")
  ensure (tx.txIn.length = numInputs) (.errorf "tx must have exactly %d inputs")
  ensure (tx.txOut.length = numOutputs) (.errorf "tx must have exactly %d outputs")
  ensure (tx.lockTime = 0) (.errorf "pre-signed tx must not have locktime")
  ensure (B.preSignedFields tx minTxVersion maxTxVersion = true)
    (.errorf "tx version must be between %d and %d")

def checkPreSignedUnbondingTxSanity (tx : MsgTx) : Result Unit :=
  checkPreSignedTxSanity B tx 1 1 maxTxVersion maxTxVersion

def checkPreSignedSlashingTxSanity (tx : MsgTx) : Result Unit :=
  checkPreSignedTxSanity B tx 1 2 1 maxTxVersion

def opReturn : Byte := 106

def isOPReturn (script : Bytes) : Bool := script.head? = some opReturn

def validateSlashingTx (slashingTx : MsgTx) (slashingPkScript : Bytes) (slashingRate : Int)
    (slashingTxMinFee stakingOutputValue : Int) (stakerPk : BIP340PubKey)
    (slashingChangeLockTime : Nat) : Result Unit := do
  Result.wrap (checkPreSignedSlashingTxSanity B slashingTx) (.errorf "invalid slashing tx: %w")
  let out₀ ← orFail slashingTx.txOut[0]? .outOfRange
  let out₁ ← orFail slashingTx.txOut[1]? .outOfRange
  ensure (B.mulRate stakingOutputValue slashingRate ≤ out₀.value)
    (.errorf "slashing transaction must slash at least staking output value * slashing rate")
  ensure (out₀.pkScript = slashingPkScript)
    (.errorf "slashing transaction must pay to the provided slashing address")
  let changePkScript ← Result.wrap (buildRelativeTimelockTaprootScript B stakerPk
      slashingChangeLockTime)
    (.errorf "error creating change timelock script: %w")
  ensure (out₁.pkScript = changePkScript)
    (.errorf "invalid slashing tx change output pkscript, expected: %s, got: %s")
  ensure (∀ out ∈ slashingTx.txOut, isOPReturn out.pkScript = true ∨ B.isDust out = false)
    (.errorf "transaction contains a dust output")
  ensure (0 < out₀.value ∧ 0 < stakingOutputValue)
    (.errorf "values of slashing and staking transaction must be larger than 0")
  let slashingTxOutSum := (slashingTx.txOut.map TxOut.value).sum
  ensure (slashingTxOutSum < stakingOutputValue)
    (.errorf "slashing transaction must not spend more than staking transaction")
  ensure (slashingTxMinFee ≤ stakingOutputValue-slashingTxOutSum)
    (.errorf "slashing transaction fee must be larger than %d")

def checkSlashingTxMatchFundingTx (slashingTx fundingTx : MsgTx) (fundingOutputIdx : Nat)
    (slashingTxMinFee slashingRate : Int) (slashingPkScript : Bytes) (stakerPk : BIP340PubKey)
    (slashingChangeLockTime : Nat) : Result Unit := do
  ensure (B.checkTransactionSanity fundingTx = true)
    (.errorf "funding transaction does not obey BTC rules: %w")
  ensure (0 < slashingTxMinFee) (.errorf "slashing transaction min fee must be larger than 0")
  ensure (isSlashingRateValid slashingRate = true) (.errorf "invalid slashing rate")
  let stakingOutput ← orFail fundingTx.txOut[fundingOutputIdx]?
    (.errorf "invalid funding output index %d, tx has %d outputs")
  validateSlashingTx B slashingTx slashingPkScript slashingRate slashingTxMinFee stakingOutput.value
    stakerPk slashingChangeLockTime
  let in₀ ← orFail slashingTx.txIn[0]? .outOfRange
  ensure (in₀.previousOutPoint.hash = B.btc.txHash fundingTx)
    (.errorf "slashing transaction must spend staking output")
  ensure (in₀.previousOutPoint.index = fundingOutputIdx)
    (.errorf "slashing transaction input must spend staking output")

def withoutWitness (tx : MsgTx) : MsgTx :=
  { tx with txIn := tx.txIn.map (fun i => { i with witness := [] }) }

/-- The outputs spent are given in the order of the inputs. -/
def calcTapscriptSignaturehash (tx : MsgTx) (idx : Nat) (prevOuts : List TxOut)
    (leaf : Script) : Bytes :=
  B.tapscriptSigHash (withoutWitness tx) idx prevOuts leaf

def checkTxBeforeSigning (txToSign fundingTx : MsgTx) (fundingOutputIdx : Nat) : Result Unit := do
  ensure (txToSign.txIn.length = 1) (.errorf "tx to sign must have exactly one input")
  ensure (fundingOutputIdx < fundingTx.txOut.length)
    (.errorf "invalid funding output index %d, tx has %d outputs")
  let in₀ ← orFail txToSign.txIn[0]? .outOfRange
  ensure (in₀.previousOutPoint.hash = B.btc.txHash fundingTx)
    (.errorf "txToSign must input point to fundingTx")
  ensure (in₀.previousOutPoint.index = fundingOutputIdx)
    (.errorf "txToSign inpunt index must point to output with provided script")

def signHash (hash : Bytes) (privKey : ZMod B.curve.n) : Result (Signature B.curve) :=
  sign B.curve B.hashes privKey (B.nonce privKey hash) hash

def signTxWithOneScriptSpendInputFromScript (txToSign : MsgTx) (fundingOutput : TxOut)
    (privKey : ZMod B.curve.n) (script : Script) : Result (Signature B.curve) := do
  ensure (txToSign.txIn.length = 1) (.errorf "tx to sign must have exactly one input")
  signHash B (calcTapscriptSignaturehash B txToSign 0 [fundingOutput] script) privKey

def signTxWithOneScriptSpendInputStrict (txToSign fundingTx : MsgTx) (fundingOutputIdx : Nat)
    (signedScriptPath : Script) (privKey : ZMod B.curve.n) : Result (Signature B.curve) := do
  Result.wrap (checkTxBeforeSigning B txToSign fundingTx fundingOutputIdx)
    (.errorf "invalid tx: %w")
  let fundingOutput ← orFail fundingTx.txOut[fundingOutputIdx]? .outOfRange
  signTxWithOneScriptSpendInputFromScript B txToSign fundingOutput privKey signedScriptPath

def encSignTxWithOneScriptSpendInputStrict (txToSign fundingTx : MsgTx) (fundingOutputIdx : Nat)
    (signedScriptPath : Script) (privKey nonce : ZMod B.curve.n) (encKey : B.curve.Point) :
    Result (AdaptorSignature B.curve) := do
  Result.wrap (checkTxBeforeSigning B txToSign fundingTx fundingOutputIdx)
    (.errorf "invalid tx: %w")
  let fundingOutput ← orFail fundingTx.txOut[fundingOutputIdx]? .outOfRange
  encSign B.curve B.hashes privKey nonce encKey
    (calcTapscriptSignaturehash B txToSign 0 [fundingOutput] signedScriptPath)

/-- The outputs spent by two inputs, as the map from outpoints to outputs gives them: an outpoint
named twice keeps the second output. -/
def twoPrevOuts (in₀ in₁ : TxIn) (out₀ out₁ : TxOut) : List TxOut :=
  if in₀.previousOutPoint = in₁.previousOutPoint then [out₁,out₁] else [out₀,out₁]

def verifySignature (hash : Bytes) (pubKey : BIP340PubKey) (signature : Bytes) : Result Unit := do
  let parsedSig ← orFail (parseSignature B.curve signature) (.errorf "invalid signature")
  ensure (parsedSig.verify B.hashes hash pubKey = true) (.errorf "signature is not valid")

def verifyTransactionSigWithOutput (tx : MsgTx) (fundingOutput : TxOut) (script : Script)
    (pubKey : BIP340PubKey) (signature : Bytes) : Result Unit := do
  ensure (tx.txIn.length = 1) (.errorf "tx to sign must have exactly one input")
  verifySignature B (calcTapscriptSignaturehash B tx 0 [fundingOutput] script) pubKey signature

def verifyTransactionSigStkExp (tx : MsgTx) (out₀ out₁ : TxOut) (script : Script)
    (pubKey : BIP340PubKey) (signature : Bytes) : Result Unit := do
  ensure (tx.txIn.length = 2) (.errorf "stake spend tx must have exactly two inputs")
  let in₀ ← orFail tx.txIn[0]? .outOfRange
  let in₁ ← orFail tx.txIn[1]? .outOfRange
  verifySignature B (calcTapscriptSignaturehash B tx 0
    (twoPrevOuts in₀ in₁ out₀ out₁) script) pubKey
    signature

def encVerifyTransactionSigWithOutput (tx : MsgTx) (fundingOut : TxOut) (script : Script)
    (pubKey : BIP340PubKey) (encKey : B.curve.Point) (signature : AdaptorSignature B.curve) :
    Result Unit := do
  ensure (tx.txIn.length = 1) (.errorf "tx to sign must have exactly one input")
  signature.encVerify B.hashes pubKey encKey (calcTapscriptSignaturehash B tx 0 [fundingOut] script)

def createWitness (si : SpendInfo) (signatures : List Bytes) : List Bytes :=
  signatures ++ [B.scriptBytes si.revealedLeaf,si.controlBlock]

def witnessElement {C : Secp256k1} : Option (Signature C) → Bytes
  | none => []
  | some sig => sig.serialize

def createSlashingPathWitness (si : SpendInfo)
    (covenantSigs fpSigs : List (Option (Signature B.curve)))
    (delegatorSig : Signature B.curve) : Result (List Bytes) := do
  ensure (covenantSigs ≠ []) (.errorf "covenant signatures should not be empty")
  ensure (fpSigs ≠ []) (.errorf "finality provider signatures should not be empty")
  pure (createWitness B si (covenantSigs.map witnessElement ++ fpSigs.map witnessElement ++
    [delegatorSig.serialize]))

/-- The validity of a signature on a transaction that spends one output through a leaf. -/
def validSig (hash : Bytes) (pk : BIP340PubKey) (sig : Bytes) : Bool :=
  match parseSignature B.curve sig with
  | none => false
  | some s => s.verify B.hashes hash pk

/-- The elements of a witness below the script and the control block, the last one on top. -/
def initialStack (witness : List Bytes) : List (Tapscript.Elem BIP340PubKey Bytes) :=
  (witness.dropLast.dropLast.reverse).map (fun b => .sig (if b = [] then none else some b))

def leafAccepts (tx : MsgTx) (fundingOut : TxOut) (leaf : Script) (age : Nat) : Bool :=
  match tx.txIn with
  | [i] =>
    Tapscript.succeeds (validSig B (calcTapscriptSignaturehash B tx 0 [fundingOut] leaf)) age leaf
      (initialStack i.witness)
  | _ => false

end AnonChain.StakingLib
