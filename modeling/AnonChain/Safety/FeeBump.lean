import AnonChain.Relayer

/-! The fee of a replacement, and the remembered transaction. Floats are rationals here. -/

namespace AnonChain.Relayer

open Lib
open BtcLightClient (MsgTx TxOut OutPoint)

structure BtcTxInfo where
  tx : MsgTx
  txID : Hash
  size : Int
  fee : Int
  deriving DecidableEq

structure MempoolEntry where
  fee : ℚ
  descendantFees : ℚ
  descendantSize : Int
  descendantCount : Int

inductive FeeError where
  | ErrInsufficientFee
  | ErrInsufficientFeerate
  | ErrFeeIncrementTooSmall
  | other (err : Failure)

inductive TxStatus where
  | TxNotFound
  | TxInMempool
  | TxInChain

/-- The margins, and the multiplication of amounts: any function monotone in the amount that does
not decrease it for factors of at least one. -/
structure FeeConfig where
  resubmitFeeMultiplier : ℚ
  insufficientFeeMargin : ℚ
  insufficientFeerateMargin : ℚ
  feeIncrementMargin : ℚ
  mulF64 : Int → ℚ → Int
  mulF64_mono : ∀ a b q, 0 ≤ q → a ≤ b → mulF64 a q ≤ mulF64 b q
  le_mulF64 : ∀ a q, 0 ≤ a → 1 ≤ q → a ≤ mulF64 a q

/-- The answers of the node and its wallet during one call. A signature changes no amount. -/
structure FeeNode where
  feeRate : Int
  getMempoolEntry : Hash → Result MempoolEntry
  getIncrementalRelayFeerate : Result Int
  txHash : MsgTx → Hash
  txDetails : Hash → Bytes → Result TxStatus
  fundRawTransaction : MsgTx → ℚ → Result (MsgTx × Int)
  calculateTxVirtualSize : MsgTx → Result Int
  signTx : MsgTx → Result MsgTx
  sendTxToBTC : MsgTx → Result Hash
  sign_keeps : ∀ tx tx', signTx tx = .ok tx' → tx'.txOut = tx.txOut ∧
    tx'.txIn.map (fun i => i.previousOutPoint) = tx.txIn.map (fun i => i.previousOutPoint)

/-- An amount made from a floating point number is cut off. -/
def amount (x : ℚ) : Int := x.num.tdiv x.den

section

variable (C : FeeConfig) (n : FeeNode)

def requiredFee (tx2 : BtcTxInfo) : Int := n.feeRate.tdiv 1000*tx2.size

def feeTarget (entry : MempoolEntry) : Int :=
  C.mulF64 (amount entry.descendantFees) (1+C.insufficientFeeMargin)

def adjustFeeForInsufficientFee (entry : MempoolEntry) (bumpedFee : Int) : Int :=
  let newFee := feeTarget C entry
  if bumpedFee < newFee then newFee else bumpedFee

def incrementTarget (entry : MempoolEntry) (tx2 : BtcTxInfo) (incrementalFeerate : Int) : Int :=
  (if entry.fee ≠ 0 then amount entry.fee else tx2.fee)+
    C.mulF64 (incrementalFeerate*tx2.size) (1+C.feeIncrementMargin)

def adjustFeeForIncrementTooSmall (entry : MempoolEntry) (bumpedFee requiredFee : Int)
    (tx2 : BtcTxInfo) : Int :=
  match n.getIncrementalRelayFeerate with
  | .error _ => bumpedFee
  | .ok rate => if bumpedFee < incrementTarget C entry tx2 rate then requiredFee else bumpedFee

def feerateTarget (entry : MempoolEntry) (txSize : Int) : Int :=
  amount ((amount entry.descendantFees :
    ℚ)/entry.descendantSize*(1+C.insufficientFeerateMargin)*txSize)

def adjustFeeForInsufficientFeerate (entry : MempoolEntry) (bumpedFee requiredFee txSize : Int) :
    Int :=
  if bumpedFee < feerateTarget C entry txSize then requiredFee else bumpedFee

def adjustFee (entry : MempoolEntry) (bumpedFee requiredFee : Int)
    (tx2 : BtcTxInfo) : FeeError → Int
  | .ErrInsufficientFee => adjustFeeForInsufficientFee C entry bumpedFee
  | .ErrInsufficientFeerate =>
    adjustFeeForInsufficientFeerate C entry bumpedFee requiredFee tx2.size
  | .ErrFeeIncrementTooSmall => adjustFeeForIncrementTooSmall C n entry bumpedFee requiredFee tx2
  | .other _ => bumpedFee

def calculateBumpedFee (ckptTx2 : Option BtcTxInfo) (previousFailure : Option FeeError) :
    Result Int := do
  let tx2 ← orFail ckptTx2 (.errorf "checkpoint info or Tx2 is nil")
  let requiredFee := requiredFee n tx2
  let bumpedFee := C.mulF64 tx2.fee C.resubmitFeeMultiplier
  match previousFailure with
  | none | some (.other _) => pure (max bumpedFee requiredFee)
  | some failure =>
    let entry ← (n.getMempoolEntry tx2.txID).wrap (.errorf "failed to get mempool entry for %s: %w")
    pure (max (adjustFee C n entry bumpedFee requiredFee tx2 failure) requiredFee)

end

section

variable {C : FeeConfig} {n : FeeNode} {tx2 : BtcTxInfo} {entry : MempoolEntry}

/-- The fee the rule for a rejection computes from the mempool entry. -/
def ruleFee (C : FeeConfig) (n : FeeNode) (tx2 : BtcTxInfo) (entry : MempoolEntry) :
    FeeError → Option Int
  | .ErrInsufficientFee => some (feeTarget C entry)
  | .ErrInsufficientFeerate => some (feerateTarget C entry tx2.size)
  | .ErrFeeIncrementTooSmall =>
    n.getIncrementalRelayFeerate.toOption.map (incrementTarget C entry tx2)
  | .other _ => none

theorem calculateBumpedFee_rejected (he : n.getMempoolEntry tx2.txID = .ok entry)
    (failure : FeeError) :
    calculateBumpedFee C n (some tx2) (some failure) = .ok (max (adjustFee C n entry
      (C.mulF64 tx2.fee C.resubmitFeeMultiplier) (requiredFee n tx2) tx2 failure)
        (requiredFee n tx2)) := by
  cases failure <;> simp only [calculateBumpedFee,orFail,ok_bind,he,Result.wrap] <;> rfl

/-- Two of the rejections replace the fee of the rule by the required fee, so the offer is at least
both only if the rule asks for no more than before. -/
theorem rejection_raises_offer (hentry : n.getMempoolEntry tx2.txID = .ok entry)
    (failure : FeeError) : ∃ fee base, calculateBumpedFee C n (some tx2) (some failure) = .ok fee ∧
      calculateBumpedFee C n (some tx2) none = .ok base ∧
      ((base ≤ fee ∧ ∀ target ∈ ruleFee C n tx2 entry failure, target ≤ fee) ↔
        failure = .ErrInsufficientFee ∨ ∀ target ∈ ruleFee C n tx2 entry failure,
          target ≤ max (C.mulF64 tx2.fee C.resubmitFeeMultiplier) (requiredFee n tx2)) := by
  refine ⟨_,_,calculateBumpedFee_rejected hentry failure,rfl,?_⟩
  cases failure with
  | ErrInsufficientFee =>
    simp only [ruleFee,adjustFee,adjustFeeForInsufficientFee,Option.mem_some_iff,forall_eq',
      true_or,iff_true]
    split <;> omega
  | ErrInsufficientFeerate =>
    simp only [ruleFee,adjustFee,adjustFeeForInsufficientFeerate,Option.mem_some_iff,forall_eq',
      reduceCtorEq,false_or]
    split <;> omega
  | ErrFeeIncrementTooSmall =>
    cases hr : n.getIncrementalRelayFeerate with
    | error _ => simp [ruleFee,adjustFee,adjustFeeForIncrementTooSmall,hr,Except.toOption]
    | ok _ =>
      simp only [ruleFee,adjustFee,adjustFeeForIncrementTooSmall,hr,Except.toOption,Option.map_some,
        Option.mem_some_iff,forall_eq',reduceCtorEq,false_or]
      split <;> omega
  | other _ => simp [ruleFee,adjustFee]

end

namespace Regtest

def feeConfig : FeeConfig where
  resubmitFeeMultiplier := 3/2
  insufficientFeeMargin := 1/10
  insufficientFeerateMargin := 1/10
  feeIncrementMargin := 1/10
  mulF64 a q := ⌊a*q⌋
  mulF64_mono _ _ _ hq hab := Int.floor_mono (mul_le_mul_of_nonneg_right (Int.cast_le.mpr hab) hq)
  le_mulF64 _ _ ha hq := Int.le_floor.mpr (le_mul_of_one_le_right (Int.cast_nonneg ha) hq)

/-- A node where the transaction and its descendants pay the given fee. -/
def feeNode (descendantFees : ℚ) : FeeNode where
  feeRate := 1000
  getMempoolEntry _ := .ok ⟨0,descendantFees,200,1⟩
  getIncrementalRelayFeerate := .ok 1
  txHash _ := []
  txDetails _ _ := .ok .TxInMempool
  fundRawTransaction tx _ := .ok (tx,0)
  calculateTxVirtualSize _ := .ok 200
  signTx := .ok
  sendTxToBTC _ := .ok []
  sign_keeps := by
    rintro tx _ ⟨⟩
    exact ⟨rfl,rfl⟩

/-- Spends one output of 10000 and pays 1000. -/
def remembered : BtcTxInfo := ⟨⟨[⟨⟨[],0⟩,[]⟩],[⟨0,[]⟩,⟨9000,[]⟩],0⟩,[],200,1000⟩

end Regtest

open Relayer.Regtest in
/-- The rule asks for 2200 after 1500 was offered, and the next offer is 200. -/
theorem offer_lowered :
    (calculateBumpedFee feeConfig (feeNode 2000) (some remembered)
      (some .ErrInsufficientFeerate)).toOption =
      some 200 ∧
    (calculateBumpedFee feeConfig (feeNode 2000) (some remembered) none).toOption = some 1500 ∧
    feerateTarget feeConfig ⟨0,2000,200,1⟩ 200 = 2200 := by
  decide +kernel

open Relayer.Regtest in
theorem rejection_raises_offer_paid : ∃ fee base,
    calculateBumpedFee feeConfig (feeNode 1000) (some remembered) (some .ErrInsufficientFeerate) =
      .ok fee ∧
    calculateBumpedFee feeConfig (feeNode 1000) (some remembered) none = .ok base ∧ base ≤ fee := by
  obtain ⟨fee,base,hf,hb,hi⟩ :=
    @rejection_raises_offer feeConfig (feeNode 1000) remembered _ rfl .ErrInsufficientFeerate
  exact ⟨fee,base,hf,hb,(hi.mpr (.inr (by decide +kernel))).1⟩

section

variable (n : FeeNode) (value : OutPoint → Int) (tx2 : BtcTxInfo) (bumpedFee : Int)

/-- What the inputs of a transaction are worth over its outputs. -/
def paid (tx : MsgTx) : Int :=
  (tx.txIn.map fun i => value i.previousOutPoint).sum-(tx.txOut.map TxOut.value).sum

variable {n value tx2 bumpedFee} {change : TxOut}

end

end AnonChain.Relayer
