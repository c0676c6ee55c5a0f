import AnonChain.BtcLightClient
import AnonChain.Checkpointing

/-! Submissions of a checkpoint as two transactions with their inclusion proofs. -/

namespace AnonChain.BtcCheckpoint

open Lib BtcLightClient BtcTxFormatter

structure BTCSpvProof where
  btcTransaction : Bytes
  btcTransactionIndex : Nat
  merkleNodes : Bytes
  confirmingBtcHeader : BlockHeader

structure MsgInsertBTCSpvProof where
  submitter : Option AccAddress
  proofs : List BTCSpvProof

structure TransactionKey where
  index : Nat
  hash : Hash
  deriving DecidableEq

/-- Keys are stored by their bytes; the model orders them by their two fields. -/
instance : LinearOrder TransactionKey :=
  LinearOrder.lift' (fun k => toLex (k.index,k.hash)) (by
    intro a b h
    cases a
    cases b
    simpa using h)

abbrev SubmissionKey := List TransactionKey

structure TransactionInfo where
  key : TransactionKey
  transaction : Bytes
  proof : Bytes

structure SubmissionData where
  reporter : AccAddress
  submitter : Bytes
  txsInfo : List TransactionInfo
  epoch : Nat

inductive BtcStatus where
  | Submitted
  | Confirmed
  | Finalized
  deriving DecidableEq

def BtcStatus.toNat : BtcStatus → Nat
  | .Submitted => 0
  | .Confirmed => 1
  | .Finalized => 2

structure EpochData where
  keys : List SubmissionKey
  status : BtcStatus

def newEmptyEpochData : EpochData := ⟨[],.Submitted⟩

structure SubmissionBtcInfo where
  submissionKey : SubmissionKey
  oldestBlockDepth : Nat
  youngestBlockDepth : Nat
  youngestBlockHash : Hash
  youngestBlockLowestTxIdx : Nat

namespace SubmissionBtcInfo

def happenedAfter (submission parentEpochSubmission : SubmissionBtcInfo) : Bool :=
  decide (submission.oldestBlockDepth < parentEpochSubmission.youngestBlockDepth)

def submissionDepth (submission : SubmissionBtcInfo) : Nat := submission.youngestBlockDepth

def isBetterThan (newSubmission currentBestSubmission : SubmissionBtcInfo) : Bool :=
  if currentBestSubmission.submissionDepth < newSubmission.submissionDepth then true
  else if newSubmission.submissionDepth < currentBestSubmission.submissionDepth then false
  else decide
    (newSubmission.youngestBlockLowestTxIdx < currentBestSubmission.youngestBlockLowestTxIdx)

end SubmissionBtcInfo

/-- The checkpoint tag is kept as the bytes its hex text decodes to. -/
structure Params where
  btcConfirmationDepth : Nat
  checkpointFinalizationTimeout : Nat
  checkpointTag : Bytes

def Params.validate (p : Params) : Result Unit := do
  ensure (0 < p.btcConfirmationDepth) (.errorf "BtcConfirmationDepth must be positive: %d")
  ensure (0 < p.checkpointFinalizationTimeout)
    (.errorf "CheckpointFinalizationTimeout must be positive: %d")
  ensure (p.checkpointTag.length = tagLength)
    (.errorf "checkpoint tag should have exactly %d bytes")
  ensure (p.btcConfirmationDepth < p.checkpointFinalizationTimeout)
    (.errorf "BtcConfirmationDepth should be smaller than CheckpointFinalizationTimeout")

/-- What the module takes from the Bitcoin and the hash libraries, and the check of a raw
checkpoint against the validators of its epoch. -/
structure Env where
  btc : BtcLib
  parseTransaction : Bytes → Option MsgTx
  validateBTCHeader : BlockHeader → Bool
  isNullData : Bytes → Bool
  sha256 : Bytes → Bytes
  verifyRawCheckpoint : Checkpointing.RawCheckpoint → Bool
  authority : AccAddress

structure ParsedProof where
  blockHash : Hash
  transaction : MsgTx
  transactionBytes : Bytes
  transactionIdx : Nat
  opReturnData : Bytes

structure RawCheckpointSubmission where
  reporter : AccAddress
  proof1 : ParsedProof
  proof2 : ParsedProof
  checkpointData : RawBtcCheckpoint

variable (E : Env)

def opPushData1 : Byte := 0x4c

def opReturnPayload (script : Bytes) : Bytes :=
  if script.length = 1 then []
  else if script.getD 1 0 = opPushData1 then script.drop 3
  else script.drop 2

/-- The data of the outputs read so far and their number. -/
def extractStandardOpReturnData (tx : MsgTx) : Result Bytes := do
  let r ← tx.txOut.foldlM (fun (r : Bytes × Nat) output =>
    if E.isNullData output.pkScript = true then do
      ensure (r.2+1 ≤ 1) (.errorf "transaction has more than one OP_RETURN output")
      pure (r.1 ++ opReturnPayload output.pkScript,r.2+1)
    else pure r) ([],0)
  pure r.1

def parseProof (p : BTCSpvProof) : Result ParsedProof := do
  let tx ← orFail (E.parseTransaction p.btcTransaction) (.errorf "cannot parse the transaction")
  ensure (E.validateBTCHeader p.confirmingBtcHeader = true) (.errorf "invalid BTC header")
  ensure (verifyInclusionProof E.btc tx p.confirmingBtcHeader.merkleRoot p.merkleNodes
    p.btcTransactionIndex = true) (.errorf "header failed validation due to failed proof")
  let opReturnData ← extractStandardOpReturnData E tx
  ensure (opReturnData ≠ []) (.errorf "provided transaction should provide op return data")
  pure ⟨E.btc.blockHash p.confirmingBtcHeader,tx,p.btcTransaction,
    p.btcTransactionIndex,opReturnData⟩

def parseTwoProofs (submitter : AccAddress) (proofs : List BTCSpvProof) (expectedTag : Bytes) :
    Result RawCheckpointSubmission :=
  match proofs with
  | [p1,p2] => do
    let proof1 ← parseProof E p1
    let proof2 ← parseProof E p2
    let data1 ← getCheckpointData expectedTag currentVersion 0 proof1.opReturnData
    let data2 ← getCheckpointData expectedTag currentVersion 1 proof2.opReturnData
    let rawCkptData ← connectParts E.sha256 currentVersion data1 data2
    let rawCheckpoint ← decodeRawCheckpoint currentVersion rawCkptData
    pure ⟨submitter,proof1,proof2,rawCheckpoint⟩
  | _ => .error (.errorf "expected at exactly valid op return transactions")

def parseSubmission (m : MsgInsertBTCSpvProof) (expectedTag : Bytes) :
    Result RawCheckpointSubmission := do
  let address ← orFail m.submitter (.err .ErrInvalidAddress "invalid submitter address: %s")
  parseTwoProofs E address m.proofs expectedTag

def toTransactionKey (p : ParsedProof) : TransactionKey := ⟨p.transactionIdx,p.blockHash⟩

def RawCheckpointSubmission.getSubmissionKey (s : RawCheckpointSubmission) : SubmissionKey :=
  [toTransactionKey s.proof1,toTransactionKey s.proof2]

def RawCheckpointSubmission.getSubmissionData (s : RawCheckpointSubmission) (epochNum : Nat)
    (txsInfo : List TransactionInfo) : SubmissionData :=
  ⟨s.reporter,s.checkpointData.submitterAddress,txsInfo,epochNum⟩

end AnonChain.BtcCheckpoint
