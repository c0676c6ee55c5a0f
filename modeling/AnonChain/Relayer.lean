import AnonChain.BtcLightClient
import AnonChain.BtcTxFormatter
import AnonChain.Lib.Run

/-! The relayer sends a checkpoint as two transactions, the second spends the first's change. -/

namespace AnonChain.Relayer

open Lib BtcTxFormatter
open BtcLightClient (MsgTx)

/-- The format of the payloads, the transaction library, and the sealed checkpoint of every epoch as
it is converted for Bitcoin. -/
structure Config where
  sha256 : Bytes → Bytes
  tag : Bytes
  version : Nat
  txHash : MsgTx → Hash
  dataScript : Bytes → Result Bytes
  rawCkpt : Nat → Result RawBtcCheckpoint

def Config.encodeCheckpointData (C : Config) (epoch : Nat) : Result (Bytes × Bytes) := do
  let btcCkpt ← C.rawCkpt epoch
  BtcTxFormatter.encodeCheckpointData C.sha256 C.tag C.version btcCkpt

/-- What the wallet leaves alone: the first output and every input. -/
structure Extends (tx tx' : MsgTx) : Prop where
  head : tx'.txOut.head? = tx.txOut.head?
  length : tx.txOut.length ≤ tx'.txOut.length
  inputs : ∀ i ∈ tx.txIn, ∃ i' ∈ tx'.txIn, i'.previousOutPoint = i.previousOutPoint

inductive Lookup where
  | known
  | missing
  | failed (err : Failure)

inductive Sending where
  | accepted
  | alreadyInChain (err : Failure)
  | rejected (err : Failure)

/-- The answers of the Bitcoin node, its wallet and the database during one call. Funding and
signing add to a transaction. -/
structure Node where
  fundRawTransaction : MsgTx → Result MsgTx
  changePkScript : Result Bytes
  changeAddress : Bytes → Result Unit
  signTx : MsgTx → Result MsgTx
  getRawTransaction : MsgTx → Lookup
  sendRawTransaction : MsgTx → Sending
  readStore : Result Unit
  putCheckpoint : Result Unit
  fund_extends : ∀ tx tx', fundRawTransaction tx = .ok tx' → Extends tx tx'
  sign_extends : ∀ tx tx', signTx tx = .ok tx' → Extends tx tx'

structure CheckpointInfo where
  epoch : Nat
  tx1 : Option MsgTx
  tx2 : Option MsgTx

structure StoredCheckpoint where
  tx1 : MsgTx
  tx2 : MsgTx
  epoch : Nat

/-- The relayer with its store, and for the statements the epoch of the last call and the first
transactions the node accepted since the process started. -/
structure State where
  lastSubmittedCheckpoint : CheckpointInfo
  store : Option StoredCheckpoint
  epoch : Nat
  sent : List (Nat × MsgTx)

def changePosition : Nat := 1
def dustThreshold : Int := 546

def CheckpointInfo.empty : CheckpointInfo := ⟨0,none,none⟩

def CheckpointInfo.shouldSendCompleteCkpt (c : CheckpointInfo) (ckptEpoch : Nat) : Bool :=
  c.tx1 == none || c.epoch < ckptEpoch

def CheckpointInfo.shouldSendTx2 (c : CheckpointInfo) (ckptEpoch : Nat) : Bool :=
  (c.tx1 != none || c.epoch < ckptEpoch) && c.tx2 == none

section

variable (C : Config) (n : Node) (s : State)

def finalizeTransaction (tx : MsgTx) : Result MsgTx := do
  match tx.txOut[changePosition]? with
  | none => pure ()
  | some out => n.changeAddress out.pkScript
  (n.signTx tx).wrap (.errorf "failed to sign tx: %w")

def buildDataTx (data : Bytes) : Result MsgTx := do
  let script ← (C.dataScript data).wrap (.errorf "failed to build data script: %w")
  let funded ← (n.fundRawTransaction ⟨[],[⟨0,script⟩],0⟩).wrap
    (.errorf "failed to fund raw tx in buildDataTx: %w")
  if changePosition < funded.txOut.length then finalizeTransaction n funded
  else do
    let change ← n.changePkScript
    let refunded ← (n.fundRawTransaction
      { funded with txOut := funded.txOut ++ [⟨dustThreshold,change⟩] }).wrap
      (.errorf "failed to fund raw tx after nochange: %w")
    finalizeTransaction n refunded

def buildChainedDataTx (data : Bytes) (prevTx : MsgTx) : Result MsgTx := do
  let script ← (C.dataScript data).wrap (.errorf "failed to build data script: %w")
  let funded ← (n.fundRawTransaction ⟨[⟨⟨C.txHash prevTx,changePosition⟩,[]⟩],[⟨0,script⟩],0⟩).wrap
    (.errorf "failed to fund raw tx in buildChainedDataTx: %w")
  finalizeTransaction n funded

def sendTxToBTC (tx : MsgTx) : Result Unit :=
  match n.sendRawTransaction tx with
  | .accepted => .ok ()
  | .alreadyInChain err | .rejected err => .error err

def buildAndSendTx (built : Result MsgTx) : Result MsgTx := do
  let tx ← built.wrap (.errorf "failed to add data to tx: %w")
  (sendTxToBTC n tx).wrap (.errorf "failed to send tx to BTC: %w")
  pure tx

def sendFirst (data1 : Bytes) : Result MsgTx := buildAndSendTx n (buildDataTx C n data1)

def sendSecond (data2 : Bytes) (tx1 : MsgTx) : Result MsgTx :=
  buildAndSendTx n (buildChainedDataTx C n data2 tx1)

/-- Whether the transaction had to be sent again. -/
def maybeResendFunc (tx : MsgTx) : Result Bool :=
  match n.getRawTransaction tx with
  | .known => .ok false
  | .failed err => .error err
  | .missing =>
    match n.sendRawTransaction tx with
    | .accepted => .ok true
    | .alreadyInChain _ => .ok false
    | .rejected err => .error err

def maybeResendFromStore (epoch : Nat) : Result Bool × State :=
  match n.readStore, s.store with
  | .error err, _ => (.error err,s)
  | .ok _, none => (.ok false,s)
  | .ok _, some stored =>
    if stored.epoch ≠ epoch then (.ok false,s)
    else
      match maybeResendFunc n stored.tx1 with
      | .error err => (.error err,s)
      | .ok again =>
        ((maybeResendFunc n stored.tx2).map fun _ => true,
          { s with sent := if again then s.sent ++ [(epoch,stored.tx1)] else s.sent })

/-- The pair is remembered before it is stored, and also when storing it fails. -/
def storeCkpt (epoch : Nat) (tx1 tx2 : MsgTx) : Result Unit × State :=
  (n.putCheckpoint,
    { s with
      lastSubmittedCheckpoint := ⟨epoch,some tx1,some tx2⟩
      store := if n.putCheckpoint.isOk then some ⟨tx1,tx2,epoch⟩ else s.store })

/-- An accepted first transaction goes into the remembered checkpoint, whose epoch stays. -/
def convertCkptToTwoTxAndSubmit (epoch : Nat) : Result Unit × State :=
  match C.encodeCheckpointData epoch with
  | .error err => (.error err,s)
  | .ok (data1,data2) =>
    match sendFirst C n data1 with
    | .error err => (.error err,s)
    | .ok tx1 =>
      let s' := { s with
        lastSubmittedCheckpoint := { s.lastSubmittedCheckpoint with tx1 := some tx1 }
        sent := s.sent ++ [(epoch,tx1)] }
      match sendSecond C n data2 tx1 with
      | .error err => (.error err,s')
      | .ok tx2 => storeCkpt n s' epoch tx1 tx2

def retrySendTx2 (epoch : Nat) : Result Unit × State :=
  match C.encodeCheckpointData epoch, s.lastSubmittedCheckpoint.tx1 with
  | .error err, _ => (.error err,s)
  | .ok _, none => (.error (.errorf "tx1 is nil"),s)
  | .ok (_,data2), some tx1 =>
    match sendSecond C n data2 tx1 with
    | .error err => (.error err,s)
    | .ok tx2 => storeCkpt n s epoch tx1 tx2

def sendCheckpointToBTC (epoch : Nat) : Result Unit × State :=
  let complete := s.lastSubmittedCheckpoint.shouldSendCompleteCkpt epoch
  let second := s.lastSubmittedCheckpoint.shouldSendTx2 epoch
  match if complete || second then maybeResendFromStore n s epoch else (.ok false,s) with
  | (.error err,s) => (.error err,s)
  | (.ok true,s) => (.ok (),s)
  | (.ok false,s) =>
    if complete then convertCkptToTwoTxAndSubmit C n s epoch
    else if second then retrySendTx2 C n s epoch
    else (.ok (),s)

end

inductive Action where
  | send (epoch : Nat) (n : Node)
  | restart

/-- Every run of the calls, over any number of restarts: a new process has only the store. -/
def relayer (C : Config) : System State Action where
  init s := s = ⟨.empty,none,0,[]⟩
  step s a s' := match a with
    | .send epoch n =>
      s.epoch ≤ epoch ∧ s' = (sendCheckpointToBTC C n { s with epoch := epoch } epoch).2
    | .restart => s' = { s with lastSubmittedCheckpoint := .empty, sent := [] }

end AnonChain.Relayer
