import AnonChain.Lib.Channel
import AnonChain.Lib.Execution
import AnonChain.Monitor.Scanner

/-! The two loops of the monitor receive the confirmed blocks from the same channel. -/

namespace AnonChain.Monitor

open Lib

variable {N : Network}

instance [DecidableEq N.Header] : DecidableEq (IndexedBlock N) := fun a b =>
  decidable_of_iff (a.height = b.height ∧ a.header = b.header) (by
    cases a
    cases b
    rw [IndexedBlock.mk.injEq])

/-- What the scanner finds in a block, which depends on the segments it has found before. -/
structure Extractor (N : Network) where
  CheckpointRecord : Type
  tryToExtractCheckpoint : List (IndexedBlock N) → IndexedBlock N → Option CheckpointRecord

structure BufferSizes where
  btcBlockBufferSize : Nat
  checkpointBufferSize : Nat

namespace Loops

variable {X : Extractor N}

inductive ScannerPhase (X : Extractor N) where
  | select
  /-- A block was received and its header is to be sent. -/
  | sendHeader (block : IndexedBlock N)
  | extract (block : IndexedBlock N)
  | sendCheckpoint (ckpt : X.CheckpointRecord)

def ScannerPhase.found : Option X.CheckpointRecord → ScannerPhase X
  | some ckpt => .sendCheckpoint ckpt
  | none => .select

structure State (X : Extractor N) where
  confirmedBlocksChan : Channel (IndexedBlock N)
  blockHeaderChan : Channel N.Header
  checkpointsChan : Channel X.CheckpointRecord
  /-- The blocks the block event handler has found confirmed and not yet sent. -/
  sending : List (IndexedBlock N)
  scanner : ScannerPhase X
  /-- Every block that was found confirmed. -/
  confirmed : List (IndexedBlock N)
  /-- The blocks whose header the monitor has checked. -/
  checked : List (IndexedBlock N)
  /-- The blocks the scanner has looked for checkpoints in. -/
  scanned : List (IndexedBlock N)
  verified : List X.CheckpointRecord

inductive Action (N : Network) where
  /-- `sendConfirmedBlocksToChan` is called. -/
  | confirm (blocks : List (IndexedBlock N))
  | sendBlock
  /-- A send meets a loop that waits at the empty channel. -/
  | passToScanner
  | passToMonitor
  | receiveBlock
  | sendHeader
  | extract
  | sendCheckpoint
  | passCheckpoint
  | checkHeader
  | verifyCheckpoint

namespace State

def next (s : State X) : Action N → Option (State X)
  | .confirm blocks =>
    match s.sending with
    | [] => some { s with sending := blocks, confirmed := s.confirmed ++ blocks }
    | _ :: _ => none
  | .sendBlock =>
    match s.sending with
    | [] => none
    | b :: rest => (s.confirmedBlocksChan.send b).map fun c =>
      { s with confirmedBlocksChan := c, sending := rest }
  | .passToScanner =>
    match s.sending, s.scanner, s.confirmedBlocksChan.queue with
    | b :: rest, .select, [] => some { s with sending := rest, scanner := .sendHeader b }
    | _, _, _ => none
  | .passToMonitor =>
    match s.sending, s.confirmedBlocksChan.queue with
    | b :: rest, [] => some { s with sending := rest, checked := s.checked ++ [b] }
    | _, _ => none
  | .receiveBlock =>
    match s.scanner with
    | .select =>
      s.confirmedBlocksChan.receive.map fun r =>
        { s with confirmedBlocksChan := r.2, scanner := .sendHeader r.1 }
    | _ => none
  | .sendHeader =>
    match s.scanner with
    | .sendHeader b =>
      (s.blockHeaderChan.send b.header).map fun c =>
        { s with blockHeaderChan := c, scanner := .extract b }
    | _ => none
  | .extract =>
    match s.scanner with
    | .extract b =>
      some { s with
        scanner := .found (X.tryToExtractCheckpoint s.scanned b), scanned := s.scanned ++ [b] }
    | _ => none
  | .sendCheckpoint =>
    match s.scanner with
    | .sendCheckpoint ckpt =>
      (s.checkpointsChan.send ckpt).map fun c => { s with checkpointsChan := c, scanner := .select }
    | _ => none
  | .passCheckpoint =>
    match s.scanner, s.checkpointsChan.queue with
    | .sendCheckpoint ckpt, [] =>
      some { s with scanner := .select, verified := s.verified ++ [ckpt] }
    | _, _ => none
  -- the loop of the monitor handles what it receives before it receives again
  | .checkHeader =>
    s.confirmedBlocksChan.receive.map fun r =>
      { s with confirmedBlocksChan := r.2, checked := s.checked ++ [r.1] }
  | .verifyCheckpoint =>
    s.checkpointsChan.receive.map fun r =>
      { s with checkpointsChan := r.2, verified := s.verified ++ [r.1] }

def initial (X : Extractor N) (cfg : BufferSizes) : State X where
  confirmedBlocksChan := .make _ cfg.btcBlockBufferSize
  blockHeaderChan := .make _ cfg.btcBlockBufferSize
  checkpointsChan := .make _ cfg.checkpointBufferSize
  sending := []
  scanner := .select
  confirmed := []
  checked := []
  scanned := []
  verified := []

end State

def system (X : Extractor N) (cfg : BufferSizes) : System (State X) (Action N) where
  init s := s = .initial X cfg
  step s a s' := s.next a = some s'

end Loops

end AnonChain.Monitor
