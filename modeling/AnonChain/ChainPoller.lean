import AnonChain.FinalitySubmitter
import AnonChain.Lib.Channel
import AnonChain.Lib.Consecutive

/-! The block poller sends ranges of blocks to a bounded channel; the submission loop takes them. -/

namespace AnonChain.ChainPoller

open Lib EotsManager FinalitySubmitter

def maxFailedCycles : Nat := 20

def defaultBufferSize : Nat := 100

structure Config where
  bufferSize : Nat
  batchSubmissionSize : Nat

def Config.blockChanSize (cfg : Config) : Nat :=
  if 0 < cfg.bufferSize then cfg.bufferSize else defaultBufferSize

inductive Phase where
  | waitForActivation
  | waitForTick
  /-- The latest height is known and the blocks are asked for. -/
  | tryPollChain (latestBlockHeight : Uint64)
  /-- The blocks of the range that were sent and those that were not; the poller may wait for room
  for the first of these. -/
  | sending (sent rest : List BlockDescription) (full : Bool)
  | returned
  /-- The process was ended after too many failed cycles. -/
  | exited

structure State where
  isStarted : Bool
  quit : Bool
  ctxDone : Bool
  nextHeight : Uint64
  blockChan : Channel BlockDescription
  failedCycles : Nat
  phase : Phase
  latest : Uint64
  /-- The calls of `NextBlock` and `TryNextBlock` that have found the poller started. -/
  calls : Nat
  received : List BlockDescription
  /-- The blocks `getBatchBlocksFromPoller` has collected, while it runs. -/
  pollerBlocks : Option (List BlockDescription)
  /-- Its `TryNextBlock` has found the poller started. -/
  trying : Bool
  batches : List (List BlockDescription)

inductive Action where
  | queryActivation (answer : Option Uint64)
  | queryLatest (answer : Option Uint64)
  | queryBlocks (answer : Option (List BlockDescription))
  | send
  | findFull
  | timeOut
  /-- A send or a wait ends because of the shutdown or of the context. -/
  | abandon
  | leave
  | cancelContext
  | stop
  | call
  | receive
  | giveUp
  | getBatch
  | tryNextBlock
  | collect
  | endBatch

namespace State

def started (cfg : Config) (height : Uint64) : State where
  isStarted := true
  quit := false
  ctxDone := false
  nextHeight := height
  blockChan := .make BlockDescription cfg.blockChanSize
  failedCycles := 0
  phase := .waitForActivation
  latest := 0
  calls := 0
  received := []
  pollerBlocks := none
  trying := false
  batches := []

def cycleFailed (s : State) : State :=
  { s with
    failedCycles := s.failedCycles+1
    phase := if maxFailedCycles < s.failedCycles+1 then .exited else .waitForTick }

def cycleDone (s : State) : State := { s with failedCycles := 0, phase := .waitForTick }

def stopping (s : State) : Bool := s.quit || s.ctxDone

def poll (s : State) : Action → Option State
  | .queryActivation answer =>
    match s.phase, answer with
    | .waitForActivation, none => some s
    | .waitForActivation, some activatedHeight =>
      some { s with nextHeight := max s.nextHeight activatedHeight, phase := .waitForTick }
    | _, _ => none
  | .queryLatest answer =>
    match s.phase, answer with
    | .waitForTick, none => some s.cycleFailed
    | .waitForTick, some latest =>
      if latest < s.nextHeight then some { s with latest := latest }.cycleDone
      else some { s with latest := latest, phase := .tryPollChain latest }
    | _, _ => none
  | .queryBlocks answer =>
    match s.phase, answer with
    | .tryPollChain _, none => some s.cycleFailed
    | .tryPollChain _, some [] => some s.cycleDone
    | .tryPollChain _, some (b :: blocks) =>
      some { s with phase := .sending [] (b :: blocks) false }
    | _, _ => none
  | .send =>
    match s.phase with
    | .sending sent (b :: rest) _ =>
      (s.blockChan.send b).map fun blockChan =>
        -- the cursor moves once the last block of the range was sent
        if rest = [] then { s with blockChan := blockChan, nextHeight := b.height+1 }.cycleDone
        else { s with blockChan := blockChan, phase := .sending (sent ++ [b]) rest false }
    | _ => none
  | .findFull =>
    match s.phase with
    | .sending sent rest false =>
      if s.blockChan.queue.length = s.blockChan.capacity ∧ s.stopping = false then
        some { s with phase := .sending sent rest true }
      else none
    | _ => none
  | .timeOut =>
    match s.phase with
    | .sending _ _ true => some s.cycleFailed
    | _ => none
  | .abandon =>
    match s.phase with
    | .sending _ _ _ => if s.stopping then some s.cycleFailed else none
    | _ => none
  | .leave =>
    match s.phase with
    | .waitForActivation => if s.stopping then some { s with phase := .returned } else none
    | .waitForTick => if s.stopping then some { s with phase := .returned } else none
    | _ => none
  | _ => none

def use (cfg : Config) (s : State) : Action → Option State
  | .cancelContext => some { s with ctxDone := true }
  | .stop => if s.isStarted then some { s with isStarted := false, quit := true } else none
  | .call => if s.isStarted then some { s with calls := s.calls+1 } else none
  | .receive =>
    if s.calls = 0 then none
    else s.blockChan.receive.map fun p =>
      { s with calls := s.calls-1, blockChan := p.2, received := s.received ++ [p.1] }
  | .giveUp => if s.calls = 0 then none else some { s with calls := s.calls-1 }
  | .getBatch => if s.pollerBlocks.isNone then some { s with pollerBlocks := some [] } else none
  | .tryNextBlock =>
    if s.isStarted ∧ s.pollerBlocks.isSome then some { s with trying := true } else none
  | .collect =>
    match s.pollerBlocks, s.trying with
    | some pollerBlocks, true =>
      s.blockChan.receive.map fun p =>
        let s := { s with blockChan := p.2, received := s.received ++ [p.1], trying := false }
        if (pollerBlocks ++ [p.1]).length = cfg.batchSubmissionSize then
          { s with pollerBlocks := none, batches := s.batches ++ [pollerBlocks ++ [p.1]] }
        else { s with pollerBlocks := some (pollerBlocks ++ [p.1]) }
    | _, _ => none
  | .endBatch =>
    match s.pollerBlocks with
    | some pollerBlocks =>
      -- `TryNextBlock` has no block: the poller is not started or the channel is empty
      if (if s.trying then s.blockChan.queue.isEmpty else !s.isStarted) then
        some { s with
          pollerBlocks := none, trying := false, batches := s.batches ++ [pollerBlocks] }
      else none
    | none => none
  | _ => none

def isExited (s : State) : Bool :=
  match s.phase with
  | .exited => true
  | _ => false

def next (cfg : Config) (s : State) (a : Action) : Option State :=
  if s.isExited then none else (s.poll a).or (s.use cfg a)

end State

/-- The heights of the consumer chain never fall, and a query returns consecutive blocks from the
requested start, up to the height that was reported. -/
def Answers (s : State) : Action → Prop
  | .queryLatest (some latest) => s.latest ≤ latest
  | .queryBlocks (some blocks) =>
    ConsecutiveFrom (fun b : BlockDescription => b.height.val) s.nextHeight.val blocks ∧
      (∀ b ∈ blocks, b.height ≤ s.latest) ∧ (s.nextHeight = s.latest → blocks.length = 1)
  | _ => True

def system (cfg : Config) (height : Uint64) : System State Action where
  init s := s = .started cfg height
  step s a s' := Answers s a ∧ s.next cfg a = some s'

end AnonChain.ChainPoller
