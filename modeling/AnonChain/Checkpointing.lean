import AnonChain.BtcTxFormatter

/-! The checkpointing module: one raw checkpoint for each epoch and its status. -/

namespace AnonChain.Checkpointing

open Lib BtcTxFormatter

inductive CheckpointStatus where
  | Accumulating
  | Sealed
  | Submitted
  | Confirmed
  | Finalized
  deriving DecidableEq

structure RawCheckpoint where
  epochNum : Nat
  blockHash : Bytes
  bitmap : Bytes
  blsMultiSig : Bytes
  deriving DecidableEq

structure RawCheckpointWithMeta where
  ckpt : RawCheckpoint
  status : CheckpointStatus

structure State where
  checkpoints : KVStore Nat RawCheckpointWithMeta
  lastFinalizedEpoch : Nat
  conflictingCheckpointReceived : Bool

def fromBTCCkptToRawCkpt (btcCkpt : RawBtcCheckpoint) : Result RawCheckpoint := do
  ensure (btcCkpt.blockHash.length = 32)
    (.errorf "invalid block hash length, expected: %d, got: %d")
  ensure (btcCkpt.blsSig.length = 48) (.errorf "invalid BLS signature length, got %d, expected %d")
  pure ⟨btcCkpt.epoch,btcCkpt.blockHash,btcCkpt.bitMap,btcCkpt.blsSig⟩

def RawCheckpoint.validateBasic (ckpt : RawCheckpoint) : Result Unit := do
  ensure (ckpt.blockHash.length = 32)
    (.err .ErrInvalidRawCheckpoint "error validating block hash: %s")
  ensure (ckpt.blsMultiSig.length = 48)
    (.err .ErrInvalidRawCheckpoint "error validating BLS multi-signature: %s")

namespace State

def getRawCheckpoint (s : State) (epoch : Nat) : Result RawCheckpointWithMeta :=
  orFail (s.checkpoints.get epoch)
    (.err .ErrCkptDoesNotExist "no raw checkpoint is found at epoch %v")

/-- `verifyRawCheckpoint` is the check of the signers' power and of their multi-signature. -/
def verifyCkptBytes (verifyRawCheckpoint : RawCheckpoint → Bool) (s : State)
    (rawCheckpoint : RawBtcCheckpoint) : Result Unit := do
  let ckpt ← Result.wrap (fromBTCCkptToRawCkpt rawCheckpoint)
    (.errorf "failed to decode raw checkpoint from BTC raw checkpoint: %w")
  ckpt.validateBasic
  let ckptWithMeta ← Result.wrap (s.getRawCheckpoint ckpt.epochNum)
    (.errorf "failed to fetch the raw checkpoint at epoch %d from database: %w")
  if ckptWithMeta.ckpt = ckpt ∧ ckptWithMeta.status ≠ .Accumulating then pure ()
  else do
    ensure (verifyRawCheckpoint ckpt = true) (.err .ErrInvalidRawCheckpoint "invalid BLS multi-sig")
    ensure (ckptWithMeta.ckpt.blockHash = ckpt.blockHash) (.err .ErrConflictingCheckpoint "")

def sealCheckpoint (s : State) (ckptWithMeta : RawCheckpointWithMeta) : Result State := do
  ensure (ckptWithMeta.status = .Sealed) (.errorf "the checkpoint is not Sealed")
  ensure (s.checkpoints.has ckptWithMeta.ckpt.epochNum = false)
    (.err .ErrCkptAlreadyExist "a raw checkpoint already exists at epoch %v")
  pure { s with checkpoints := s.checkpoints.set ckptWithMeta.ckpt.epochNum ckptWithMeta }

def setCheckpointStatus (s : State) (epoch : Nat) (expectedStatus : List CheckpointStatus)
    (toStatus : CheckpointStatus) : Result State := do
  let ckptWithMeta ← s.getRawCheckpoint epoch
  ensure (ckptWithMeta.status ∈ expectedStatus)
    (.err .ErrInvalidCkptStatus "the status of the checkpoint should be one of %v")
  pure { s with checkpoints := s.checkpoints.set epoch { ckptWithMeta with status := toStatus } }

/-- The body the notifications share: a failure is only logged. -/
def moveStatus (s : State) (epoch : Nat) (expectedStatus : List CheckpointStatus)
    (toStatus : CheckpointStatus) : State :=
  match s.setCheckpointStatus epoch expectedStatus toStatus with
  | .ok s' => s'
  | .error _ => s

def setCheckpointSubmitted (s : State) (epoch : Nat) : State :=
  s.moveStatus epoch [.Sealed] .Submitted

def setCheckpointConfirmed (s : State) (epoch : Nat) : State :=
  s.moveStatus epoch [.Submitted] .Confirmed

def setCheckpointFinalized (s : State) (epoch : Nat) : State :=
  match s.setCheckpointStatus epoch [.Confirmed] .Finalized with
  | .ok s' => { s' with lastFinalizedEpoch := epoch }
  | .error _ => s

/-- In a big reorganisation a checkpoint may be forgotten even after it was confirmed. -/
def setCheckpointForgotten (s : State) (epoch : Nat) : State :=
  s.moveStatus epoch [.Submitted,.Confirmed] .Sealed

/-- A conflicting checkpoint halts the chain. -/
def endBlocker (s : State) : Result Unit :=
  ensure (s.conflictingCheckpointReceived = false) (.panic "Conflicting checkpoint is found")

variable {s : State} {epoch : Nat} {expected : List CheckpointStatus} {st : CheckpointStatus}

def statusAt (s : State) (epoch : Nat) : Option CheckpointStatus :=
  (s.checkpoints.get epoch).map RawCheckpointWithMeta.status

theorem setCheckpointStatus_of_mem (toStatus : CheckpointStatus) (h : s.statusAt epoch = some st)
    (hs : st ∈ expected) : ∃ s', s.setCheckpointStatus epoch expected toStatus = .ok s' ∧
      s'.lastFinalizedEpoch = s.lastFinalizedEpoch ∧
      ∀ e, s'.statusAt e = if e = epoch then some toStatus else s.statusAt e := by
  obtain ⟨c,hc,rfl⟩ := Option.map_eq_some_iff.mp h
  refine ⟨{ s with checkpoints := s.checkpoints.set epoch { c with status := toStatus } },?_,rfl,?_⟩
  · simp only [setCheckpointStatus,getRawCheckpoint,ok_iff]
    exact ⟨c,hc,hs,rfl⟩
  · intro e
    simp only [statusAt,KVStore.get_set]
    split <;> rfl

theorem setCheckpointStatus_of_not_mem (toStatus : CheckpointStatus)
    (h : ∀ st, s.statusAt epoch = some st → st ∉ expected) (s' : State) :
    s.setCheckpointStatus epoch expected toStatus ≠ .ok s' := by
  intro ho
  simp only [setCheckpointStatus,getRawCheckpoint,ok_iff] at ho
  obtain ⟨c,hc,hs, -⟩ := ho
  exact h c.status (by simp [statusAt,hc]) hs

theorem moveStatus_of_mem (toStatus : CheckpointStatus) (h : s.statusAt epoch = some st)
    (hst : st ∈ expected) :
    (s.moveStatus epoch expected toStatus).lastFinalizedEpoch = s.lastFinalizedEpoch ∧
      ∀ e, (s.moveStatus epoch expected toStatus).statusAt e =
        if e = epoch then some toStatus else s.statusAt e := by
  obtain ⟨s',hs',hr⟩ := setCheckpointStatus_of_mem toStatus h hst
  simp only [moveStatus,hs']
  exact hr

theorem moveStatus_of_not_mem (toStatus : CheckpointStatus)
    (h : ∀ st, s.statusAt epoch = some st → st ∉ expected) :
    s.moveStatus epoch expected toStatus = s := by
  unfold moveStatus
  split
  · rename_i s' hs'
    exact absurd hs' (setCheckpointStatus_of_not_mem toStatus h s')
  · rfl

theorem setCheckpointFinalized_of_confirmed (h : s.statusAt epoch = some .Confirmed) :
    (s.setCheckpointFinalized epoch).lastFinalizedEpoch = epoch ∧
      ∀ e, (s.setCheckpointFinalized epoch).statusAt e =
        if e = epoch then some .Finalized else s.statusAt e := by
  obtain ⟨s',hs', -,hg⟩ := setCheckpointStatus_of_mem .Finalized h (List.mem_singleton_self _)
  simp only [setCheckpointFinalized,hs']
  exact ⟨trivial,hg⟩

theorem setCheckpointFinalized_of_not (h : s.statusAt epoch ≠ some .Confirmed) :
    s.setCheckpointFinalized epoch = s := by
  unfold setCheckpointFinalized
  split
  · rename_i s' hs'
    refine absurd hs' (setCheckpointStatus_of_not_mem .Finalized ?_ s')
    intro st hst hi
    exact h (hst.trans (congrArg some (List.mem_singleton.mp hi)))
  · rfl

theorem moveStatus_none {e : Nat} (toStatus : CheckpointStatus) (h : s.statusAt e = none) :
    (s.moveStatus epoch expected toStatus).statusAt e = none := by
  by_cases hm : ∃ st, s.statusAt epoch = some st ∧ st ∈ expected
  · obtain ⟨st,hs,hi⟩ := hm
    rw [(moveStatus_of_mem toStatus hs hi).2,if_neg (by rintro rfl; simp [h] at hs)]
    exact h
  · rw [moveStatus_of_not_mem toStatus (fun st hs hi => hm ⟨st,hs,hi⟩)]
    exact h

theorem setCheckpointFinalized_none {e : Nat} (h : s.statusAt e = none) :
    (s.setCheckpointFinalized epoch).statusAt e = none := by
  by_cases hs : s.statusAt epoch = some .Confirmed
  · rw [(setCheckpointFinalized_of_confirmed hs).2,if_neg (by rintro rfl; simp [h] at hs)]
    exact h
  · rw [setCheckpointFinalized_of_not hs]
    exact h

end State

end AnonChain.Checkpointing
