import AnonChain.BtcCheckpoint.Types
import AnonChain.Lib.Run

/-! The Bitcoin checkpoint module: inserting a submission, and the pass over all epochs. -/

namespace AnonChain.BtcCheckpoint

open Lib

structure State where
  params : Params
  epochData : KVStore Nat EpochData
  submissions : KVStore SubmissionKey SubmissionData
  lastFinalizedEpoch : Nat

structure Keepers where
  btccheckpoint : State
  checkpointing : Checkpointing.State

section

variable (b : BtcLightClient.State)

def headerDepth (hash : Hash) : Result Nat :=
  Result.wrap (b.mainChainDepth hash)
    (.errorf "One of submission blocks is not known to btclightclient")

structure YoungestBlock where
  depth : Nat
  hash : Hash
  lowestTxIdx : Nat

/-- The running values of the loop over the transactions of a submission. No block was met while
the youngest one is `none`; the source starts from the largest depth instead. -/
structure BtcInfoLoop where
  oldestBlockDepth : Nat
  youngest : Option YoungestBlock

def youngestOf (currentBlockDepth : Nat) (tk : TransactionKey) :
    Option YoungestBlock → YoungestBlock
  | none => ⟨currentBlockDepth,tk.hash,tk.index⟩
  | some y =>
    if currentBlockDepth < y.depth then ⟨currentBlockDepth,tk.hash,tk.index⟩
    -- Two transactions in one block: the lower index counts.
    else if currentBlockDepth = y.depth ∧
      tk.index < y.lowestTxIdx then { y with lowestTxIdx := tk.index }
    else y

def btcInfoStep (r : BtcInfoLoop) (tk : TransactionKey) : Result BtcInfoLoop := do
  let currentBlockDepth ← headerDepth b tk.hash
  pure ⟨if r.oldestBlockDepth < currentBlockDepth then currentBlockDepth else r.oldestBlockDepth,
    some (youngestOf currentBlockDepth tk r.youngest)⟩

def getSubmissionBtcInfo (sk : SubmissionKey) : Result SubmissionBtcInfo := do
  let r ← sk.foldlM (btcInfoStep b) ⟨0,none⟩
  let y ← orFail r.youngest .nilPointer
  pure ⟨sk,r.oldestBlockDepth,y.depth,y.hash,y.lowestTxIdx⟩

def checkKeyLength (sk : SubmissionKey) : Result Unit :=
  ensure (2 ≤ sk.length)
    (.panic "Submission key composed of less than 2 transactions keys in database")

def haveDescendant (newSubmissionInfo : SubmissionBtcInfo) : List SubmissionKey → Result Bool
  | [] => pure false
  | sk :: l => do
    checkKeyLength sk
    match ← (getSubmissionBtcInfo b sk).attempt with
    | none => haveDescendant newSubmissionInfo l
    | some parentEpochSubmissionInfo =>
      if newSubmissionInfo.happenedAfter parentEpochSubmissionInfo = true then pure true
      else haveDescendant newSubmissionInfo l

def checkAncestors (s : State) (submissionEpoch : Nat) (newSubmissionInfo : SubmissionBtcInfo) :
    Result Unit :=
  if submissionEpoch ≤ 1 then pure ()
  else do
    let previousEpochData ← orFail (s.epochData.get (submissionEpoch-1))
      (.err .ErrNoCheckpointsForPreviousEpoch "")
    ensure (previousEpochData.keys ≠ []) (.err .ErrNoCheckpointsForPreviousEpoch "")
    let found ← haveDescendant b newSubmissionInfo previousEpochData.keys
    ensure (found = true) (.err .ErrProvidedHeaderDoesNotHaveAncestor "")

end

section

structure EpochChangesSummary where
  submissionsToDelete : List SubmissionKey
  submissionsToKeep : List SubmissionKey
  epochBestSubmission : Option SubmissionBtcInfo
  bestSubmissionIdx : Nat

variable (b : BtcLightClient.State)

def EpochChangesSummary.delete (c : EpochChangesSummary) (sk : SubmissionKey) :
    EpochChangesSummary :=
  { c with submissionsToDelete := c.submissionsToDelete ++ [sk] }

/-- The first kept submission becomes the best one and leaves the best position as it is. -/
def EpochChangesSummary.keep (c : EpochChangesSummary) (i : Nat) (sk : SubmissionKey)
    (submissionInfo : SubmissionBtcInfo) : EpochChangesSummary :=
  let c := { c with submissionsToKeep := c.submissionsToKeep ++ [sk] }
  match c.epochBestSubmission with
  | none => { c with epochBestSubmission := some submissionInfo }
  | some best =>
    if submissionInfo.isBetterThan best = true then
      { c with epochBestSubmission := some submissionInfo, bestSubmissionIdx := i }
    else c

def epochChangesStep (parentEpochBestSubmission : Option SubmissionBtcInfo)
    (c : EpochChangesSummary) (x : SubmissionKey × Nat) : Result EpochChangesSummary := do
  checkKeyLength x.1
  match ← (getSubmissionBtcInfo b x.1).attempt with
  | none => pure (c.delete x.1)
  | some submissionInfo =>
    match parentEpochBestSubmission with
    | none => pure (c.keep x.2 x.1 submissionInfo)
    | some parent =>
      if submissionInfo.happenedAfter parent = true then pure (c.keep x.2 x.1 submissionInfo)
      else pure (c.delete x.1)

def getEpochChanges (parentEpochBestSubmission : Option SubmissionBtcInfo) (ed : EpochData) :
    Result EpochChangesSummary :=
  ed.keys.zipIdx.foldlM (epochChangesStep b parentEpochBestSubmission) ⟨[],[],none,0⟩

end

namespace State

def checkSubmissionStatus (s : State) (info : SubmissionBtcInfo) : BtcStatus :=
  let subDepth := info.submissionDepth
  if s.params.checkpointFinalizationTimeout ≤ subDepth then .Finalized
  else if s.params.btcConfirmationDepth ≤ subDepth then .Confirmed
  else .Submitted

def deleteSubmission (s : State) (sk : SubmissionKey) : State :=
  { s with submissions := s.submissions.delete sk }

def saveEpochData (s : State) (e : Nat) (ed : EpochData) : State :=
  { s with epochData := s.epochData.set e ed }

def saveSubmission (s : State) (sk : SubmissionKey) (sd : SubmissionData) : State :=
  { s with submissions := s.submissions.set sk sd }

/-- Only the keys are emptied; the status of the epoch stays. -/
def clearEpochData (s : State) (epoch : Nat) (currentEpoch : EpochData) : State :=
  (currentEpoch.keys.foldl deleteSubmission s).saveEpochData epoch { currentEpoch with keys := [] }

def deleteExcept (s : State) (bestSubmissionIdx : Nat) (keys : List SubmissionKey) : State :=
  keys.zipIdx.foldl (fun s x => if x.2 ≠ bestSubmissionIdx then s.deleteSubmission x.1 else s) s

end State

section

/-- The best submission of the epoch before, `none` when that epoch lost all its submissions. -/
structure EpochInfo where
  bestSubmission : Option SubmissionBtcInfo

variable (b : BtcLightClient.State)

def Keepers.forgetEpoch (k : Keepers) (epoch : Nat) (currentEpoch : EpochData) : Keepers :=
  ⟨k.btccheckpoint.clearEpochData epoch currentEpoch,k.checkpointing.setCheckpointForgotten epoch⟩

def Keepers.confirmEpoch (k : Keepers) (epoch : Nat) : Keepers :=
  { k with checkpointing := k.checkpointing.setCheckpointConfirmed epoch }

def Keepers.finalizeEpoch (k : Keepers) (epoch : Nat) : Keepers :=
  ⟨{ k.btccheckpoint with lastFinalizedEpoch := epoch },
    k.checkpointing.setCheckpointFinalized epoch⟩

def Keepers.raiseStatus (k : Keepers) (epoch : Nat)
    (currentStatus bestSubmissionStatus : BtcStatus) : Keepers × BtcStatus :=
  let (k,status) :=
    if currentStatus.toNat < bestSubmissionStatus.toNat ∧ currentStatus = .Submitted then
      (k.confirmEpoch epoch,.Confirmed)
    else (k,currentStatus)
  if status.toNat < bestSubmissionStatus.toNat ∧ status = .Confirmed then
    (k.finalizeEpoch epoch,.Finalized)
  else (k,status)

def Keepers.applyEpochChanges (k : Keepers) (epoch : Nat) (currentEpoch : EpochData)
    (epochChanges : EpochChangesSummary) (best : SubmissionBtcInfo) : Keepers :=
  let (k,status) := k.raiseStatus epoch currentEpoch.status
    (k.btccheckpoint.checkSubmissionStatus best)
  if status = .Finalized then
    let s := k.btccheckpoint.deleteExcept epochChanges.bestSubmissionIdx currentEpoch.keys
    ⟨s.saveEpochData epoch ⟨[best.submissionKey],status⟩,k.checkpointing⟩
  else
    let s := epochChanges.submissionsToDelete.foldl State.deleteSubmission k.btccheckpoint
    ⟨s.saveEpochData epoch ⟨epochChanges.submissionsToKeep,status⟩,k.checkpointing⟩

def checkEpoch (k : Keepers) (parentEpochInfo : Option EpochInfo) (epoch : Nat)
    (currentEpoch : EpochData) : Result (Keepers × EpochInfo) :=
  if currentEpoch.status = .Finalized then
    match currentEpoch.keys with
    | [sk] => do
      let subInfo ← Result.wrap (getSubmissionBtcInfo b sk)
        (.panic "Finalized epoch submission must be on main chain")
      pure (k,⟨some subInfo⟩)
    | _ => .error (.panic "Finalized epoch must have only one valid submission")
  else
    match parentEpochInfo with
    | some ⟨none⟩ => pure (k.forgetEpoch epoch currentEpoch,⟨none⟩)
    | parentEpochInfo => do
      let epochChanges ← getEpochChanges b
          (parentEpochInfo.bind EpochInfo.bestSubmission) currentEpoch
      if epochChanges.submissionsToKeep = [] then
        pure (k.forgetEpoch epoch currentEpoch,⟨none⟩)
      else do
        let best ← orFail epochChanges.epochBestSubmission .nilPointer
        pure (k.applyEpochChanges epoch currentEpoch epochChanges best,⟨some best⟩)

/-- The iteration stops at the first epoch without submissions. -/
def checkEpochs : List (Nat × EpochData) → Option EpochInfo → Keepers → Result Keepers
  | [], _, k => .ok k
  | (epoch,currentEpoch) :: l, parentEpochInfo, k =>
    if currentEpoch.keys = [] then .ok k
    else do
      let (k',info) ← checkEpoch b k parentEpochInfo epoch currentEpoch
      checkEpochs l (some info) k'

def State.openEpochs (s : State) : List (Nat × EpochData) :=
  s.epochData.entries.filter (fun x => s.lastFinalizedEpoch ≤ x.1)

def checkCheckpoints (k : Keepers) : Result Keepers :=
  checkEpochs b k.btccheckpoint.openEpochs none k

end

variable (E : Env)

/-- The Bitcoin light client, the two checkpoint modules, and whether the light client changed in
the block that is being executed. -/
structure World where
  btclc : BtcLightClient.State
  keepers : Keepers
  btcLightClientUpdated : Bool

def Keepers.addEpochSubmission (k : Keepers) (epochNum : Nat) (ed : EpochData) (sk : SubmissionKey)
    (sd : SubmissionData) : Keepers :=
  ⟨(k.btccheckpoint.saveEpochData epochNum { ed with keys := ed.keys ++ [sk] }).saveSubmission sk
    sd,if ed.keys = [] then k.checkpointing.setCheckpointSubmitted epochNum else k.checkpointing⟩

def insertBTCSpvProof (w : World) (req : MsgInsertBTCSpvProof) : Result World := do
  let s := w.keepers.btccheckpoint
  let rawSubmission ← Result.wrap (parseSubmission E req s.params.checkpointTag)
    (.err .ErrInvalidCheckpointProof "")
  let submissionKey := rawSubmission.getSubmissionKey
  ensure (s.submissions.has submissionKey = false) (.err .ErrDuplicatedSubmission "")
  let newSubmissionInfo ← Result.wrap (getSubmissionBtcInfo w.btclc submissionKey)
    (.err .ErrInvalidProofHeader "One of submission blocks is not known to btclightclient")
  let epochNum := rawSubmission.checkpointData.epoch
  let ed := s.epochData.getD epochNum newEmptyEpochData
  ensure (ed.status ≠ .Finalized) (.err .ErrEpochAlreadyFinalized "")
  match w.keepers.checkpointing.verifyCkptBytes E.verifyRawCheckpoint
    rawSubmission.checkpointData with
  -- A conflict ends the message with success, so that the flag stays in the state.
  | .error (.err .ErrConflictingCheckpoint _) =>
    pure { w with keepers := ⟨s,
      { w.keepers.checkpointing with conflictingCheckpointReceived := true }⟩ }
  | .error e => .error e
  | .ok _ => do
    checkAncestors w.btclc s epochNum newSubmissionInfo
    let txsInfo := List.zipWith (fun txKey p => ⟨txKey,p.btcTransaction,p.merkleNodes⟩)
      submissionKey req.proofs
    let submissionData := rawSubmission.getSubmissionData epochNum txsInfo
    pure { w with keepers := w.keepers.addEpochSubmission epochNum ed submissionKey submissionData }

structure MsgUpdateParams where
  authority : AccAddress
  params : Params

def updateParams (s : State) (req : MsgUpdateParams) : Result State := do
  ensure (E.authority = req.authority) .notAuthority
  Result.wrap req.params.validate (.err .ErrInvalidProposalMsg "invalid parameter: %v")
  ensure (req.params.checkpointFinalizationTimeout = s.params.checkpointFinalizationTimeout)
    (.err .ErrInvalidProposalMsg "the checkpoint finalization timeout cannot be changed")
  pure { s with params := req.params }

def endBlock (w : World) : Result World := do
  let keepers ← if w.btcLightClientUpdated then checkCheckpoints w.btclc w.keepers
      else pure w.keepers
  keepers.checkpointing.endBlocker
  pure ⟨w.btclc,keepers,false⟩

inductive Action where
  | insertHeaders (msg : BtcLightClient.MsgInsertHeaders)
  | insertBTCSpvProof (req : MsgInsertBTCSpvProof)
  | updateParams (req : MsgUpdateParams)
  | sealCheckpoint (ckpt : Checkpointing.RawCheckpointWithMeta)
  | endBlock

/-- No checkpoint is sealed in epoch 0. -/
def deliver (w : World) : Action → Result World
  | .insertHeaders msg => do
    let (btclc,_) ← BtcLightClient.insertHeaders E.btc w.btclc msg
    pure { w with btclc := btclc, btcLightClientUpdated := true }
  | .insertBTCSpvProof req => insertBTCSpvProof E w req
  | .updateParams req => do
    let s ← updateParams E w.keepers.btccheckpoint req
    pure { w with keepers := ⟨s,w.keepers.checkpointing⟩ }
  | .sealCheckpoint ckpt => do
    ensure (1 ≤ ckpt.ckpt.epochNum) (.errorf "no checkpoint is sealed in epoch 0")
    let c ← w.keepers.checkpointing.sealCheckpoint ckpt
    pure { w with keepers := ⟨w.keepers.btccheckpoint,c⟩ }
  | .endBlock => endBlock w

/-- The modules before the first epoch ends: valid parameters and no record yet. -/
structure Genesis (w : World) : Prop where
  btclc : w.btclc.WF
  params : w.keepers.btccheckpoint.params.validate = .ok ()
  noEpochs : w.keepers.btccheckpoint.epochData = .empty
  noSubmissions : w.keepers.btccheckpoint.submissions = .empty
  noFinalized : w.keepers.btccheckpoint.lastFinalizedEpoch = 0
  noCheckpoints : w.keepers.checkpointing.checkpoints = .empty
  noFinalizedCheckpoint : w.keepers.checkpointing.lastFinalizedEpoch = 0

/-- A rejected message leaves no trace, so only accepted actions move the state. -/
def timestamping : System World Action where
  init := Genesis
  step w a w' := deliver E w a = .ok w'

end AnonChain.BtcCheckpoint
