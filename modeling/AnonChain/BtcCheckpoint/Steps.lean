import AnonChain.BtcCheckpoint.Settled

/-! What each accepted action does to the light client and the two checkpoint modules. -/

namespace AnonChain.BtcCheckpoint

open Lib

variable {E : Env} {w w' : World}

structure Accepted (E : Env) (w : World) (req : MsgInsertBTCSpvProof)
    (raw : RawCheckpointSubmission) : Prop where
  parsed : parseSubmission E req w.keepers.btccheckpoint.params.checkpointTag = .ok raw
  fresh : w.keepers.btccheckpoint.submissions.get raw.getSubmissionKey = none
  onChain : OnChain w.btclc raw.getSubmissionKey
  notFinalized : w.keepers.btccheckpoint.statusOf raw.checkpointData.epoch ≠ .Finalized
  checkpoint : ∃ c, w.keepers.checkpointing.checkpoints.get raw.checkpointData.epoch = some c
  ancestor : 2 ≤ raw.checkpointData.epoch →
    w.keepers.btccheckpoint.keysOf (raw.checkpointData.epoch-1) ≠ []

def submissionDataOf (req : MsgInsertBTCSpvProof) (raw : RawCheckpointSubmission) :
    SubmissionData :=
  raw.getSubmissionData raw.checkpointData.epoch
    (List.zipWith (fun txKey p => ⟨txKey,p.btcTransaction,p.merkleNodes⟩)
      raw.getSubmissionKey req.proofs)

theorem verifyCkptBytes_checkpoint {verify : Checkpointing.RawCheckpoint → Bool}
    {s : Checkpointing.State}
    {raw : BtcTxFormatter.RawBtcCheckpoint} {u : Unit} (h : s.verifyCkptBytes verify raw = .ok u) :
    ∃ c, s.checkpoints.get raw.epoch = some c := by
  simp only [Checkpointing.State.verifyCkptBytes,Checkpointing.fromBTCCkptToRawCkpt,ok_iff,
    Checkpointing.State.getRawCheckpoint] at h
  obtain ⟨_,⟨-, -,rfl⟩,_, -,c,hc, -⟩ := h
  exact ⟨c,hc⟩

theorem checkAncestors_keys {b : BtcLightClient.State} {s : State} {e : Nat} {i : SubmissionBtcInfo}
    {u : Unit} (h : checkAncestors b s e i = .ok u) (he : 2 ≤ e) : s.keysOf (e-1) ≠ [] := by
  rw [checkAncestors,if_neg (by omega)] at h
  simp only [ok_iff] at h
  obtain ⟨ed,hed,hn, -⟩ := h
  rw [State.keysOf,dataOf_eq hed]
  exact hn

/-- The effect of an accepted action, one constructor for each way to go. -/
inductive StepEffect (E : Env) (w : World) : Action → World → Prop where
  | headers {msg : BtcLightClient.MsgInsertHeaders} {btclc : BtcLightClient.State}
      {rb : Option BtcLightClient.RollBack} : BtcLightClient.insertHeaders E.btc w.btclc msg =
        .ok (btclc,rb) →
      StepEffect E w (.insertHeaders msg) ⟨btclc,w.keepers,true⟩
  | conflict {req : MsgInsertBTCSpvProof} :
      StepEffect E w (.insertBTCSpvProof req)
        ⟨w.btclc,⟨w.keepers.btccheckpoint,
          { w.keepers.checkpointing with conflictingCheckpointReceived := true }⟩,
              w.btcLightClientUpdated⟩
  | submit {req : MsgInsertBTCSpvProof} {raw : RawCheckpointSubmission} : Accepted E w req raw →
      StepEffect E w (.insertBTCSpvProof req)
        ⟨w.btclc,w.keepers.addEpochSubmission raw.checkpointData.epoch
          (w.keepers.btccheckpoint.dataOf raw.checkpointData.epoch) raw.getSubmissionKey
          (submissionDataOf req raw),w.btcLightClientUpdated⟩
  | params {req : MsgUpdateParams} :
      req.params.checkpointFinalizationTimeout =
        w.keepers.btccheckpoint.params.checkpointFinalizationTimeout →
      StepEffect E w (.updateParams req)
        ⟨w.btclc,⟨{ w.keepers.btccheckpoint with params := req.params },w.keepers.checkpointing⟩,
          w.btcLightClientUpdated⟩
  | sealed {ckpt : Checkpointing.RawCheckpointWithMeta} : 1 ≤ ckpt.ckpt.epochNum →
      ckpt.status = .Sealed → w.keepers.checkpointing.checkpoints.get ckpt.ckpt.epochNum = none →
      StepEffect E w (.sealCheckpoint ckpt)
        ⟨w.btclc,⟨w.keepers.btccheckpoint,{ w.keepers.checkpointing with
          checkpoints := w.keepers.checkpointing.checkpoints.set ckpt.ckpt.epochNum ckpt }⟩,
          w.btcLightClientUpdated⟩
  | pass {k : Keepers} : w.btcLightClientUpdated = true →
      checkCheckpoints w.btclc w.keepers = .ok k → StepEffect E w .endBlock ⟨w.btclc,k,false⟩
  | quiet : w.btcLightClientUpdated = false → StepEffect E w .endBlock ⟨w.btclc,w.keepers,false⟩

theorem insertBTCSpvProof_effect {req : MsgInsertBTCSpvProof}
    (h : insertBTCSpvProof E w req = .ok w') : StepEffect E w (.insertBTCSpvProof req) w' := by
  simp only [insertBTCSpvProof,ok_iff] at h
  obtain ⟨raw,hr,hf,info,hi,ho,h⟩ := h
  split at h
  · rw [pure_eq_ok] at h
    subst h
    exact .conflict
  · simp at h
  · rename_i u hv
    simp only [ok_iff] at h
    obtain ⟨v,ha,rfl⟩ := h
    refine .submit ⟨hr,KVStore.has_eq_false.mp hf,?_,ho,verifyCkptBytes_checkpoint hv,
      checkAncestors_keys ha⟩
    exact (getSubmissionBtcInfo_infoOf hi).onChain

theorem deliver_effect {a : Action} (h : deliver E w a = .ok w') : StepEffect E w a w' := by
  cases a with
  | insertHeaders _ =>
    simp only [deliver,ok_iff] at h
    obtain ⟨⟨btclc,rb⟩,hi,rfl⟩ := h
    exact .headers hi
  | insertBTCSpvProof _ => exact insertBTCSpvProof_effect h
  | updateParams _ =>
    simp only [deliver,updateParams,ok_iff] at h
    obtain ⟨_,⟨-,_, -,ht,rfl⟩,rfl⟩ := h
    exact .params ht
  | sealCheckpoint _ =>
    simp only [deliver,Checkpointing.State.sealCheckpoint,ok_iff] at h
    obtain ⟨hp,_,⟨hs,hn,rfl⟩,rfl⟩ := h
    exact .sealed hp hs (KVStore.has_eq_false.mp hn)
  | endBlock =>
    rw [deliver,endBlock] at h
    split at h
    · rename_i hu
      simp only [ok_iff] at h
      obtain ⟨k,hk,_, -,rfl⟩ := h
      exact .pass hu hk
    · rename_i hu
      simp only [ok_iff] at h
      obtain ⟨_,rfl,_, -,rfl⟩ := h
      exact .quiet (by simpa using hu)

def SameBlocks (b b' : BtcLightClient.State) (sk : SubmissionKey) : Prop :=
  ∀ tk ∈ sk, b'.getHeaderByHash tk.hash = b.getHeaderByHash tk.hash

/-- No step removes a block that holds a finalized submission from the light client. -/
def KeepsFinalized (w : World) (_ : Action) (w' : World) : Prop :=
  ∀ e, w.keepers.btccheckpoint.statusOf e = .Finalized → ∀ sk ∈ w.keepers.btccheckpoint.keysOf e,
    SameBlocks w.btclc w'.btclc sk

end AnonChain.BtcCheckpoint
