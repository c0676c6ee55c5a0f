import AnonChain.BtcCheckpoint.Rounds

/-! What the operations of the pass change. -/

namespace AnonChain.BtcCheckpoint

open Lib List State

@[simp] theorem deleteSubmissions_epochData (l : List SubmissionKey) (s : State) :
    (l.foldl State.deleteSubmission s).epochData = s.epochData := by
  induction l generalizing s with
  | nil => rfl
  | cons sk l ih => exact ih _

@[simp] theorem deleteSubmissions_lastFinalizedEpoch (l : List SubmissionKey) (s : State) :
    (l.foldl State.deleteSubmission s).lastFinalizedEpoch = s.lastFinalizedEpoch := by
  induction l generalizing s with
  | nil => rfl
  | cons sk l ih => exact ih _

@[simp] theorem deleteSubmissions_params (l : List SubmissionKey) (s : State) :
    (l.foldl State.deleteSubmission s).params = s.params := by
  induction l generalizing s with
  | nil => rfl
  | cons sk l ih => exact ih _

theorem get_deleteSubmissions (l : List SubmissionKey) (s : State) (sk : SubmissionKey) :
    (l.foldl State.deleteSubmission s).submissions.get sk =
      if sk ∈ l then none else s.submissions.get sk := by
  induction l generalizing s with
  | nil => simp
  | cons a l ih =>
    rw [foldl_cons,ih,deleteSubmission,KVStore.get_delete]
    by_cases ha : sk = a
    · simp [ha]
    · simp [ha]

def keysExcept (idx n : Nat) (keys : List SubmissionKey) : List SubmissionKey :=
  ((keys.zipIdx n).filter (fun x => x.2 ≠ idx)).map Prod.fst

theorem deleteExcept_eq (s : State) (idx : Nat) (keys : List SubmissionKey) :
    s.deleteExcept idx keys = (keysExcept idx 0 keys).foldl State.deleteSubmission s := by
  rw [deleteExcept,keysExcept,foldl_map,foldl_filter]
  simp only [decide_eq_true_eq]

theorem mem_keysExcept {idx : Nat} {keys : List SubmissionKey} {sk : SubmissionKey} :
    sk ∈ keysExcept idx 0 keys ↔ ∃ n, keys[n]? = some sk ∧ n ≠ idx := by
  simp [keysExcept,mem_zipIdx_iff_getElem?]

variable {k : Keepers} {e : Nat} {ed : EpochData} {c : EpochChangesSummary}
  {best : SubmissionBtcInfo}

theorem forgetEpoch_btccheckpoint (k : Keepers) (e : Nat) (ed : EpochData) :
    (k.forgetEpoch e ed).btccheckpoint =
      ⟨k.btccheckpoint.params,k.btccheckpoint.epochData.set e { ed with keys := [] },
        (ed.keys.foldl State.deleteSubmission k.btccheckpoint).submissions,
        k.btccheckpoint.lastFinalizedEpoch⟩ := by
  simp [Keepers.forgetEpoch,clearEpochData,saveEpochData]

theorem raiseStatus_finalized {cur : BtcStatus} (best : BtcStatus) (hc : cur ≠ .Finalized) :
    (k.raiseStatus e cur best).2 = .Finalized ↔ best = .Finalized := by
  cases cur <;> cases best <;> simp_all [Keepers.raiseStatus,BtcStatus.toNat]

theorem raiseStatus_btccheckpoint {cur : BtcStatus} (best : BtcStatus) (hc : cur ≠ .Finalized) :
    (k.raiseStatus e cur best).1.btccheckpoint =
      if best = .Finalized then { k.btccheckpoint with lastFinalizedEpoch := e }
        else k.btccheckpoint := by
  cases cur <;> cases best <;>
    simp_all [Keepers.raiseStatus,BtcStatus.toNat,Keepers.confirmEpoch,Keepers.finalizeEpoch]

theorem applyEpochChanges_checkpointing : (k.applyEpochChanges e ed c best).checkpointing =
      (k.raiseStatus e ed.status (k.btccheckpoint.checkSubmissionStatus best)).1.checkpointing := by
  simp only [Keepers.applyEpochChanges]
  split <;> rfl

theorem checkSubmissionStatus_finalized {s : State} {i : SubmissionBtcInfo} :
    s.checkSubmissionStatus i = .Finalized ↔
      s.params.checkpointFinalizationTimeout ≤ i.youngestBlockDepth := by
  unfold checkSubmissionStatus SubmissionBtcInfo.submissionDepth
  grind

theorem applyEpochChanges_deep (hs : ed.status ≠ .Finalized)
    (hd : k.btccheckpoint.params.checkpointFinalizationTimeout ≤ best.youngestBlockDepth) :
    (k.applyEpochChanges e ed c best).btccheckpoint =
      ⟨k.btccheckpoint.params,
        k.btccheckpoint.epochData.set e ⟨[best.submissionKey],.Finalized⟩,
        ((keysExcept c.bestSubmissionIdx 0 ed.keys).foldl State.deleteSubmission
          k.btccheckpoint).submissions,e⟩ := by
  have hb := checkSubmissionStatus_finalized.mpr hd
  have hr := (raiseStatus_finalized (k := k) (e := e) _ hs).mpr hb
  have hs' := raiseStatus_btccheckpoint (k := k) (e := e) .Finalized hs
  rw [hb] at hr
  simp only [Keepers.applyEpochChanges,hb,hr,if_true,hs',deleteExcept_eq,saveEpochData]
  have hf : ∀ (l : List SubmissionKey) (t : State) (n : Nat),
      l.foldl deleteSubmission { t with lastFinalizedEpoch := n } =
        { l.foldl deleteSubmission t with lastFinalizedEpoch := n } := by
    intro l
    induction l with
    | nil => exact fun _ _ => rfl
    | cons sk l ih => exact fun t n => ih (t.deleteSubmission sk) n
  rw [hf]
  simp only [deleteSubmissions_epochData,deleteSubmissions_params]

theorem applyEpochChanges_shallow (hs : ed.status ≠ .Finalized)
    (hd : ¬ k.btccheckpoint.params.checkpointFinalizationTimeout ≤ best.youngestBlockDepth) :
    ∃ st, st = (k.raiseStatus e ed.status (k.btccheckpoint.checkSubmissionStatus best)).2 ∧
      st ≠ .Finalized ∧ (k.applyEpochChanges e ed c best).btccheckpoint =
      ⟨k.btccheckpoint.params,k.btccheckpoint.epochData.set e ⟨c.submissionsToKeep,st⟩,
        (c.submissionsToDelete.foldl State.deleteSubmission k.btccheckpoint).submissions,
        k.btccheckpoint.lastFinalizedEpoch⟩ := by
  have hb : k.btccheckpoint.checkSubmissionStatus best ≠ .Finalized :=
    fun h => hd (checkSubmissionStatus_finalized.mp h)
  have hr : (k.raiseStatus e ed.status (k.btccheckpoint.checkSubmissionStatus best)).2 ≠
      .Finalized :=
    fun h => hb ((raiseStatus_finalized _ hs).mp h)
  have hs' := raiseStatus_btccheckpoint (k := k) (e := e)
    (k.btccheckpoint.checkSubmissionStatus best) hs
  rw [if_neg hb] at hs'
  refine ⟨_,rfl,hr,?_⟩
  simp only [Keepers.applyEpochChanges,hr,if_false,hs',saveEpochData,deleteSubmissions_epochData]
  congr 1
  · simp
  · simp

end AnonChain.BtcCheckpoint
