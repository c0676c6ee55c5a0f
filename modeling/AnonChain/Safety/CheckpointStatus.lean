import AnonChain.Safety.EpochAncestry

/-! The status of an epoch is kept by two modules. -/

namespace AnonChain.BtcCheckpoint

open Lib List KVStore State BtcCheckpoint.Regtest
open Checkpointing (CheckpointStatus State)

def BtcStatus.toCheckpointStatus : BtcStatus → CheckpointStatus
  | .Submitted => .Submitted
  | .Confirmed => .Confirmed
  | .Finalized => .Finalized

/-- Every epoch with submissions has the same status in both modules, and the last finalized epoch
is the same. -/
structure StatusAgrees (w : World) : Prop where
  status : ∀ e, w.keepers.btccheckpoint.keysOf e ≠ [] → w.keepers.checkpointing.statusAt e =
    some (w.keepers.btccheckpoint.statusOf e).toCheckpointStatus
  last : w.keepers.checkpointing.lastFinalizedEpoch = w.keepers.btccheckpoint.lastFinalizedEpoch

namespace Regtest

/-- A confirmed epoch loses its block to a longer chain and is submitted again there. -/
def resubmitted : List Action :=
  [.sealCheckpoint (checkpoint 1),insert [block 101 100 1 1,block 102 101 1 0],
    submit (block 101 100 1 1) 1 0 1,.endBlock,
    insert [block 111 100 1 0,block 112 111 1 0,block 113 112 1 1],.endBlock,
    submit (block 113 112 1 1) 1 0 1,.endBlock,
    insert [block 114 113 1 0,block 115 114 1 0,block 116 115 1 0]]

end Regtest

/-- The second submission finalizes the epoch in one module and leaves it submitted in the other. -/
theorem resubmitted_status_differs :
    ∃ w w', ((timestamping Regtest.env).restrict KeepsFinalized).Reachable w ∧
      deliver Regtest.env w .endBlock = .ok w' ∧ KeepsFinalized w .endBlock w' ∧
      w'.keepers.btccheckpoint.keysOf 1 ≠ [] ∧ w'.keepers.btccheckpoint.statusOf 1 = .Finalized ∧
      w'.keepers.checkpointing.statusAt 1 = some .Submitted ∧
      w'.keepers.btccheckpoint.lastFinalizedEpoch = 1 ∧
      w'.keepers.checkpointing.lastFinalizedEpoch = 0 := by
  have hr : holds (resubmitted.foldlM deliverOpen genesis) (fun w =>
      holds (deliverOpen w .endBlock) (fun w' =>
        decide (w'.keepers.btccheckpoint.keysOf 1 ≠ [] ∧
          w'.keepers.btccheckpoint.statusOf 1 = .Finalized ∧
          w'.keepers.checkpointing.statusAt 1 = some .Submitted ∧
          w'.keepers.btccheckpoint.lastFinalizedEpoch = 1 ∧
          w'.keepers.checkpointing.lastFinalizedEpoch = 0))) = true := by decide +kernel
  obtain ⟨w,hw,he⟩ := holds_iff.mp hr
  obtain ⟨w',hw',hdc⟩ := holds_iff.mp he
  obtain ⟨hd,hk⟩ := deliverOpen_keeps hw'
  exact ⟨w,w',reachable_deliverOpen hw,hd,hk,of_decide_eq_true hdc⟩

variable {E : Env} {w w' : World} {b : BtcLightClient.State} {s₀ : State} {k k' : Keepers} {e : Nat}

/-- Before a block ends, every confirmed epoch has an anchored submission. -/
def ConfirmedAnchored (w : World) (a : Action) : Prop :=
  a = .endBlock → ∀ e, w.keepers.btccheckpoint.statusOf e = .Confirmed →
    ∃ sk, w.keepers.btccheckpoint.Anchored w.btclc e sk

structure StatusInv (k : Keepers) : Prop where
  busy : ∀ e, k.btccheckpoint.keysOf e ≠ [] →
    k.checkpointing.statusAt e = some (k.btccheckpoint.statusOf e).toCheckpointStatus
  idle : ∀ e, k.btccheckpoint.keysOf e = [] → k.btccheckpoint.statusOf e = .Submitted ∧
    ∀ st, k.checkpointing.statusAt e = some st → st = .Sealed
  last : k.checkpointing.lastFinalizedEpoch = k.btccheckpoint.lastFinalizedEpoch

theorem raiseStatus_agrees {cur : BtcStatus} (best : BtcStatus) (hcr : cur ≠ .Finalized)
    (hst : k.checkpointing.statusAt e = some cur.toCheckpointStatus)
    (hl : k.checkpointing.lastFinalizedEpoch = k.btccheckpoint.lastFinalizedEpoch) :
    (∀ e', (k.raiseStatus e cur best).1.checkpointing.statusAt e' =
        if e' = e then some (k.raiseStatus e cur best).2.toCheckpointStatus
        else k.checkpointing.statusAt e') ∧
      (k.raiseStatus e cur best).1.checkpointing.lastFinalizedEpoch =
        (k.raiseStatus e cur best).1.btccheckpoint.lastFinalizedEpoch := by
  have hs : ∀ e', k.checkpointing.statusAt e' =
      if e' = e then some cur.toCheckpointStatus else k.checkpointing.statusAt e' := by
    intro e'
    split
    · rename_i he
      rw [he,hst]
    · rfl
  cases cur with
  | Finalized => exact absurd rfl hcr
  | Submitted =>
    obtain ⟨hl₁,hg₁⟩ := State.moveStatus_of_mem .Confirmed hst
      (mem_singleton_self CheckpointStatus.Submitted)
    have hc : (k.checkpointing.setCheckpointConfirmed e).statusAt e = some .Confirmed :=
      (hg₁ e).trans (if_pos rfl)
    cases best with
    | Submitted => exact ⟨hs,hl⟩
    | Confirmed => exact ⟨hg₁,hl₁.trans hl⟩
    | Finalized =>
      obtain ⟨hl₂,hg₂⟩ := State.setCheckpointFinalized_of_confirmed hc
      refine ⟨?_,hl₂⟩
      intro e'
      refine (hg₂ e').trans ?_
      by_cases he : e' = e
      · rw [if_pos he,if_pos he]
        rfl
      · rw [if_neg he,if_neg he]
        exact (hg₁ e').trans (if_neg he)
  | Confirmed =>
    cases best with
    | Submitted => exact ⟨hs,hl⟩
    | Confirmed => exact ⟨hs,hl⟩
    | Finalized =>
      obtain ⟨hl₂,hg₂⟩ := State.setCheckpointFinalized_of_confirmed hst
      exact ⟨hg₂,hl₂⟩

theorem StatusInv.set (h : StatusInv k) {x : EpochData}
    (hd : ∀ e', k'.btccheckpoint.dataOf e' = if e' = e then x else k.btccheckpoint.dataOf e')
    (hg : ∀ e', e' ≠ e → k'.checkpointing.statusAt e' = k.checkpointing.statusAt e')
    (hb : x.keys ≠ [] → k'.checkpointing.statusAt e = some x.status.toCheckpointStatus)
    (hi : x.keys = [] → x.status = .Submitted ∧
      ∀ st, k'.checkpointing.statusAt e = some st → st = .Sealed)
    (hl : k'.checkpointing.lastFinalizedEpoch = k'.btccheckpoint.lastFinalizedEpoch) :
    StatusInv k' := by
  constructor
  · intro e' hn
    rw [keysOf,hd] at hn
    rw [State.statusOf,hd]
    by_cases he : e' = e
    · rw [if_pos he] at hn ⊢
      rw [he]
      exact hb hn
    · rw [if_neg he] at hn ⊢
      rw [hg e' he]
      exact h.busy e' hn
  · intro e' hnl
    rw [keysOf,hd] at hnl
    rw [State.statusOf,hd]
    by_cases he : e' = e
    · rw [if_pos he] at hnl ⊢
      rw [he]
      exact hi hnl
    · rw [if_neg he] at hnl ⊢
      rw [hg e' he]
      exact h.idle e' hnl
  · exact hl

theorem EpochOutcome.statusInv (hk : StatusInv k) (hdt : k.btccheckpoint.dataOf e = s₀.dataOf e)
    (hn : s₀.keysOf e ≠ []) (hcn : s₀.statusOf e = .Confirmed → ∃ sk, s₀.Anchored b e sk)
    (h : EpochOutcome b s₀ e (s₀.dataOf e) k k') : StatusInv k' := by
  have hs : k.checkpointing.statusAt e = some (s₀.statusOf e).toCheckpointStatus := by
    have := hk.busy e (by rw [keysOf,hdt]; exact hn)
    rwa [State.statusOf,hdt] at this
  cases h with
  | finalized _ _ _ => exact hk
  | forgotten ho hnn =>
    -- A confirmed epoch is not forgotten here, so the one that is was submitted.
    have hsb : s₀.statusOf e = .Submitted := by
      cases hcr : s₀.statusOf e with
      | Submitted => rfl
      | Confirmed =>
        obtain ⟨sk,hsk⟩ := hcn hcr
        exact absurd hsk (hnn sk)
      | Finalized => exact absurd hcr ho
    rw [hsb] at hs
    obtain ⟨hl,hg⟩ := State.moveStatus_of_mem .Sealed hs
      (mem_cons_self (l := [CheckpointStatus.Confirmed]))
    have hbt := forgetEpoch_btccheckpoint k e (s₀.dataOf e)
    refine hk.set (e := e) (x := { s₀.dataOf e with keys := [] }) ?_ ?_ ?_ ?_ ?_
    · intro e'
      rw [hbt]
      exact dataOf_set
    · exact fun e' he => (hg e').trans (if_neg he)
    · simp
    · intro _
      refine ⟨hsb,?_⟩
      intro st hs'
      have hsd := (hg e).trans (if_pos rfl)
      exact (Option.some.inj (hsd.symm.trans hs')).symm
    · rw [hbt]
      exact hl.trans hk.last
  | @kept c best ho hc hb =>
    obtain ⟨hg,hl⟩ := raiseStatus_agrees (k.btccheckpoint.checkSubmissionStatus best)
      ho hs hk.last
    rw [raiseStatus_btccheckpoint _ ho] at hl
    have hot : ∀ e', e' ≠ e →
        (k.applyEpochChanges e (s₀.dataOf e) c best).checkpointing.statusAt e' =
        k.checkpointing.statusAt e' := by
      intro e' he
      rw [applyEpochChanges_checkpointing]
      exact (hg e').trans (if_neg he)
    have hsl : (k.applyEpochChanges e (s₀.dataOf e) c best).checkpointing.statusAt e =
        some (k.raiseStatus e (s₀.dataOf e).status
          (k.btccheckpoint.checkSubmissionStatus best)).2.toCheckpointStatus := by
      rw [applyEpochChanges_checkpointing]
      exact (hg e).trans (if_pos rfl)
    by_cases hd : k.btccheckpoint.params.checkpointFinalizationTimeout ≤ best.youngestBlockDepth
    · have hf := checkSubmissionStatus_finalized.mpr hd
      have hbt := applyEpochChanges_deep (k := k) (e := e) (c := c) ho hd
      refine hk.set (e := e) (x := ⟨[best.submissionKey],.Finalized⟩) ?_ hot ?_ (by simp) ?_
      · intro e'
        rw [hbt]
        exact dataOf_set
      · intro _
        rw [hsl,(raiseStatus_finalized _ ho).mpr hf]
      · rw [applyEpochChanges_checkpointing,hl,if_pos hf,hbt]
    · have hf : k.btccheckpoint.checkSubmissionStatus best ≠ .Finalized :=
        fun h => hd (checkSubmissionStatus_finalized.mp h)
      obtain ⟨st,hs', -,hbt⟩ := applyEpochChanges_shallow (k := k) (e := e) (c := c) ho hd
      have hkp : c.submissionsToKeep ≠ [] := by
        have hm := (hc.keep _).mpr (hc.best best hb).mem
        exact ne_nil_of_mem hm
      refine hk.set (e := e) (x := ⟨c.submissionsToKeep,st⟩) ?_ hot ?_ (absurd · hkp) ?_
      · intro e'
        rw [hbt]
        exact dataOf_set
      · intro _
        rw [hsl,hs']
      · rw [applyEpochChanges_checkpointing,hl,if_neg hf,hbt]

theorem Pass.statusInv (hr : PassReady b s₀) (hp : PassPoint s₀ k.btccheckpoint e)
    (hk : StatusInv k) (hc : ∀ e, s₀.statusOf e = .Confirmed → ∃ sk, s₀.Anchored b e sk)
    (h : Pass b s₀ e k k') : StatusInv k' := by
  induction h with
  | done _ => exact hk
  | @epoch e k k₁ k' hn ho _ ih =>
    have hd := hp.data (e+1) (Nat.lt_succ_self e)
    obtain ⟨hf, -⟩ := ho.settled hd hp.params (hr.anchored (e+1))
    exact ih (hp.next hf) (ho.statusInv hk hd hn (hc (e+1)))

theorem StatusInv.submit (hk : StatusInv k) {sk : SubmissionKey} {sd : SubmissionData}
    (hck : ∃ c, k.checkpointing.checkpoints.get e = some c) :
    StatusInv (k.addEpochSubmission e (k.btccheckpoint.dataOf e) sk sd) := by
  have hkp : ∀ e',
      (k.addEpochSubmission e (k.btccheckpoint.dataOf e) sk sd).btccheckpoint.dataOf e' =
      if e' = e then { k.btccheckpoint.dataOf e with
        keys := (k.btccheckpoint.dataOf e).keys ++ [sk] }
      else k.btccheckpoint.dataOf e' :=
    fun e' => getD_set _ _ _ _ _
  by_cases hnl : (k.btccheckpoint.dataOf e).keys = []
  · -- The first submission of the epoch finds its checkpoint sealed.
    obtain ⟨hsb,hsl⟩ := hk.idle e hnl
    obtain ⟨c,hc⟩ := hck
    have hst : k.checkpointing.statusAt e = some .Sealed := by
      have hso : k.checkpointing.statusAt e = some c.status := by simp [State.statusAt,hc]
      rw [hso,hsl _ hso]
    obtain ⟨hl,hg⟩ := State.moveStatus_of_mem .Submitted hst
      (mem_singleton_self CheckpointStatus.Sealed)
    have hn : (k.addEpochSubmission e (k.btccheckpoint.dataOf e) sk sd).checkpointing =
        k.checkpointing.setCheckpointSubmitted e := by simp [Keepers.addEpochSubmission,hnl]
    refine hk.set hkp ?_ ?_ (by simp) ?_
    · intro e' he
      rw [hn]
      exact (hg e').trans (if_neg he)
    · intro _
      rw [hn]
      refine ((hg e).trans (if_pos rfl)).trans ?_
      rw [State.statusOf] at hsb
      rw [hsb]
      rfl
    · rw [hn]
      exact hl.trans hk.last
  · have hs : (k.addEpochSubmission e (k.btccheckpoint.dataOf e) sk sd).checkpointing =
        k.checkpointing := by simp [Keepers.addEpochSubmission,hnl]
    refine hk.set hkp ?_ ?_ (by simp) ?_
    · exact fun e' _ => by rw [hs]
    · intro _
      rw [hs]
      exact hk.busy e hnl
    · rw [hs]
      exact hk.last

theorem statusInv_step {a : Action} (hw : Timeline w) (hk : StatusInv w.keepers)
    (hsp : deliver E w a = .ok w') (hc : ConfirmedAnchored w a) : StatusInv w'.keepers := by
  cases deliver_effect hsp with
  | headers _ => exact hk
  | conflict => exact ⟨hk.busy,hk.idle,hk.last⟩
  | submit ha => exact hk.submit ha.checkpoint
  | params _ => exact ⟨hk.busy,hk.idle,hk.last⟩
  | @sealed ckpt _ hsl hnw =>
    -- An epoch whose checkpoint is new has no submissions yet.
    have hn : w.keepers.btccheckpoint.keysOf ckpt.ckpt.epochNum = [] := by
      by_contra hne
      have hb := hk.busy _ hne
      simp [State.statusAt,hnw] at hb
    obtain ⟨hsb, -⟩ := hk.idle _ hn
    refine hk.set (e := ckpt.ckpt.epochNum) (x := w.keepers.btccheckpoint.dataOf ckpt.ckpt.epochNum)
      ?_ ?_ (absurd hn) ?_ hk.last
    · intro e'
      split
      · rename_i he
        rw [he]
      · rfl
    · intro e' he
      rw [State.statusAt,get_set_ne _ _ he]
      rfl
    · intro _
      refine ⟨hsb,?_⟩
      intro st hs
      rw [State.statusAt,get_set_self,Option.map_some,hsl] at hs
      exact (Option.some.inj hs).symm
  | @pass k hu h =>
    have hp := checkCheckpoints_pass hw.ready.contiguous hw.ready.zero
      hw.ready.lastFinalized.status (fun e sk hs hky => (hw.ready.anchored e sk hs hky).1) h
    exact hp.statusInv hw.ready ⟨fun _ _ => rfl,rfl,hw.ready.zero⟩ hk (hc rfl)
  | quiet _ => exact hk

theorem statusInv_genesis (h : Genesis w) : StatusInv w.keepers := by
  have hd : ∀ e, w.keepers.btccheckpoint.dataOf e = newEmptyEpochData := by
    simp [dataOf,KVStore.getD,h.noEpochs]
  constructor
  · simp [keysOf,hd,newEmptyEpochData]
  · simp [State.statusOf,hd,newEmptyEpochData,State.statusAt,h.noCheckpoints]
  · rw [h.noFinalizedCheckpoint,h.noFinalized]

/-- The statuses agree in every run whose reorganisations spare the finalized submissions and whose
blocks leave no confirmed epoch without an anchored submission. -/
theorem statusAgrees_reachable
    (h : ((timestamping E).restrict
      (fun w a w' => KeepsFinalized w a w' ∧
      ConfirmedAnchored w a)).Reachable w) : StatusAgrees w := by
  have hi : Timeline w ∧ StatusInv w.keepers := by
    induction h with
    | init h0 => exact ⟨timeline_genesis h0,statusInv_genesis h0⟩
    | step _ hs ih =>
      exact ⟨timeline_step ih.1 hs.1 hs.2.1,statusInv_step ih.1 ih.2 hs.1 hs.2.2⟩
  exact ⟨hi.2.busy,hi.2.last⟩

theorem confirmedAnchored_of_test {a : Action} (h : Regtest.firstOnChain w = true) :
    ConfirmedAnchored w a := by
  intro _ e hs
  cases he : w.keepers.btccheckpoint.epochData.get e with
  | none => simp [State.statusOf,dataOf,KVStore.getD,he,newEmptyEpochData] at hs
  | some ed =>
    obtain ⟨sk, -,ha⟩ := firstOnChain_spec h he
    exact ⟨sk,ha⟩

namespace Regtest

/-- An epoch that is submitted, confirmed and finalized. -/
def buried : List Action :=
  [.sealCheckpoint (checkpoint 1),insert [block 101 100 1 1,block 102 101 1 0],
    submit (block 101 100 1 1) 1 0 1,.endBlock,
    insert [block 103 102 1 0,block 104 103 1 0],.endBlock]

end Regtest

theorem statusAgrees_reachable_buried :
    ∃ w, StatusAgrees w ∧ w.keepers.btccheckpoint.statusOf 1 = .Finalized ∧
      w.keepers.btccheckpoint.keysOf 1 ≠ [] := by
  have hr : holds (buried.foldlM (deliverTested firstOnChain) genesis)
      (fun w => decide (w.keepers.btccheckpoint.statusOf 1 = .Finalized ∧
        w.keepers.btccheckpoint.keysOf 1 ≠ [])) = true := by decide +kernel
  obtain ⟨w,hw,hd⟩ := holds_iff.mp hr
  exact ⟨w,statusAgrees_reachable
    (reachable_deliverTested (fun _ _ => confirmedAnchored_of_test) hw),of_decide_eq_true hd⟩

end AnonChain.BtcCheckpoint
