import AnonChain.Safety.EpochAncestry

/-! The stored submissions against the keys of the epochs. A finalizing pass deletes by position. -/

namespace AnonChain.BtcCheckpoint

open Lib List State BtcCheckpoint.Regtest

/-- Data is stored for exactly the listed submissions. -/
def StoreMatches (w : World) : Prop :=
  ∀ sk, (w.keepers.btccheckpoint.submissions.get sk).isSome ↔
    ∃ e, sk ∈ w.keepers.btccheckpoint.keysOf e

/-- Each finalized epoch of `w'` keeps the best of the anchored submissions it had in `w`, and the
data of that submission. -/
def FinalizedKeepsBest (w w' : World) : Prop :=
  ∀ e, w'.keepers.btccheckpoint.statusOf e = .Finalized →
    ∃ best, w'.keepers.btccheckpoint.keysOf e = [best.submissionKey] ∧
      IsBest w.btclc (w.keepers.btccheckpoint.Anchored w.btclc e) best ∧
      (w'.keepers.btccheckpoint.submissions.get best.submissionKey).isSome

namespace Regtest

/-- The first of two submissions loses its block in the same block in which the second one gets deep
enough. -/
def firstDropped : List Action :=
  [.sealCheckpoint (checkpoint 1),insert [block 101 100 1 1,block 102 101 1 1],
    submit (block 102 101 1 1) 1 0 1,submit (block 101 100 1 1) 1 0 1,.endBlock,
    insert [block 112 101 1 0,block 113 112 1 0,block 114 113 1 0]]

def keptKey : SubmissionKey := [⟨0,writeBE 32 101⟩,⟨1,writeBE 32 101⟩]
def droppedKey : SubmissionKey := [⟨0,writeBE 32 102⟩,⟨1,writeBE 32 102⟩]

end Regtest

/-- The data of the finalized submission is gone and that of the dropped one is still there. -/
theorem firstDropped_deletes_best :
    ∃ w w', ((timestamping Regtest.env).restrict KeepsFinalized).Reachable w ∧
      deliver Regtest.env w .endBlock = .ok w' ∧ KeepsFinalized w .endBlock w' ∧
      w'.keepers.btccheckpoint.statusOf 1 = .Finalized ∧
      w'.keepers.btccheckpoint.keysOf 1 = [Regtest.keptKey] ∧
      w'.keepers.btccheckpoint.submissions.get Regtest.keptKey = none ∧
      (w'.keepers.btccheckpoint.submissions.get Regtest.droppedKey).isSome ∧ ¬ StoreMatches w' := by
  have hr : holds (firstDropped.foldlM deliverOpen genesis) (fun w =>
      holds (deliverOpen w .endBlock) (fun w' =>
        decide (w'.keepers.btccheckpoint.statusOf 1 = .Finalized ∧
          w'.keepers.btccheckpoint.keysOf 1 = [keptKey] ∧
          (w'.keepers.btccheckpoint.submissions.get keptKey).isNone ∧
          (w'.keepers.btccheckpoint.submissions.get droppedKey).isSome))) = true := by
    decide +kernel
  obtain ⟨w,hw,he⟩ := holds_iff.mp hr
  obtain ⟨w',hw',hdc⟩ := holds_iff.mp he
  obtain ⟨hd,hkp⟩ := deliverOpen_keeps hw'
  obtain ⟨hst,hk,hn,hs⟩ := of_decide_eq_true hdc
  rw [Option.isNone_iff_eq_none] at hn
  refine ⟨w,w',reachable_deliverOpen hw,hd,hkp,hst,hk,hn,hs,?_⟩
  intro hm
  have hsr := (hm keptKey).mpr ⟨1,by simp [hk]⟩
  simp [hn] at hsr

variable {E : Env} {w w' : World} {b : BtcLightClient.State} {s₀ s : State}
  {k k' : Keepers} {e : Nat}

/-- Before a block ends, an epoch with an anchored submission as deep as the finalization timeout
has an anchored submission in its first position. -/
def FirstAnchored (w : World) (a : Action) : Prop :=
  a = .endBlock → ∀ e, w.keepers.btccheckpoint.statusOf e ≠ .Finalized →
    (∃ sk, w.keepers.btccheckpoint.Anchored w.btclc e sk ∧
      Deep w.btclc w.keepers.btccheckpoint.params.checkpointFinalizationTimeout sk) →
    ∃ sk, (w.keepers.btccheckpoint.keysOf e).head? = some sk ∧
      w.keepers.btccheckpoint.Anchored w.btclc e sk

/-- The stored data names the one epoch that lists its key. -/
structure StoreInv (s : State) : Prop where
  stored : ∀ sk sd, s.submissions.get sk = some sd → sk ∈ s.keysOf sd.epoch
  listed : ∀ e, ∀ sk ∈ s.keysOf e, ∃ sd, s.submissions.get sk = some sd ∧ sd.epoch = e
  nodup : ∀ e, (s.keysOf e).Nodup

theorem StoreInv.not_mem (h : StoreInv s) {e e' : Nat} (he : e' ≠ e) {sk : SubmissionKey}
    (hsk : sk ∈ s.keysOf e') : sk ∉ s.keysOf e := by
  intro hi
  obtain ⟨sd,hs,rfl⟩ := h.listed e' sk hsk
  obtain ⟨sd',hs',rfl⟩ := h.listed e sk hi
  rw [hs,Option.some.injEq] at hs'
  exact he (congrArg SubmissionData.epoch hs')

theorem StoreInv.shrink (h : StoreInv s) {x : EpochData} {del : List SubmissionKey}
    {p : Params} {n : Nat}
    (hsb : x.keys.Sublist (s.keysOf e)) (hd : ∀ sk, sk ∈ del ↔ sk ∈ s.keysOf e ∧ sk ∉ x.keys) :
    StoreInv ⟨p,s.epochData.set e x,(del.foldl State.deleteSubmission s).submissions,n⟩ := by
  have hk : ∀ e', keysOf ⟨p,s.epochData.set e x,
      (del.foldl deleteSubmission s).submissions,
      n⟩ e' = if e' = e then x.keys else s.keysOf e' := by
    intro e'
    rw [keysOf,dataOf_set]
    split <;> rfl
  constructor
  · intro sk sd hsd
    simp only [get_deleteSubmissions] at hsd
    split at hsd
    · simp at hsd
    · rename_i hn
      have hi := h.stored sk sd hsd
      rw [hk]
      split
      · rename_i he
        rw [he] at hi
        by_contra ho
        exact hn ((hd sk).mpr ⟨hi,ho⟩)
      · exact hi
  · intro e' sk hs
    rw [hk] at hs
    simp only [get_deleteSubmissions]
    split at hs
    · rename_i he
      rw [if_neg (fun hi => ((hd sk).mp hi).2 hs),he]
      exact h.listed e sk (hsb.subset hs)
    · rename_i he
      rw [if_neg (fun hi => h.not_mem he hs ((hd sk).mp hi).1)]
      exact h.listed e' sk hs
  · intro e'
    rw [hk]
    split
    · exact (h.nodup e).sublist hsb
    · exact h.nodup e'

theorem mem_keysExcept_of_nodup {keys : List SubmissionKey} (hnd : keys.Nodup) {idx : Nat}
    {key : SubmissionKey} (hi : keys[idx]? = some key) (sk : SubmissionKey) :
    sk ∈ keysExcept idx 0 keys ↔ sk ∈ keys ∧ sk ∉ [key] := by
  rw [mem_keysExcept,mem_singleton]
  constructor
  · intro h
    obtain ⟨n,hn,hne⟩ := h
    refine ⟨mem_of_getElem? hn,?_⟩
    intro he
    subst he
    exact hne ((List.getElem?_inj (List.getElem?_eq_some_iff.mp hn).1 hnd).mp (hn.trans hi.symm))
  · intro h
    obtain ⟨n,hn⟩ := mem_iff_getElem?.mp h.1
    refine ⟨n,hn,?_⟩
    intro he
    rw [he,hi,Option.some.injEq] at hn
    exact h.2 hn.symm

theorem EpochOutcome.storeInv (hk : StoreInv k.btccheckpoint)
    (hdt : k.btccheckpoint.dataOf e = s₀.dataOf e)
    (hf : (∃ sk, s₀.Anchored b e sk ∧
        Deep b k.btccheckpoint.params.checkpointFinalizationTimeout sk) →
      s₀.statusOf e ≠ .Finalized → ∃ sk, (s₀.keysOf e).head? = some sk ∧ s₀.Anchored b e sk)
    (h : EpochOutcome b s₀ e (s₀.dataOf e) k k') : StoreInv k'.btccheckpoint := by
  have hky : k.btccheckpoint.keysOf e = (s₀.dataOf e).keys := by rw [keysOf,hdt]
  cases h with
  | finalized _ _ _ => exact hk
  | forgotten _ _ =>
    rw [forgetEpoch_btccheckpoint]
    refine hk.shrink (nil_sublist _) ?_
    simp [hky]
  | @kept c best ho hc hb =>
    have his := hc.isBest hb
    by_cases hd : k.btccheckpoint.params.checkpointFinalizationTimeout ≤ best.youngestBlockDepth
    · -- The first key is kept, so the position of the best submission is right.
      have hi := hc.idx best hb (hf ((exists_deep_iff his).mpr hd) ho)
      rw [applyEpochChanges_deep ho hd]
      refine hk.shrink ?_ ?_
      · rw [hky]
        exact singleton_sublist.mpr (mem_of_getElem? hi)
      · intro sk
        rw [hky]
        exact mem_keysExcept_of_nodup (hky ▸ hk.nodup e) hi sk
    · obtain ⟨st, -, -,hbt⟩ := applyEpochChanges_shallow (k := k) (e := e) (c := c) ho hd
      rw [hbt]
      refine hk.shrink ?_ ?_
      · rw [hky]
        exact hc.sublist
      · intro sk
        rw [hky,hc.delete,hc.keep]
        grind

theorem Pass.storeInv (hr : PassReady b s₀) (hp : PassPoint s₀ k.btccheckpoint e)
    (hk : StoreInv k.btccheckpoint)
    (hf : ∀ e, s₀.statusOf e ≠ .Finalized → (∃ sk, s₀.Anchored b e sk ∧
        Deep b s₀.params.checkpointFinalizationTimeout sk) →
      ∃ sk, (s₀.keysOf e).head? = some sk ∧ s₀.Anchored b e sk)
    (h : Pass b s₀ e k k') : StoreInv k'.btccheckpoint := by
  induction h with
  | done _ => exact hk
  | @epoch e k k₁ k' hn hot _ ih =>
    have hd := hp.data (e+1) (Nat.lt_succ_self e)
    obtain ⟨hfr, -⟩ := hot.settled hd hp.params (hr.anchored (e+1))
    refine ih (hp.next hfr) (hot.storeInv hk hd ?_)
    rw [hp.params]
    exact fun hdp ho => hf (e+1) ho hdp

theorem StoreInv.submit (h : StoreInv s) {sk : SubmissionKey} {sd : SubmissionData}
    (hs : sd.epoch = e) (hf : s.submissions.get sk = none) :
    StoreInv ((s.saveEpochData e { s.dataOf e with keys := (s.dataOf e).keys ++
      [sk] }).saveSubmission
      sk sd) := by
  have hk : ∀ e', keysOf ((s.saveEpochData e
      { s.dataOf e with keys := (s.dataOf e).keys ++ [sk] }).saveSubmission sk sd) e' =
      if e' = e then s.keysOf e ++ [sk] else s.keysOf e' := by
    intro e'
    rw [keysOf,saveSubmission,saveEpochData,dataOf_set]
    split <;> rfl
  have hn : ∀ e', sk ∉ s.keysOf e' := by
    intro e' hi
    obtain ⟨sd',hs', -⟩ := h.listed e' sk hi
    simp [hf] at hs'
  constructor
  · intro q sd' hq
    rw [hk]
    rcases KVStore.get_set_cases hq with ⟨rfl,rfl⟩ | ⟨_,hq⟩
    · rw [if_pos hs]
      simp
    · have hi := h.stored q sd' hq
      split
      · rename_i he
        exact mem_append_left _ (he ▸ hi)
      · exact hi
  · intro e' q hq
    rw [hk] at hq
    simp only [saveSubmission,saveEpochData,KVStore.get_set]
    by_cases heq : q = sk
    · rw [if_pos heq]
      refine ⟨sd,rfl,?_⟩
      by_contra he
      rw [if_neg (fun h' => he (hs.trans h'.symm)),heq] at hq
      exact hn e' hq
    · rw [if_neg heq]
      split at hq
      · rename_i he
        rw [he]
        exact h.listed e q (by simpa [heq] using hq)
      · exact h.listed e' q hq
  · intro e'
    rw [hk]
    split
    · exact nodup_append.mpr ⟨h.nodup e,nodup_singleton sk,by
        intro a ha c hc heq
        rw [mem_singleton] at hc
        exact hn e (hc ▸ heq ▸ ha)⟩
    · exact h.nodup e'

theorem storeInv_step {a : Action} (hw : Timeline w) (hk : StoreInv w.keepers.btccheckpoint)
    (hs : deliver E w a = .ok w') (hf : FirstAnchored w a) : StoreInv w'.keepers.btccheckpoint := by
  cases deliver_effect hs with
  | headers _ => exact hk
  | conflict => exact hk
  | submit ha => exact hk.submit rfl ha.fresh
  | params _ => exact ⟨hk.stored,hk.listed,hk.nodup⟩
  | sealed _ _ _ => exact hk
  | @pass k hu h =>
    have hp := checkCheckpoints_pass hw.ready.contiguous hw.ready.zero
      hw.ready.lastFinalized.status (fun e sk hst hky => (hw.ready.anchored e sk hst hky).1) h
    exact hp.storeInv hw.ready ⟨fun _ _ => rfl,rfl,hw.ready.zero⟩ hk (hf rfl)
  | quiet _ => exact hk

theorem StoreInv.matches (h : StoreInv w.keepers.btccheckpoint) : StoreMatches w := by
  intro sk
  constructor
  · intro hsm
    obtain ⟨sd,hs⟩ := Option.isSome_iff_exists.mp hsm
    exact ⟨sd.epoch,h.stored sk sd hs⟩
  · intro hex
    obtain ⟨e,he⟩ := hex
    obtain ⟨sd,hs, -⟩ := h.listed e sk he
    simp [hs]

theorem storeInv_genesis (h : Genesis w) : StoreInv w.keepers.btccheckpoint := by
  have hk : ∀ e, w.keepers.btccheckpoint.keysOf e = [] := by
    intro e
    exact keysOf_of_none (by simp [h.noEpochs])
  constructor
  · simp [h.noSubmissions]
  · simp [hk]
  · simp [hk]

theorem storeInv_reachable
    (h : ((timestamping E).restrict
      (fun w a w' => KeepsFinalized w a w' ∧ FirstAnchored w a)).Reachable w) :
    Timeline w ∧ StoreInv w.keepers.btccheckpoint := by
  induction h with
  | init h0 => exact ⟨timeline_genesis h0,storeInv_genesis h0⟩
  | step _ hs ih =>
    exact ⟨timeline_step ih.1 hs.1 hs.2.1,storeInv_step ih.1 ih.2 hs.1 hs.2.2⟩

theorem finalized_keeps_best (hw : Timeline w) (hsp : deliver E w .endBlock = .ok w') {e : Nat}
    (hst : w'.keepers.btccheckpoint.statusOf e = .Finalized) :
    ∃ best, w'.keepers.btccheckpoint.keysOf e = [best.submissionKey] ∧
      IsBest w.btclc (w.keepers.btccheckpoint.Anchored w.btclc e) best := by
  have hs : ∃ n, EpochSettled w.btclc (w.keepers.btccheckpoint.Anchored w.btclc e) n
      (w.keepers.btccheckpoint.dataOf e) (w'.keepers.btccheckpoint.dataOf e) := by
    cases deliver_effect hsp with
    | @pass k hu h => exact ⟨_,(checkCheckpoints_passed hw.ready h).settled e⟩
    | quiet _ =>
      obtain ⟨sk,hk⟩ := hw.ready.single e hst
      obtain ⟨ha,hn⟩ := hw.ready.anchored e sk hst hk
      exact ⟨0,.keep_finalized hst hk ha.mem.2 hn ha (fun q hq => hq.mem_keys)⟩
  obtain ⟨n,hs⟩ := hs
  obtain ⟨sk,hk⟩ := hs.single hst
  obtain ⟨best,hb,hi⟩ := hs.best sk (hs.anchored sk (by simp [hk]))
  rw [hk,mem_singleton] at hi
  exact ⟨best,hi ▸ hk,hb⟩

/-- After every block of a run that meets the conditions, data is stored for exactly the listed
submissions, and a finalized epoch keeps its best submission with its data. -/
theorem storeMatches_endBlock
    (h : ((timestamping E).restrict
      (fun w a w' => KeepsFinalized w a w' ∧ FirstAnchored w a)).Reachable w)
    (hstep : ((timestamping E).restrict
      (fun w a w' => KeepsFinalized w a w' ∧ FirstAnchored w a)).step w .endBlock w') :
    StoreMatches w' ∧ FinalizedKeepsBest w w' := by
  obtain ⟨hw,hk⟩ := storeInv_reachable h
  have hi := storeInv_step hw hk hstep.1 hstep.2.2
  refine ⟨hi.matches,?_⟩
  intro e hs
  obtain ⟨best,hky,hb⟩ := finalized_keeps_best hw hstep.1 hs
  exact ⟨best,hky,hb,(hi.matches _).mpr ⟨e,by simp [hky]⟩⟩

theorem firstAnchored_of_test {a : Action} (h : Regtest.firstOnChain w = true) :
    FirstAnchored w a := by
  intro _ e _ hd
  obtain ⟨sk,hs, -⟩ := hd
  have he := exists_of_keysOf_ne_nil (ne_nil_of_mem hs.mem.1)
  exact firstOnChain_spec h he

namespace Regtest

def secondDropped : List Action :=
  [.sealCheckpoint (checkpoint 1),insert [block 101 100 1 1,block 102 101 1 1],
    submit (block 101 100 1 1) 1 0 1,submit (block 102 101 1 1) 1 0 1,.endBlock,
    insert [block 112 101 1 0,block 113 112 1 0,block 114 113 1 0]]

end Regtest

theorem storeMatches_endBlock_dropped :
    ∃ w w', StoreMatches w' ∧ FinalizedKeepsBest w w' ∧
      w'.keepers.btccheckpoint.statusOf 1 = .Finalized ∧
      (w.keepers.btccheckpoint.keysOf 1).length = 2 := by
  have hr : holds (secondDropped.foldlM (deliverTested firstOnChain)
      genesis) (fun w => firstOnChain w && holds (deliverOpen w .endBlock) (fun w' =>
        decide (w'.keepers.btccheckpoint.statusOf 1 = .Finalized ∧
          (w.keepers.btccheckpoint.keysOf 1).length = 2))) = true := by decide +kernel
  obtain ⟨w,hw,ht⟩ := holds_iff.mp hr
  obtain ⟨hf,he⟩ := (Bool.and_eq_true _ _).mp ht
  obtain ⟨w',hw',hdc⟩ := holds_iff.mp he
  obtain ⟨hd,hk⟩ := deliverOpen_keeps hw'
  obtain ⟨hm,hb⟩ := storeMatches_endBlock
    (reachable_deliverTested (fun _ _ => firstAnchored_of_test) hw)
    ⟨hd,hk,firstAnchored_of_test hf⟩
  exact ⟨w,w',hm,hb,of_decide_eq_true hdc⟩

end AnonChain.BtcCheckpoint
