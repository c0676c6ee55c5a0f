import AnonChain.BtcCheckpoint.Regtest

/-! The epochs on the Bitcoin chain, over runs whose reorganisations spare the finalized
submissions. -/

namespace AnonChain.BtcCheckpoint

open Lib List KVStore State BtcCheckpoint.Regtest
open Checkpointing (State)

section

variable {b b' : BtcLightClient.State}

theorem mainChainDepth_eq_ok {hash : Hash} {d : Nat} :
    b.mainChainDepth hash = .ok d ↔ ∃ i tip, b.getHeaderByHash hash = .ok i ∧ b.getTip = some tip ∧
      i.height ≤ tip.height ∧ d = tip.height-i.height := by
  simp only [BtcLightClient.State.mainChainDepth,ok_iff]
  grind

theorem mainChainDepth_succeeds (hb : b.WF) {hash : Hash} {i : BtcLightClient.BTCHeaderInfo}
    (h : b.getHeaderByHash hash = .ok i) : ∃ d, b.mainChainDepth hash = .ok d := by
  obtain ⟨tip,ht, -,hm⟩ := hb.getTip_spec
  exact ⟨_,mainChainDepth_eq_ok.mpr
    ⟨i,tip,h,ht,hm _ _ (hb.getHeaderByHash_height h),rfl⟩⟩

theorem OnChain.move {sk : SubmissionKey} (hb : b'.WF) (hs : SameBlocks b b' sk)
    (h : OnChain b sk) : OnChain b' sk := by
  intro tk ht
  obtain ⟨d,hd⟩ := h tk ht
  obtain ⟨i,tip,hi, -⟩ := mainChainDepth_eq_ok.mp hd
  exact mainChainDepth_succeeds hb ((hs tk ht).trans hi)

theorem Before.move {p sk : SubmissionKey} (hp : SameBlocks b b' p) (hs : SameBlocks b b' sk)
    (hpn : OnChain b p) (hsn : OnChain b sk) (h : Before b p sk) : Before b' p sk := by
  intro tp htp tk htk dp' dk' hdp' hd'
  obtain ⟨dp,hdp⟩ := hpn tp htp
  obtain ⟨dk,hd⟩ := hsn tk htk
  have hl := h tp htp tk htk dp dk hdp hd
  obtain ⟨ip,tip,hip,ht,_,rfl⟩ := mainChainDepth_eq_ok.mp hdp
  obtain ⟨ik,tip₂,hi,ht₂,_,rfl⟩ := mainChainDepth_eq_ok.mp hd
  obtain ⟨ip',tip',hip',ht',_,rfl⟩ := mainChainDepth_eq_ok.mp hdp'
  obtain ⟨ik',tip₂',hi',ht₂',_,rfl⟩ := mainChainDepth_eq_ok.mp hd'
  rw [hp tp htp,hip,Except.ok.injEq] at hip'
  rw [hs tk htk,hi,Except.ok.injEq] at hi'
  rw [ht,Option.some.injEq] at ht₂
  rw [ht',Option.some.injEq] at ht₂'
  subst hip' hi' ht₂ ht₂'
  omega

end

section

variable {b : BtcLightClient.State} {s : State}

theorem PassReady.lastFinalized (h : PassReady b s) : LastFinalized s := by
  constructor
  · exact fun hp => (h.finalized _).mpr ⟨hp,Nat.le_refl _⟩
  · exact fun e he => ((h.finalized e).mp he).2

theorem PassReady.move {b' : BtcLightClient.State} (h : PassReady b s) (hb : b'.WF)
    (hk : ∀ e, s.statusOf e = .Finalized → ∀ sk ∈ s.keysOf e, SameBlocks b b' sk) :
    PassReady b' s := by
  refine ⟨h.zero,h.contiguous,h.single,h.finalized,?_⟩
  intro e sk hst hky
  obtain ⟨ha,hn⟩ := h.anchored e sk hst hky
  have hbl : ∀ i, 1 ≤ i → i ≤ e → s.statusOf i = .Finalized := by
    intro i hi hle
    have hl := ((h.finalized e).mp hst).2
    exact (h.finalized i).mpr ⟨hi,hle.trans hl⟩
  have hs : ∀ i m, i ≤ e → s.Anchored b i m → SameBlocks b b' m :=
    fun i m hle hm => hk i (hbl i hm.pos hle) m hm.mem.1
  refine ⟨Anchored.imp ha ?_ ?_,hn⟩
  · intro i m hle hm
    exact ⟨hm.mem.1,hm.mem.2.move hb (hs i m hle hm)⟩
  · intro i p m hlt hp hm hpm
    exact hpm.move (hs i p hlt.le hp) (hs (i+1) m hlt hm) hp.mem.2 hm.mem.2

theorem PassReady.submit (h : PassReady b s) {e : Nat} {sk : SubmissionKey}
    {subs : KVStore SubmissionKey SubmissionData} (hps : 1 ≤ e) (ho : s.statusOf e ≠ .Finalized)
    (ha : 2 ≤ e → s.keysOf (e-1) ≠ []) :
    PassReady b { s with
      epochData := s.epochData.set e { s.dataOf e with keys := (s.dataOf e).keys ++ [sk] }
      submissions := subs } := by
  have hd : ∀ e', dataOf { s with
      epochData := s.epochData.set e { s.dataOf e with keys := (s.dataOf e).keys ++ [sk] }
      submissions := subs } e' =
      if e' = e then { s.dataOf e with keys := (s.dataOf e).keys ++ [sk] } else s.dataOf e' :=
    fun e' => getD_set _ _ _ _ _
  constructor
  · rw [get_set_ne _ _ (by omega)]
    exact h.zero
  · constructor
    · rw [keysOf,hd,if_neg (by omega)]
      exact h.contiguous.1
    · intro n
      simp only [keysOf,hd]
      by_cases h1 : n+1 = e
      · simp [h1]
      · by_cases h2 : n+2 = e
        · have := ha (by omega)
          rw [show e-1 = n+1 by omega] at this
          rw [if_neg h1]
          exact fun _ => this
        · rw [if_neg h1,if_neg h2]
          exact h.contiguous.2 n
  · intro e'
    rw [hd]
    split
    · intro hs
      exact absurd hs ho
    · exact h.single e'
  · intro e'
    rw [hd,← h.finalized e']
    split
    · rename_i he
      rw [he]
    · rfl
  · intro e' q
    rw [hd]
    split
    · intro hs
      exact absurd hs ho
    · intro hs hk
      obtain ⟨han,hn⟩ := h.anchored e' q hs hk
      refine ⟨Anchored.imp han ?_ (fun _ _ _ _ _ _ hp => hp),hn⟩
      intro i m _ hm
      refine ⟨?_,hm.mem.2⟩
      rw [keysOf,hd]
      split
      · rename_i he
        exact mem_append_left _ (he ▸ hm.mem.1)
      · exact hm.mem.1

/-- After a pass every epoch holds what the anchored submissions before it call for. -/
theorem checkCheckpoints_settled {k k' : Keepers} (hr : PassReady b k.btccheckpoint)
    (h : checkCheckpoints b k = .ok k') :
    k'.btccheckpoint.epochData.get 0 = none ∧ LastFinalized k'.btccheckpoint ∧
      k'.btccheckpoint.params = k.btccheckpoint.params ∧
      ∀ e, EpochSettled b (k.btccheckpoint.Anchored b e)
        k.btccheckpoint.params.checkpointFinalizationTimeout (k.btccheckpoint.dataOf e)
        (k'.btccheckpoint.dataOf e) := by
  have hl := hr.lastFinalized
  have hps := checkCheckpoints_pass hr.contiguous hr.zero hl.status
    (fun e sk hs hk => (hr.anchored e sk hs hk).1) h
  have hp : PassPoint k.btccheckpoint k.btccheckpoint (k.btccheckpoint.lastFinalizedEpoch-1) :=
    ⟨fun _ _ => rfl,rfl,hr.zero⟩
  obtain ⟨hpr,hz,hold,hn⟩ := hps.settled hr hp
  refine ⟨hz,hps.lastFinalized hr hp hl (by omega),hpr,?_⟩
  intro e
  by_cases he : k.btccheckpoint.lastFinalizedEpoch-1 < e
  · exact hn e he
  · rw [hold e (by omega)]
    by_cases hpo : 1 ≤ e
    · -- The epochs before the last finalized one are finalized and stay as they are.
      have hs := (hr.finalized e).mpr ⟨hpo,by omega⟩
      obtain ⟨sk,hk⟩ := hr.single e hs
      obtain ⟨ha,hne⟩ := hr.anchored e sk hs hk
      exact .keep_finalized hs hk ha.mem.2 hne ha (fun q hq => hq.mem_keys)
    · obtain rfl : e = 0 := by omega
      exact .idle hr.contiguous.1 (fun q hq => hq.mem_keys) (hr.single 0)

end

section

variable {b : BtcLightClient.State} {s s' : State} {n : Nat} {e : Nat} {sk : SubmissionKey}

/-- The state a pass leaves, as it follows from the epochs one by one. -/
structure Passed (b : BtcLightClient.State) (s s' : State) : Prop where
  ready : PassReady b s
  zero : s'.epochData.get 0 = none
  last : LastFinalized s'
  params : s'.params = s.params
  settled : ∀ e, EpochSettled b (s.Anchored b e) s.params.checkpointFinalizationTimeout (s.dataOf e)
    (s'.dataOf e)

theorem Passed.keysOf_zero (h : Passed b s s') : s'.keysOf 0 = [] :=
  keysOf_of_none h.zero

theorem Passed.best_before (h : Passed b s s') (he : 1 ≤ e) (hs : sk ∈ s'.keysOf (e+1)) :
    ∃ i, IsBest b (s.Anchored b e) i ∧ i.submissionKey ∈ s'.keysOf e ∧
      Before b i.submissionKey sk := by
  obtain ⟨p,hp,hps⟩ := ((h.settled (e+1)).anchored sk hs).parent he
  obtain ⟨i,hb,hm⟩ := (h.settled e).best p hp
  exact ⟨i,hb,hm,hb.leads.leads p hp sk hps⟩

theorem Passed.contiguous (h : Passed b s s') : s'.Contiguous := by
  refine ⟨h.keysOf_zero,?_⟩
  intro e hn
  obtain ⟨sk,hs⟩ := exists_mem_of_ne_nil _ hn
  obtain ⟨i, -,hm, -⟩ := h.best_before (Nat.le_add_left 1 e) hs
  exact ne_nil_of_mem hm

theorem Passed.anchored_ne_nil (h : Passed b s s') (hs : s.Anchored b e sk) : sk ≠ [] := by
  obtain ⟨i,hb, -⟩ := (h.settled e).best sk hs
  obtain ⟨j,hj, -⟩ := hb.best sk hs
  obtain ⟨tk,ht, -⟩ := (getSubmissionBtcInfo_infoOf hj).youngest
  exact ne_nil_of_mem ht

theorem Passed.anchored (h : Passed b s s') (hs : sk ∈ s'.keysOf e) :
    s'.Anchored b e sk := by
  induction e generalizing sk with
  | zero =>
    rw [h.keysOf_zero] at hs
    simp at hs
  | succ e ih =>
    have ho := ((h.settled (e+1)).anchored sk hs).mem.2
    by_cases he : 1 ≤ e
    · obtain ⟨i, -,hm,hb⟩ := h.best_before he hs
      exact .next (ih hm) hb ⟨hs,ho⟩
    · obtain rfl : e = 0 := by omega
      exact .first ⟨hs,ho⟩

theorem Passed.finalized_below (h : Passed b s s') (he : 1 ≤ e)
    (hst : s'.statusOf (e+1) = .Finalized) : s'.statusOf e = .Finalized := by
  rcases (h.settled (e+1)).finalized.mp hst with hold | ⟨sk,hs,hd⟩
  · have hl := ((h.ready.finalized (e+1)).mp hold).2
    exact (h.settled e).finalized.mpr (.inl ((h.ready.finalized e).mpr ⟨he,by omega⟩))
  · obtain ⟨p,hp,hps⟩ := hs.parent he
    exact (h.settled e).finalized.mpr
      (.inr ⟨p,hp,hps.deep (h.anchored_ne_nil hs) hp.mem.2 hd⟩)

theorem Passed.finalized (h : Passed b s s') (e : Nat) :
    s'.statusOf e = .Finalized ↔ 1 ≤ e ∧ e ≤ s'.lastFinalizedEpoch := by
  constructor
  · intro hs
    refine ⟨?_,h.last.largest e hs⟩
    by_contra hp
    obtain rfl : e = 0 := by omega
    obtain ⟨sk,hsk⟩ := (h.settled 0).single hs
    have hk := h.keysOf_zero
    rw [keysOf,hsk] at hk
    simp at hk
  · intro hl
    have hdw : ∀ d, d < s'.lastFinalizedEpoch →
        s'.statusOf (s'.lastFinalizedEpoch-d) = .Finalized := by
      intro d
      induction d with
      | zero => exact fun hd => h.last.status hd
      | succ d ih =>
        intro hd
        refine h.finalized_below (by omega) ?_
        rw [show s'.lastFinalizedEpoch-(d+1)+1 = s'.lastFinalizedEpoch-d by omega]
        exact ih (by omega)
    have := hdw (s'.lastFinalizedEpoch-e) (by omega)
    rwa [show s'.lastFinalizedEpoch-(s'.lastFinalizedEpoch-e) = e by omega] at this

theorem Passed.next (h : Passed b s s') : PassReady b s' := by
  refine ⟨h.zero,h.contiguous,fun e => (h.settled e).single,h.finalized,?_⟩
  intro e sk hst hk
  have hs : sk ∈ s'.keysOf e := by simp [keysOf,hk]
  exact ⟨h.anchored hs,h.anchored_ne_nil ((h.settled e).anchored sk hs)⟩

end

section

variable {E : Env} {w w' : World} {b : BtcLightClient.State} {k k' : Keepers}

structure Timeline (w : World) : Prop where
  wf : w.btclc.WF
  ready : PassReady w.btclc w.keepers.btccheckpoint
  noZero : w.keepers.checkpointing.statusAt 0 = none

theorem timeline_genesis (h : Genesis w) : Timeline w := by
  have hd : ∀ e, w.keepers.btccheckpoint.dataOf e = newEmptyEpochData := by
    simp [dataOf,KVStore.getD,h.noEpochs]
  refine ⟨h.btclc,⟨?_,⟨?_,?_⟩,?_,?_,?_⟩,?_⟩
  · simp [h.noEpochs]
  · simp [keysOf,hd,newEmptyEpochData]
  · simp [keysOf,hd,newEmptyEpochData]
  · simp [hd,newEmptyEpochData]
  · intro e
    simp only [hd,newEmptyEpochData,h.noFinalized]
    constructor
    · intro hs
      cases hs
    · omega
  · simp [hd,newEmptyEpochData]
  · simp [State.statusAt,h.noCheckpoints]

theorem EpochOutcome.statusAt_none {s₀ : State} {e e' : Nat} {ed : EpochData}
    (h : EpochOutcome b s₀ e ed k k') (hn : k.checkpointing.statusAt e' = none) :
    k'.checkpointing.statusAt e' = none := by
  cases h with
  | finalized _ _ _ => exact hn
  | forgotten _ _ => exact State.moveStatus_none _ hn
  | @kept c best hs _ _ =>
    rw [applyEpochChanges_checkpointing]
    cases hc : ed.status <;> cases hb : k.btccheckpoint.checkSubmissionStatus best <;>
      simp [Keepers.raiseStatus,BtcStatus.toNat,Keepers.confirmEpoch,Keepers.finalizeEpoch,
        State.moveStatus_none,State.setCheckpointFinalized_none,State.setCheckpointConfirmed,hn]

theorem Pass.statusAt_none {s₀ : State} {e e' : Nat} (h : Pass b s₀ e k k')
    (hn : k.checkpointing.statusAt e' = none) : k'.checkpointing.statusAt e' = none := by
  induction h with
  | done _ => exact hn
  | epoch _ ho _ ih => exact ih (ho.statusAt_none hn)

theorem checkCheckpoints_passed (hr : PassReady b k.btccheckpoint)
    (h : checkCheckpoints b k = .ok k') : Passed b k.btccheckpoint k'.btccheckpoint := by
  obtain ⟨hz,hl,hp,hs⟩ := checkCheckpoints_settled hr h
  exact ⟨hr,hz,hl,hp,hs⟩

theorem timeline_step {a : Action} (hw : Timeline w) (hsp : deliver E w a = .ok w')
    (hk : KeepsFinalized w a w') : Timeline w' := by
  cases deliver_effect hsp with
  | @headers _ _ rb h =>
    have hwf := BtcLightClient.insertHeaders_wf hw.wf h
    exact ⟨hwf,hw.ready.move hwf hk,hw.noZero⟩
  | conflict => exact ⟨hw.wf,hw.ready,hw.noZero⟩
  | @submit _ raw ha =>
    have hp : 1 ≤ raw.checkpointData.epoch := by
      obtain ⟨c,hc⟩ := ha.checkpoint
      by_contra hz
      have hn := hw.noZero
      rw [show raw.checkpointData.epoch = 0 by omega] at hc
      simp [State.statusAt,hc] at hn
    refine ⟨hw.wf,hw.ready.submit hp ha.notFinalized ha.ancestor,?_⟩
    simp only [Keepers.addEpochSubmission]
    split
    · exact State.moveStatus_none _ hw.noZero
    · exact hw.noZero
  | params _ =>
    obtain ⟨hz,hcn,hs,hf,han⟩ := hw.ready
    exact ⟨hw.wf,⟨hz,hcn,hs,hf,han⟩,hw.noZero⟩
  | sealed hp _ _ =>
    refine ⟨hw.wf,hw.ready,?_⟩
    rw [State.statusAt,get_set_ne _ _ (by omega)]
    exact hw.noZero
  | @pass k hu h =>
    have hps := checkCheckpoints_pass hw.ready.contiguous hw.ready.zero
      hw.ready.lastFinalized.status (fun e sk hst hky => (hw.ready.anchored e sk hst hky).1) h
    exact ⟨hw.wf,(checkCheckpoints_passed hw.ready h).next,hps.statusAt_none hw.noZero⟩
  | quiet _ => exact ⟨hw.wf,hw.ready,hw.noZero⟩

theorem timeline_reachable (h : ((timestamping E).restrict KeepsFinalized).Reachable w) :
    Timeline w := by
  induction h with
  | init h0 => exact timeline_genesis h0
  | step _ hs ih => exact timeline_step ih hs.1 hs.2

end

variable {E : Env} {w w' : World} {b : BtcLightClient.State} {s s' : State}

theorem State.Contiguous.range (h : s.Contiguous) : ∃ m, ∀ e, s.keysOf e ≠ [] ↔ 1 ≤ e ∧ e ≤ m := by
  have hb : ∀ n, (∀ e, n < e → s.keysOf e = []) → ∃ m, ∀ e, s.keysOf e ≠ [] ↔ 1 ≤ e ∧ e ≤ m := by
    intro n
    induction n with
    | zero =>
      intro hnn
      refine ⟨0,fun e => ⟨fun hne => ?_,by omega⟩⟩
      cases e with
      | zero => exact absurd h.1 hne
      | succ e => exact absurd (hnn (e+1) (by omega)) hne
    | succ n ih =>
      intro hnn
      by_cases hn : s.keysOf (n+1) = []
      · refine ih (fun e he => ?_)
        by_cases heq : e = n+1
        · rw [heq]
          exact hn
        · exact hnn e (by omega)
      · refine ⟨n+1,fun e => ⟨fun hne => ⟨?_,?_⟩,fun he => h.below he.1 he.2 hn⟩⟩
        · by_contra hp
          exact hne ((show e = 0 by omega) ▸ h.1)
        · by_contra hlt
          exact hne (hnn e (by omega))
  cases hl : s.epochData.last with
  | none =>
    refine hb 0 (fun e _ => keysOf_of_none ?_)
    have : s.epochData.entries = [] := getLast?_eq_none_iff.mp hl
    simp [KVStore.get,this]
  | some x =>
    obtain ⟨-,hm⟩ := last_spec hl
    refine hb x.1 (fun e he => ?_)
    by_contra hne
    exact absurd (hm e _ (exists_of_keysOf_ne_nil hne)) (by omega)

/-- The submissions of all epochs on the main chain of the light client. -/
structure EpochAncestry (w : World) : Prop where
  range : ∃ m, w.keepers.btccheckpoint.lastFinalizedEpoch ≤ m ∧
    ∀ e, w.keepers.btccheckpoint.keysOf e ≠ [] ↔ 1 ≤ e ∧ e ≤ m
  finalized : ∀ e, w.keepers.btccheckpoint.statusOf e = .Finalized ↔
    1 ≤ e ∧ e ≤ w.keepers.btccheckpoint.lastFinalizedEpoch
  onChain : ∀ e, ∀ sk ∈ w.keepers.btccheckpoint.keysOf e, OnChain w.btclc sk
  ordered : ∀ e best, IsBest w.btclc (· ∈ w.keepers.btccheckpoint.keysOf e) best →
    ∀ sk ∈ w.keepers.btccheckpoint.keysOf (e+1), Before w.btclc best.submissionKey sk
  deep : ∀ e best, IsBest w.btclc (· ∈ w.keepers.btccheckpoint.keysOf e) best →
    w.keepers.btccheckpoint.params.checkpointFinalizationTimeout ≤ best.submissionDepth →
    ∀ e', 1 ≤ e' → e' ≤ e → w.keepers.btccheckpoint.statusOf e' = .Finalized

theorem Passed.ordered (h : Passed b s s') {e : Nat} {best : SubmissionBtcInfo}
    (hb : IsBest b (· ∈ s'.keysOf e) best) {sk : SubmissionKey} (hs : sk ∈ s'.keysOf (e+1)) :
    Before b best.submissionKey sk := by
  have he : 1 ≤ e := by
    by_contra hp
    have hm := hb.mem
    rw [show e = 0 by omega,h.keysOf_zero] at hm
    simp at hm
  obtain ⟨i,hi,hm,hbf⟩ := h.best_before he hs
  obtain ⟨j,hj,hn⟩ := hb.best _ hm
  exact hbf.of_deeper (getSubmissionBtcInfo_infoOf hj) (getSubmissionBtcInfo_infoOf hb.info)
    (depth_le_of_not_isBetterThan hn)

/-- After every block in which the light client changed, the epochs lie on the chain in order. -/
theorem epochAncestry_endBlock (h : ((timestamping E).restrict KeepsFinalized).Reachable w)
    (hup : w.btcLightClientUpdated = true) (hstep : deliver E w .endBlock = .ok w') :
    EpochAncestry w' := by
  have hw := timeline_reachable h
  cases deliver_effect hstep with
  | quiet hn => simp [hup] at hn
  | @pass k _ hk =>
    have hp := checkCheckpoints_passed hw.ready hk
    constructor
    · obtain ⟨m,hm⟩ := hp.contiguous.range
      refine ⟨m,?_,hm⟩
      by_cases hpo : 1 ≤ k.btccheckpoint.lastFinalizedEpoch
      · obtain ⟨sk,hs⟩ := (hp.settled _).single (hp.last.status hpo)
        exact ((hm _).mp (by simp [keysOf,hs])).2
      · rw [show k.btccheckpoint.lastFinalizedEpoch = 0 by omega]
        exact Nat.zero_le m
    · exact hp.finalized
    · exact fun e sk hs => ((hp.settled e).anchored sk hs).mem.2
    · exact fun e best hb sk hs => hp.ordered hb hs
    · intro e best hb hd e' he' hle
      have ha := (hp.settled e).anchored _ hb.mem
      have hi := getSubmissionBtcInfo_infoOf hb.info
      rw [hp.params] at hd
      have hst : k.btccheckpoint.statusOf e = .Finalized :=
        (hp.settled e).finalized.mpr (.inr ⟨_,ha,(hi.deep_iff _).mp hd⟩)
      have hl := ((hp.finalized e).mp hst).2
      exact (hp.finalized e').mpr ⟨he',by omega⟩

namespace Regtest

/-- Checkpoints of two epochs on Bitcoin, the first one three blocks deep. -/
def twoEpochs : List Action :=
  [.sealCheckpoint (checkpoint 1),.sealCheckpoint (checkpoint 2),
    insert [block 101 100 1 1,block 102 101 1 2,block 103 102 1 0,block 104 103 1 0],
    submit (block 101 100 1 1) 1 0 1,submit (block 102 101 1 2) 2 0 1]

end Regtest

/-- The first epoch is finalized, the second one has a submission after it. -/
theorem epochAncestry_endBlock_two :
    ∃ w', EpochAncestry w' ∧ w'.keepers.btccheckpoint.statusOf 1 = .Finalized ∧
      w'.keepers.btccheckpoint.keysOf 2 ≠ [] := by
  have hr : holds (twoEpochs.foldlM deliverOpen genesis) (fun w =>
      w.btcLightClientUpdated && holds (deliver env w .endBlock) (fun w' =>
        decide (w'.keepers.btccheckpoint.statusOf 1 = .Finalized ∧
          w'.keepers.btccheckpoint.keysOf 2 ≠ []))) = true := by decide +kernel
  obtain ⟨w,hw,ht⟩ := holds_iff.mp hr
  obtain ⟨hu,he⟩ := (Bool.and_eq_true _ _).mp ht
  obtain ⟨w',hw',hd⟩ := holds_iff.mp he
  exact ⟨w',epochAncestry_endBlock (reachable_deliverOpen hw) hu hw',of_decide_eq_true hd⟩

end AnonChain.BtcCheckpoint
