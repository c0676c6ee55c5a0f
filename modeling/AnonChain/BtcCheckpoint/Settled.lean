import AnonChain.BtcCheckpoint.Effects

/-! The state after a pass, epoch by epoch. -/

namespace AnonChain.BtcCheckpoint

open Lib

variable {b : BtcLightClient.State} {s₀ : State} {A : SubmissionKey → Prop} {n : Nat}
  {ed ed' : EpochData}
  {i : SubmissionBtcInfo} {e : Nat} {subs : KVStore SubmissionKey SubmissionData} {k k' : Keepers}

/-- What a pass makes of the record of an epoch whose anchored submissions are `A`. -/
structure EpochSettled (b : BtcLightClient.State) (A : SubmissionKey → Prop) (n : Nat)
    (ed ed' : EpochData) : Prop where
  anchored : ∀ sk ∈ ed'.keys, A sk
  best : ∀ sk, A sk → ∃ i, IsBest b A i ∧ i.submissionKey ∈ ed'.keys
  finalized : ed'.status = .Finalized ↔ ed.status = .Finalized ∨ ∃ sk, A sk ∧ Deep b n sk
  single : ed'.status = .Finalized → ∃ sk, ed'.keys = [sk]

theorem EpochSettled.idle (hk : ed.keys = []) (hA : ∀ sk, A sk → sk ∈ ed.keys)
    (hsn : ed.status = .Finalized → ∃ sk, ed.keys = [sk]) : EpochSettled b A n ed ed := by
  have hn : ∀ sk, ¬ A sk := fun sk hs => by simpa [hk] using hA sk hs
  constructor
  · simp [hk]
  · exact fun sk hs => absurd hs (hn sk)
  · simp [hn]
  · exact hsn

theorem EpochSettled.keep_finalized {sk : SubmissionKey} (hs : ed.status = .Finalized)
    (hk : ed.keys = [sk]) (ho : OnChain b sk) (hn : sk ≠ []) (hA : A sk)
    (hm : ∀ q, A q → q ∈ ed.keys) : EpochSettled b A n ed ed := by
  obtain ⟨i,hi⟩ := getSubmissionBtcInfo_succeeds hn ho
  have hky := (getSubmissionBtcInfo_infoOf hi).key
  constructor
  · simpa [hk] using hA
  · intro q hq
    refine ⟨i,⟨by rwa [hky],by rwa [hky],?_⟩,by simp [hk,hky]⟩
    intro r hr
    have := hm r hr
    rw [hk,List.mem_singleton] at this
    exact ⟨i,this ▸ hi,isBetterThan_irrefl i⟩
  · simp [hs]
  · exact fun _ => ⟨sk,hk⟩

theorem EpochSettled.forget (hs : ed.status ≠ .Finalized) (hn : ∀ sk, ¬ A sk) :
    EpochSettled b A n ed { ed with keys := [] } := by
  constructor
  · simp
  · exact fun sk hsk => absurd hsk (hn sk)
  · simp [hs,hn]
  · simp [hs]

theorem exists_deep_iff (h : IsBest b A i) :
    (∃ sk, A sk ∧ Deep b n sk) ↔ n ≤ i.youngestBlockDepth := by
  have hi := getSubmissionBtcInfo_infoOf h.info
  constructor
  · intro hex
    obtain ⟨sk,hs,hd⟩ := hex
    obtain ⟨j,hj,hnt⟩ := h.best sk hs
    have := ((getSubmissionBtcInfo_infoOf hj).deep_iff n).mpr hd
    have := depth_le_of_not_isBetterThan hnt
    omega
  · intro hn
    exact ⟨i.submissionKey,h.mem,(hi.deep_iff n).mp hn⟩

theorem EpochSettled.finalize (h : IsBest b A i) (hd : n ≤ i.youngestBlockDepth) :
    EpochSettled b A n ed ⟨[i.submissionKey],.Finalized⟩ := by
  constructor
  · simpa using h.mem
  · exact fun _ _ => ⟨i,h,by simp⟩
  · simp [(exists_deep_iff h).mpr hd]
  · exact fun _ => ⟨_,rfl⟩

theorem EpochSettled.keep {keys : List SubmissionKey} {st : BtcStatus} (h : IsBest b A i)
    (hs : ed.status ≠ .Finalized) (hs' : st ≠ .Finalized) (hd : ¬ n ≤ i.youngestBlockDepth)
    (hk : ∀ sk, sk ∈ keys ↔ A sk) : EpochSettled b A n ed ⟨keys,st⟩ := by
  constructor
  · exact fun sk hsk => (hk sk).mp hsk
  · exact fun _ _ => ⟨i,h,(hk _).mpr h.mem⟩
  · simp [hs,hs',exists_deep_iff h,hd]
  · exact fun h => absurd h hs'

theorem State.Anchored.mem_keys {sk : SubmissionKey} (h : s₀.Anchored b e sk) :
    sk ∈ (s₀.dataOf e).keys :=
  h.mem.1

theorem ChangesOf.isBest {c : EpochChangesSummary}
    (h : ChangesOf b (s₀.Anchored b e) (s₀.dataOf e).keys c)
    (hi : c.epochBestSubmission = some i) : IsBest b (s₀.Anchored b e) i := by
  obtain ⟨hm,hin,hb⟩ := h.best i hi
  exact ⟨hm.2,hin,fun sk hs => hb sk ⟨hs.mem_keys,hs⟩⟩

/-- The parts of the state that an iteration over epoch `e` leaves alone. -/
structure EpochFrame (e : Nat) (s s' : State) : Prop where
  params : s'.params = s.params
  other : ∀ e', e' ≠ e → s'.dataOf e' = s.dataOf e'
  zero : s.epochData.get 0 = none → e ≠ 0 → s'.epochData.get 0 = none

theorem dataOf_set {s : State} {x : EpochData} {p : Params} {n e e' : Nat} :
    State.dataOf ⟨p,s.epochData.set e x,subs,n⟩ e' = if e' = e then x else s.dataOf e' :=
  KVStore.getD_set _ _ _ _ _

theorem EpochFrame.of_set {e last : Nat} {s s' : State} {x : EpochData}
    (h : s' = ⟨s.params,s.epochData.set e x,subs,last⟩) : EpochFrame e s s' ∧ s'.dataOf e = x := by
  subst h
  refine ⟨⟨rfl,?_,?_⟩,?_⟩
  · intro e' he
    rw [dataOf_set,if_neg he]
  · intro h0 he
    rw [KVStore.get_set_ne _ _ (Ne.symm he)]
    exact h0
  · rw [dataOf_set,if_pos rfl]

theorem EpochOutcome.settled
    (hdt : k.btccheckpoint.dataOf e = s₀.dataOf e) (hp : k.btccheckpoint.params = s₀.params)
    (hfn : ∀ sk, (s₀.dataOf e).status = .Finalized → (s₀.dataOf e).keys = [sk] →
      s₀.Anchored b e sk ∧ sk ≠ [])
    (h : EpochOutcome b s₀ e (s₀.dataOf e) k k') :
    EpochFrame e k.btccheckpoint k'.btccheckpoint ∧
      EpochSettled b (s₀.Anchored b e) s₀.params.checkpointFinalizationTimeout (s₀.dataOf e)
        (k'.btccheckpoint.dataOf e) := by
  cases h with
  | finalized hs hk ho =>
    obtain ⟨hA,hne⟩ := hfn _ hs hk
    rw [hdt]
    exact ⟨⟨rfl,fun _ _ => rfl,fun h0 _ => h0⟩,
      .keep_finalized hs hk ho hne hA (fun q hq => hq.mem_keys)⟩
  | forgotten hs hnn =>
    obtain ⟨hf,hn⟩ := EpochFrame.of_set (forgetEpoch_btccheckpoint k e (s₀.dataOf e))
    rw [hn]
    exact ⟨hf,.forget hs hnn⟩
  | @kept c best hs hc hb =>
    have hi := hc.isBest hb
    by_cases hd : k.btccheckpoint.params.checkpointFinalizationTimeout ≤ best.youngestBlockDepth
    · obtain ⟨hf,hn⟩ := EpochFrame.of_set
        (applyEpochChanges_deep (k := k) (e := e) (c := c) hs hd)
      rw [hn]
      exact ⟨hf,.finalize hi (hp ▸ hd)⟩
    · obtain ⟨st, -,hs',he⟩ := applyEpochChanges_shallow (k := k) (e := e) (c := c) hs hd
      obtain ⟨hf,hn⟩ := EpochFrame.of_set he
      rw [hn]
      exact ⟨hf,.keep hi hs hs' (hp ▸ hd) fun sk => (hc.keep sk).trans
        (and_iff_right_of_imp State.Anchored.mem_keys)⟩

structure PassReady (b : BtcLightClient.State) (s : State) : Prop where
  zero : s.epochData.get 0 = none
  contiguous : s.Contiguous
  single : ∀ e, (s.dataOf e).status = .Finalized → ∃ sk, (s.dataOf e).keys = [sk]
  finalized : ∀ e, (s.dataOf e).status = .Finalized ↔ 1 ≤ e ∧ e ≤ s.lastFinalizedEpoch
  anchored : ∀ e sk, (s.dataOf e).status = .Finalized → (s.dataOf e).keys = [sk] →
    s.Anchored b e sk ∧ sk ≠ []

structure PassPoint (s₀ s : State) (e : Nat) : Prop where
  data : ∀ e', e < e' → s.dataOf e' = s₀.dataOf e'
  params : s.params = s₀.params
  zero : s.epochData.get 0 = none

theorem PassPoint.next {s s' : State} (h : PassPoint s₀ s e) (hf : EpochFrame (e+1) s s') :
    PassPoint s₀ s' (e+1) := by
  constructor
  · intro e' he
    rw [hf.other e' (by omega)]
    exact h.data e' (by omega)
  · exact hf.params.trans h.params
  · exact hf.zero h.zero (Nat.succ_ne_zero e)

theorem Pass.settled (hr : PassReady b s₀)
    (hp : PassPoint s₀ k.btccheckpoint e) (h : Pass b s₀ e k k') :
    k'.btccheckpoint.params = s₀.params ∧ k'.btccheckpoint.epochData.get 0 = none ∧
      (∀ e', e' ≤ e → k'.btccheckpoint.dataOf e' = k.btccheckpoint.dataOf e') ∧
      ∀ e', e < e' → EpochSettled b (s₀.Anchored b e') s₀.params.checkpointFinalizationTimeout
        (s₀.dataOf e') (k'.btccheckpoint.dataOf e') := by
  induction h with
  | @done e k hem =>
    refine ⟨hp.params,hp.zero,fun _ _ => rfl,?_⟩
    intro e' he
    rw [hp.data e' he]
    exact .idle (hem e' he) (fun sk hs => hs.mem_keys) (hr.single e')
  | @epoch e k k₁ k' _ ho _ ih =>
    obtain ⟨hf,hst⟩ := ho.settled (hp.data (e+1) (Nat.lt_succ_self e))
      hp.params (hr.anchored (e+1))
    obtain ⟨hpr,hz,hold,hn⟩ := ih (hp.next hf)
    refine ⟨hpr,hz,?_,?_⟩
    · intro e' he
      rw [hold e' (by omega),hf.other e' (by omega)]
    · intro e' he
      by_cases heq : e' = e+1
      · rw [heq,hold (e+1) (Nat.le_refl _)]
        exact hst
      · exact hn e' (by omega)

/-- The last finalized epoch is the largest one with that status. -/
structure LastFinalized (s : State) : Prop where
  status : 1 ≤ s.lastFinalizedEpoch → (s.dataOf s.lastFinalizedEpoch).status = .Finalized
  largest : ∀ e, (s.dataOf e).status = .Finalized → e ≤ s.lastFinalizedEpoch

theorem EpochOutcome.lastFinalized
    (hdt : k.btccheckpoint.dataOf e = s₀.dataOf e) (h : EpochOutcome b s₀ e (s₀.dataOf e) k k') :
    (k'.btccheckpoint.lastFinalizedEpoch = k.btccheckpoint.lastFinalizedEpoch ∧
        ((k'.btccheckpoint.dataOf e).status = .Finalized ↔ (s₀.dataOf e).status = .Finalized)) ∨
      (k'.btccheckpoint.lastFinalizedEpoch = e ∧ (k'.btccheckpoint.dataOf e).status =
        .Finalized) := by
  cases h with
  | finalized _ hk ho => exact .inl ⟨rfl,by rw [hdt]⟩
  | forgotten _ hn =>
    have hs := forgetEpoch_btccheckpoint k e (s₀.dataOf e)
    refine .inl ⟨by rw [hs],?_⟩
    rw [(EpochFrame.of_set hs).2]
  | @kept c best hst hc hb =>
    by_cases hd : k.btccheckpoint.params.checkpointFinalizationTimeout ≤ best.youngestBlockDepth
    · have hs := applyEpochChanges_deep (k := k) (e := e) (c := c) hst hd
      refine .inr ⟨by rw [hs],?_⟩
      rw [(EpochFrame.of_set hs).2]
    · obtain ⟨st, -,hst',hs⟩ := applyEpochChanges_shallow (k := k) (e := e) (c := c) hst hd
      refine .inl ⟨by rw [hs],?_⟩
      rw [(EpochFrame.of_set hs).2]
      simp [hst,hst']

theorem Pass.lastFinalized (hr : PassReady b s₀) (hp : PassPoint s₀ k.btccheckpoint e)
    (hl : LastFinalized k.btccheckpoint) (hle : k.btccheckpoint.lastFinalizedEpoch ≤ e+1)
    (h : Pass b s₀ e k k') : LastFinalized k'.btccheckpoint := by
  induction h with
  | done _ => exact hl
  | @epoch e k k₁ k' _ ho _ ih =>
    have hd := hp.data (e+1) (Nat.lt_succ_self e)
    obtain ⟨hf, -⟩ := ho.settled hd hp.params (hr.anchored (e+1))
    have hp₁ := hp.next hf
    rcases ho.lastFinalized hd with ⟨hs,hif⟩ | ⟨hn,hst⟩
    · -- The statuses are the same as far as finalization goes.
      have hss : ∀ i, (k₁.btccheckpoint.dataOf i).status = .Finalized ↔
          (k.btccheckpoint.dataOf i).status = .Finalized := by
        intro i
        by_cases hi : i = e+1
        · rw [hi,hd]
          exact hif
        · rw [hf.other i hi]
      refine ih hp₁ ⟨?_,?_⟩ (by omega)
      · rw [hs]
        exact fun hps => (hss _).mpr (hl.status hps)
      · rw [hs]
        exact fun i hi => hl.largest i ((hss i).mp hi)
    · refine ih hp₁ ⟨?_,?_⟩ (by omega)
      · rw [hn]
        exact fun _ => hst
      · intro i hi
        rw [hn]
        by_cases hie : i = e+1
        · omega
        · rw [hf.other i hie] at hi
          exact (hl.largest i hi).trans hle

end AnonChain.BtcCheckpoint
