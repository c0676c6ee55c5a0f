import AnonChain.Rewards.Effects

/-! One specification for each procedure of the costaking module. -/

namespace AnonChain.Rewards

open Lib KVStore Coins Costaking
open Coins (amountOf)
open Costaking (CurrentRewards CostakerRewardsTracker State initializeCoStakerRwdTracker
  getCurrentRewards storeScoreChange)
open Costaking.State (PeriodEnded)
open Incentive (StakeholderType decimalRewards)

def ScoredBy (ratio : Int) (t : CostakerRewardsTracker) : Prop :=
  0 ≤ t.activeSatoshis ∧ 0 ≤ t.activeNtk ∧ t.totalScore = min t.activeSatoshis (t.activeNtk/ratio)

structure Scored (s : State) (ratio : Int) : Prop where
  positive : 1 ≤ ratio
  tracker : ∀ a t, s.costakerRewardsTracker.get a = some t → ScoredBy ratio t
  total : ∀ c, s.currentRewards = some c → c.totalScore = s.scores

/-- The world was reached by effects from `w₀`, and every score is accounted for. -/
structure Follows (w₀ w : World) : Prop where
  effects : Effects w₀ w
  pool : w.costk.Pool
  solvent : Solvent w
  scored : Scored w.costk w.costk.params.scoreRatioBtcByNtk

variable {w₀ w w' : World} {a : AccAddress} {c : CurrentRewards} {t : CostakerRewardsTracker}

theorem Follows.tail (h : Follows w₀ w) (he : Effect w w')
    (hs : Scored w'.costk w'.costk.params.scoreRatioBtcByNtk) : Follows w₀ w' :=
  ⟨h.effects.tail he,he.pool_keeps h.pool,he.solvent h.pool h.solvent,hs⟩

theorem Follows.frame (h : Follows w₀ w) (he : Effect w w') (hc : w'.costk = w.costk) :
    Follows w₀ w' :=
  h.tail he (hc ▸ h.scored)

/-- Unless it panics, the procedure goes from a world that follows to one that does. -/
abbrev Tracked {α : Type} (w₀ : World) (m : Proc α) : Prop := Keeps Failure.isPanic (Follows w₀) m

def started (w : World) : World :=
  match w.costk.currentRewards with
  | some _ => w
  | none => { w with costk := w.costk.started }

theorem started_of_some (hc : w.costk.currentRewards = some c) : started w = w := by rw [started,hc]

theorem scored_started (h : Follows w₀ w) (hc : w.costk.currentRewards = none) :
    Scored w.costk.started w.costk.params.scoreRatioBtcByNtk := by
  have he := h.pool.noCurrent hc
  refine ⟨h.scored.positive,?_,?_⟩
  · intro a t ht
    simp [State.started,he] at ht
  · intro c hc'
    cases hc'
    simp [State.scores,State.started,he,sumBy,empty]

theorem Follows.started (h : Follows w₀ w) : Follows w₀ (started w) := by
  cases hc : w.costk.currentRewards with
  | some c => rwa [started_of_some hc]
  | none =>
    rw [Rewards.started,hc]
    exact h.tail (.pool (.start hc)) (scored_started h hc)

theorem ends_getCurrentRewardsInitialized (w : World) (R : Failure → World → Prop) :
    Ends Costaking.getCurrentRewardsInitialized w
      (fun c w' => w' = started w ∧ w'.costk.currentRewards = some c) R := by
  unfold getCurrentRewardsInitialized started
  rw [ends_bind,ends_get]
  cases hc : w.costk.currentRewards with
  | some c => exact ⟨rfl,hc⟩
  | none => exact ⟨rfl,rfl⟩

theorem perScore_amounts {r : Coins} (hr : c.perScore = .ok r) (hp : ∀ d, 0 ≤ amountOf c.rewards d)
    (d : Denom) : amountOf r d = amountOf c.rewards d/c.totalScore := by
  unfold CurrentRewards.perScore at hr
  split at hr
  · rename_i hz
    cases hr
    simp [hz]
  · rw [(amountOf_quoInt hr d).1,Int.tdiv_eq_ediv_of_nonneg (hp d)]

theorem ends_incrementRewardsPeriod (hp : (started w).costk.Pool) :
    Ends Costaking.incrementRewardsPeriod w
      (fun n w' => ∃ c s', n = c.period ∧ PeriodEnded (started w).costk c s' ∧
        w' = { started w with costk := s' })
      (fun _ w' => w' = started w) := by
  unfold incrementRewardsPeriod
  rw [ends_bind]
  refine (ends_getCurrentRewardsInitialized w _).mono ?_ (fun _ _ h => h)
  rintro c _ ⟨rfl,hc⟩
  rw [ends_bind,ends_lift]
  refine ⟨?_,fun _ _ => rfl⟩
  intro perScore hpr
  rw [ends_bind,ends_get,ends_bind,ends_lift]
  refine ⟨?_,fun _ _ => rfl⟩
  intro historical hh
  rw [ends_bind,ends_lift]
  refine ⟨?_,fun _ _ => rfl⟩
  intro cumulative hcm
  refine ⟨c,_,rfl,⟨hc,cumulative,rfl,?_⟩,rfl⟩
  intro d
  rw [State.getHistoricalRewards,orFail_eq_ok] at hh
  rw [amountOf_add hcm,perScore_amounts hpr (fun d => hp.rewards c d hc),
    State.index_of_some hc,State.cumulative_of_get hh]

theorem Follows.periodEnded {s' : State} (h : Follows w₀ w) (he : PeriodEnded w.costk c s') :
    Follows w₀ { w with costk := s' } := by
  refine h.tail (.pool (.endPeriod he)) ?_
  obtain ⟨r,rfl, -⟩ := he.shared
  refine ⟨h.scored.positive,h.scored.tracker,?_⟩
  intro c' hc'
  cases hc'
  exact h.scored.total c he.current

theorem due_le_balance (hp : w.costk.Pool) (hw : Solvent w)
    (hc : w.costk.currentRewards = some c) (d : Denom) :
    w.costk.due a d ≤ amountOf w.bank.costaking d := by
  have hd := hw d
  rw [State.undistributed_of_some hc] at hd
  have hr := hp.rewards c d hc
  have hs : decimalRewards*w.costk.due a d ≤ w.costk.owed d := by
    unfold State.due
    cases ht : w.costk.costakerRewardsTracker.get a with
    | none => simpa using hp.owed_nonneg (d := d)
    | some t =>
      have hf := Int.mul_ediv_self_le (x := t.totalScore*(w.costk.index d -
        w.costk.cumulative d t.startPeriodCumulativeReward)) decimalRewards_pos.ne'
      exact hf.trans (KVStore.le_sumBy (fun _ _ hk => hp.share_nonneg hc hk) ht)
  exact le_of_mul_le_mul_left (by omega) decimalRewards_pos

theorem accumulateRewardGauge_error {s : Incentive.State} {sType : StakeholderType}
    {r : Coins} {e : Failure}
    (h : s.accumulateRewardGauge sType a r = .error e) : e.isPanic = true := by
  unfold Incentive.State.accumulateRewardGauge at h
  split at h
  · simp only [Incentive.RewardGauge.add] at h
    cases ha : add ((s.getRewardGauge sType a).getD Incentive.newRewardGauge).coins r with
    | error e' =>
      rw [ha] at h
      cases h
      rw [inRange_error ha]
      rfl
    | ok _ =>
      rw [ha] at h
      cases h
  · cases h

/-- Either the costaker is paid, or the error leaves the world as it was: the gauge is only credited
with coins that can be sent. -/
theorem ends_calculateCostakerRewardsAndSendToGauge (hp : w.costk.Pool) (hw : Solvent w)
    (hc : w.costk.currentRewards = some c) :
    Ends (Costaking.calculateCostakerRewardsAndSendToGauge a (c.period-1)) w
      (fun _ w' => Paid a w w') (fun e w' => e.isPanic = true ∨ w' = w) := by
  unfold calculateCostakerRewardsAndSendToGauge
  rw [ends_bind,ends_get,ends_bind,ends_lift]
  refine ⟨?_,fun _ _ => .inr rfl⟩
  intro r hr
  have hd : ∀ d, amountOf r d = w.costk.due a d :=
    fun d => hp.calculateCostakerRewards_amounts hc hr
  split
  · rename_i hz
    refine .nothing ?_
    intro d
    rw [← hd d]
    exact amountOf_of_isZero hz d
  · rename_i hz
    have hv := isAllPositive_eq_isValid (Bool.not_eq_true _ ▸ hz)
    rw [ends_bind]
    unfold accumulateRewardGaugeForCostaker sendCoinsToIncentive
    rw [ends_bind,ends_get,ends_bind,ends_lift]
    refine ⟨?_,fun e he => .inl (accumulateRewardGauge_error he)⟩
    intro ictv hi
    show Ends _ { w with ictv := ictv } _ _
    rw [ends_bind,ends_get,ends_bind,ends_lift]
    cases hps : isAllPositive r with
    | true =>
      refine ⟨?_,?_⟩
      · rintro ⟨costaking,incentive⟩ hs
        exact .coins hps hd hi hs
      · intro e he
        have hf : ∀ d, amountOf r d ≤ amountOf w.bank.costaking d := by
          intro d
          rw [hd d]
          exact due_le_balance hp hw hc d
        rw [w.bank.sendCoins_error (hv ▸ hps) hf he]
        exact .inl rfl
    | false =>
      -- the coins have a zero entry, so the gauge was not credited and the transfer is refused
      have hsm : ictv = w.ictv := by
        rw [Incentive.State.accumulateRewardGauge,hps] at hi
        cases hi
        rfl
      subst hsm
      refine ⟨?_,fun _ _ => .inr rfl⟩
      rintro ⟨costaking,incentive⟩ hs
      rw [w.bank.sendCoins_invalid (hv ▸ hps)] at hs
      cases hs

theorem updateScore_eq_ok {ratio delta : Int} {t' : CostakerRewardsTracker} (hr : 1 ≤ ratio)
    (hst : 0 ≤ t.activeSatoshis) (hn : 0 ≤ t.activeNtk) (h : t.updateScore ratio = .ok (t',delta)) :
    ScoredBy ratio t' ∧ 0 ≤ t'.totalScore ∧ delta = t'.totalScore-t.totalScore ∧
      t' = { t with totalScore := t'.totalScore } := by
  simp only [CostakerRewardsTracker.updateScore,calculateScore,ok_iff,Prod.mk.injEq] at h
  obtain ⟨score,⟨-,hs⟩,rfl,rfl⟩ := h
  rw [Int.tdiv_eq_ediv_of_nonneg hn] at hs
  have hq : 0 ≤ t.activeNtk/ratio := Int.ediv_nonneg hn (by omega)
  refine ⟨⟨hst,hn,hs.symm⟩,?_,rfl,rfl⟩
  dsimp only
  omega

def startingAt (period : Nat) (t : CostakerRewardsTracker) : CostakerRewardsTracker :=
  { t with startPeriodCumulativeReward := period }

theorem ends_initializeCoStakerRwdTracker (hc : w.costk.currentRewards = some c)
    (ht : w.costk.costakerRewardsTracker.get a = some t) (R : Failure → World → Prop) :
    Ends (initializeCoStakerRwdTracker a) w
      (fun _ w' => w' = { w with
        costk := w.costk.setCostakerRewardsTracker a (startingAt (c.period-1) t) })
      R := by
  unfold initializeCoStakerRwdTracker getCurrentRewards getCostakerRewards
  rw [ends_bind,ends_bind,ends_get,ends_lift_ok (orFail_eq_ok.mpr hc),ends_bind,ends_bind,ends_get,
    ends_lift_ok (orFail_eq_ok.mpr ht)]
  rfl

/-- The state after a costaker has been paid, with its new tracker and the new total. -/
def settled (s : State) (a : AccAddress) (t : CostakerRewardsTracker) (c : CurrentRewards) :
    State :=
  (s.setCostakerRewardsTracker a t).setCurrentRewards c

theorem Follows.settle {w₁ : World} (h : Follows w₀ w) (hc : w.costk.currentRewards = some c)
    (hz : ∀ d, amountOf c.rewards d = 0) (hp : Paid a w w₁)
    (ht : ScoredBy w.costk.params.scoreRatioBtcByNtk t) (hsc : 0 ≤ t.totalScore)
    (hsta : t.startPeriodCumulativeReward = c.period-1) :
    Follows w₀ { w₁ with costk := settled w.costk a t { c with totalScore := c.totalScore +
      (t.totalScore-(w.costk.costakerRewardsTracker.get a).elim 0 (·.totalScore)) } } := by
  have hcs := hp.costk_eq
  have hs : Effect w { w₁ with costk := w₁.costk.setCostakerRewardsTracker a t } :=
    .settle hc hz hp hsc hsta
  rw [hcs] at hs
  have hsr := State.scores_set w.costk a t
  have htt : c.totalScore+(t.totalScore-(w.costk.costakerRewardsTracker.get a).elim 0
      (·.totalScore)) =
      (w.costk.setCostakerRewardsTracker a t).scores := by
    rw [h.scored.total c hc]
    omega
  have hse : Effect { w₁ with costk := w.costk.setCostakerRewardsTracker a t } _ :=
    .pool (.total hc hz)
  rw [htt]
  have he := (h.effects.tail hs).tail hse
  have hpl := hse.pool_keeps (hs.pool_keeps h.pool)
  have hsl := hse.solvent (hs.pool_keeps h.pool) (hs.solvent h.pool h.solvent)
  refine ⟨he,hpl,hsl,h.scored.positive,?_,?_⟩
  · exact forall_set ht h.scored.tracker
  · intro c' hc'
    cases hc'
    rfl

theorem ends_storeScoreChange {delta : Int} (hc : w.costk.currentRewards = some c)
    (hv : Coins.isValid c.rewards = true) (hz : ∀ d, amountOf c.rewards d = 0)
    (ht : 0 ≤ c.totalScore+delta) (R : Failure → World → Prop) :
    Ends (storeScoreChange a t delta) w
      (fun _ w' => w' = { w with
        costk := settled w.costk a t { c with totalScore := c.totalScore+delta } })
      R := by
  have hch : ({ c with totalScore := c.totalScore+delta } : CurrentRewards).validate = .ok () := by
    have hn : isAnyNegative c.rewards = false :=
      isAnyNegative_eq_false.mpr (fun d => (hz d).ge)
    simp only [CurrentRewards.validate,ensure,hv,hn,ht]
    rfl
  unfold storeScoreChange getCurrentRewards
  rw [ends_bind]
  show Ends _ { w with costk := w.costk.setCostakerRewardsTracker a t } _ _
  have hc' : (w.costk.setCostakerRewardsTracker a t).currentRewards = some c := hc
  rw [ends_bind,ends_bind,ends_get,ends_lift_ok (orFail_eq_ok.mpr hc'),ends_bind,ends_lift_ok hch]
  rfl

/-- The stake may change, the position in the pool may not. -/
def KeepsPosition (f : CostakerRewardsTracker → CostakerRewardsTracker) : Prop :=
  ∀ t, (f t).totalScore = t.totalScore ∧
    (f t).startPeriodCumulativeReward = t.startPeriodCumulativeReward

theorem sanitize_position (t : CostakerRewardsTracker) :
    t.sanitize.totalScore = t.totalScore ∧
      t.sanitize.startPeriodCumulativeReward = t.startPeriodCumulativeReward := by
  unfold CostakerRewardsTracker.sanitize
  split <;> exact ⟨rfl,rfl⟩

theorem ends_getCostakerRewardsOrInitialize (h : Follows w₀ w) (R : Failure → World → Prop) :
    Ends (Costaking.getCostakerRewardsOrInitialize a) w
      (fun t w' => Follows w₀ w' ∧ ∃ c, w'.costk.currentRewards = some c ∧
        t = (w'.costk.costakerRewardsTracker.get a).getD ⟨c.period,0,0,0⟩) R := by
  unfold getCostakerRewardsOrInitialize
  rw [ends_bind,ends_get]
  cases ht : w.costk.costakerRewardsTracker.get a with
  | some t =>
    have hcr : ∃ c, w.costk.currentRewards = some c := by
      cases hc : w.costk.currentRewards with
      | some c => exact ⟨c,rfl⟩
      | none => simp [h.pool.noCurrent hc] at ht
    obtain ⟨c,hc⟩ := hcr
    refine ⟨h,c,hc,?_⟩
    rw [ht,Option.getD_some]
  | none =>
    rw [ends_bind]
    refine (ends_getCurrentRewardsInitialized w R).mono ?_ (fun _ _ hR => hR)
    rintro c _ ⟨rfl,hc⟩
    refine ⟨h.started,c,hc,?_⟩
    have hs : (started w).costk.costakerRewardsTracker = w.costk.costakerRewardsTracker := by
      unfold Rewards.started
      split <;> rfl
    rw [hs,ht]
    rfl

theorem started_frame (w : World) :
    (started w).costk.costakerRewardsTracker = w.costk.costakerRewardsTracker ∧
      (started w).costk.params = w.costk.params := by
  unfold Rewards.started
  split <;> exact ⟨rfl,rfl⟩

/-- A costaker at the point where it has been paid: the period ended, so that there is no reward. -/
structure PaidUp (w₀ w : World) (a : AccAddress) (c : CurrentRewards) (w₂ w₃ : World) : Prop where
  follows : Follows w₀ w₂
  current : w₂.costk.currentRewards = some c
  noRewards : c.rewards = .empty
  trackers : w₂.costk.costakerRewardsTracker = w.costk.costakerRewardsTracker
  params : w₂.costk.params = w.costk.params
  paid : Paid a w₂ w₃

theorem PaidUp.zero {w₂ w₃ : World} (h : PaidUp w₀ w a c w₂ w₃) (d : Denom) :
    amountOf c.rewards d = 0 := by rw [h.noRewards,amountOf_empty]

theorem ends_costakerModifiedScore {pre : Proc Unit} {Q : Unit → World → Prop}
    {R : Failure → World → Prop}
    (h : Follows w₀ w) (hR : ∀ e w', e.isPanic = true ∨ Follows w₀ w' → R e w')
    (hpr : ∀ c w₂ w₃, PaidUp w₀ w a c w₂ w₃ →
      Ends pre w₃ (fun _ w₄ => Ends (initializeCoStakerRwdTracker a) w₄ Q R) R) :
    Ends (Costaking.costakerModifiedScoreWithPreInitalization a pre) w Q R := by
  unfold costakerModifiedScoreWithPreInitalization
  rw [ends_bind]
  refine (ends_incrementRewardsPeriod h.started.pool).mono ?_ ?_
  · rintro n _ ⟨c,s',rfl,hen,rfl⟩
    have h₂ := h.started.periodEnded hen
    have hc := ends_calculateCostakerRewardsAndSendToGauge (a := a) h₂.pool h₂.solvent hen.current'
    rw [ends_bind]
    refine hc.mono ?_ ?_
    · intro _ w₃ hp
      rw [ends_bind]
      refine hpr _ _ w₃ ⟨h₂,hen.current',rfl,?_,?_,hp⟩
      · exact hen.trackers.trans (started_frame w).1
      · obtain ⟨r,rfl, -⟩ := hen.shared
        exact (started_frame w).2
    · intro e w' he
      rcases he with hpn | rfl
      · exact hR e w' (.inl hpn)
      · exact hR e _ (.inr h₂)
  · rintro e _ rfl
    exact hR e _ (.inr h.started)

theorem settled_set (s : State) (t' : CostakerRewardsTracker) :
    (settled s a t c).setCostakerRewardsTracker a t' = settled s a t' c := by
  simp only [settled,State.setCostakerRewardsTracker,State.setCurrentRewards,set_set]

theorem tracked_scoreChange {delta : Int} (h : Follows w₀ w)
    (ht : ScoredBy w.costk.params.scoreRatioBtcByNtk t) (hs : 0 ≤ t.totalScore)
    (hd : delta = t.totalScore-(w.costk.costakerRewardsTracker.get a).elim 0 (·.totalScore)) :
    Ends (Costaking.costakerModifiedScoreWithPreInitalization a (storeScoreChange a t delta)) w
      (fun _ => Follows w₀) (fun e w' => e.isPanic = true ∨ Follows w₀ w') := by
  refine ends_costakerModifiedScore h (fun _ _ he => he) ?_
  intro c w₂ w₃ hu
  have hcs := hu.paid.costk_eq
  have hc : w₃.costk.currentRewards = some c := hcs ▸ hu.current
  have hn := hu.follows.settle (t := startingAt (c.period-1) t) hu.current hu.zero hu.paid
    (by rw [hu.params]; exact ht) hs rfl
  rw [hu.trackers,← hcs] at hn
  have htt : 0 ≤ c.totalScore+delta := by
    rw [hd]
    exact (hn.pool.total _ rfl).1
  refine (ends_storeScoreChange hc (by rw [hu.noRewards]; rfl) hu.zero htt _).mono ?_
    (fun _ _ he => he)
  rintro _ _ rfl
  refine (ends_initializeCoStakerRwdTracker rfl (get_set_self _ a t) _).mono ?_ (fun _ _ he => he)
  rintro _ _ rfl
  rw [settled_set,hd]
  exact hn

theorem tracked_costakerWithdrawRewards (w₀ : World) (a : AccAddress) :
    Tracked w₀ (Costaking.costakerWithdrawRewards a) := by
  intro w h
  refine ends_costakerModifiedScore h (fun _ _ he => he) ?_
  intro c w₂ w₃ hu
  have hcs := hu.paid.costk_eq
  have hc : w₃.costk.currentRewards = some c := hcs ▸ hu.current
  rw [ends_pure]
  cases ht : w₃.costk.costakerRewardsTracker.get a with
  | some t =>
    refine (ends_initializeCoStakerRwdTracker hc ht _).mono ?_ (fun _ _ he => he)
    rintro _ _ rfl
    have ht₂ : w₂.costk.costakerRewardsTracker.get a = some t := hcs ▸ ht
    have hn := hu.follows.settle (t := startingAt (c.period-1) t) hu.current hu.zero hu.paid
      (hu.follows.scored.tracker a t ht₂) (hu.follows.pool.score a t ht₂) rfl
    rw [ht₂,← hcs] at hn
    have hs : settled w₃.costk a (startingAt (c.period-1) t)
        { c with totalScore := c.totalScore+(t.totalScore-t.totalScore) } =
        w₃.costk.setCostakerRewardsTracker a (startingAt (c.period-1) t) := by
      rw [sub_self,add_zero]
      simp only [settled,State.setCurrentRewards,State.setCostakerRewardsTracker,hc]
    rw [← hs]
    exact hn
  | none =>
    -- without a tracker nothing was due, and nothing is stored
    have hd : ∀ d, w₂.costk.due a d = 0 := by
      intro d
      rw [State.due,← hcs,ht,Option.elim_none]
    have hs := hu.paid.eq_of_due hd
    subst hs
    unfold initializeCoStakerRwdTracker getCurrentRewards getCostakerRewards
    rw [ends_bind,ends_bind,ends_get,ends_lift_ok (orFail_eq_ok.mpr hc),ends_bind,
      ends_bind,ends_get,ht]
    exact .inr hu.follows

theorem scored_setTracker {s : State} {ratio : Int} (h : Scored s ratio) (ht : ScoredBy ratio t)
    (hs : (s.setCostakerRewardsTracker a t).scores = s.scores) :
    Scored (s.setCostakerRewardsTracker a t) ratio := by
  refine ⟨h.positive,?_,?_⟩
  · exact forall_set ht h.tracker
  · intro c hc
    rw [hs]
    exact h.total c hc

theorem tracked_costakerModified {f : CostakerRewardsTracker → CostakerRewardsTracker} (w₀ : World)
    (a : AccAddress) (hf : KeepsPosition f) : Tracked w₀ (Costaking.costakerModified a f) := by
  intro w h
  unfold costakerModified
  rw [ends_bind]
  refine (ends_getCostakerRewardsOrInitialize h _).mono ?_ (fun _ _ he => he)
  rintro t₀ w₁ ⟨h₁,c,hc,ht₀⟩
  rw [ends_bind,ends_lift]
  refine ⟨?_,fun _ _ => .inr h₁⟩
  intro _ hv
  rw [ends_bind,ends_get,ends_bind,ends_lift]
  refine ⟨?_,fun _ _ => .inr h₁⟩
  rintro ⟨t,delta⟩ hu
  simp only [ok_iff,CostakerRewardsTracker.validate] at hv
  obtain ⟨-,hn,hst⟩ := hv
  obtain ⟨hsc,hsr,hd,hfr⟩ := updateScore_eq_ok h₁.scored.positive hst hn hu
  have hp := sanitize_position (f t₀)
  rw [hp.1,(hf t₀).1] at hd
  have hs : t.startPeriodCumulativeReward = t₀.startPeriodCumulativeReward := by
    rw [hfr]
    exact hp.2.trans (hf t₀).2
  have hold : t₀.totalScore = (w₁.costk.costakerRewardsTracker.get a).elim 0 (·.totalScore) := by
    rw [ht₀]
    cases w₁.costk.costakerRewardsTracker.get a <;> rfl
  dsimp only
  split
  · have hk : w₁.costk.KeepsScore a t := by
      unfold State.KeepsScore
      cases hg : w₁.costk.costakerRewardsTracker.get a with
      | none =>
        rw [hg,Option.elim_none] at hold
        omega
      | some t₁ =>
        rw [hg,Option.getD_some] at ht₀
        rw [← ht₀]
        exact ⟨by omega,hs⟩
    exact h₁.tail (.pool (.write hc hk)) (scored_setTracker h₁.scored hsc hk.scores_eq)
  · exact tracked_scoreChange h₁ hsc hsr (hold ▸ hd)

end AnonChain.Rewards
