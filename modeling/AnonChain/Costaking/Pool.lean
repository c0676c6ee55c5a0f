import AnonChain.Costaking.Keeper

/-! The pool of the costakers as an index of rewards, and what they are owed. -/

namespace AnonChain.Costaking

open Lib KVStore Coins
open Coins (amountOf)
open Incentive (decimalRewards)

theorem decimalRewards_pos : 0 < decimalRewards := by norm_num [decimalRewards]

namespace State

attribute [simp] setHistoricalRewards setCostakerRewardsTracker setCurrentRewards

def cumulative (s : State) (d : Denom) (period : Nat) : Int :=
  Coins.amountOf (s.historicalRewards.getD period .empty) d

def index (s : State) (d : Denom) : Int :=
  s.currentRewards.elim 0 (fun c => s.cumulative d (c.period-1))

def undistributed (s : State) (d : Denom) : Int :=
  s.currentRewards.elim 0 (fun c => Coins.amountOf c.rewards d)

def scores (s : State) : Int := s.costakerRewardsTracker.sumBy (fun _ t => t.totalScore)

def owed (s : State) (d : Denom) : Int :=
  RewardIndex.owed (fun _ => ()) (·.totalScore) (fun _ => s.index d)
    (fun _ t => s.cumulative d t.startPeriodCumulativeReward) s.costakerRewardsTracker

def due (s : State) (costaker : AccAddress) (d : Denom) : Int :=
  (s.costakerRewardsTracker.get costaker).elim 0 (fun t =>
    t.totalScore*(s.index d-s.cumulative d t.startPeriodCumulativeReward)/decimalRewards)

/-- While the scores are updated one by one their sum is not the total, and there is no reward. -/
structure Pool (s : State) : Prop where
  noCurrent : s.currentRewards = none → s.costakerRewardsTracker = .empty
  period : ∀ c, s.currentRewards = some c → 1 ≤ c.period
  stored : ∀ c p, s.currentRewards = some c → p < c.period → ∃ r, s.historicalRewards.get p = some r
  mono : ∀ c d p q, s.currentRewards = some c → p ≤ q → q < c.period →
    s.cumulative d p ≤ s.cumulative d q
  rewards : ∀ c d, s.currentRewards = some c → 0 ≤ Coins.amountOf c.rewards d
  total : ∀ c, s.currentRewards = some c →
    0 ≤ c.totalScore ∧ ((∀ d, Coins.amountOf c.rewards d = 0) ∨ c.totalScore = s.scores)
  score : ∀ a t, s.costakerRewardsTracker.get a = some t → 0 ≤ t.totalScore
  start : ∀ c a t, s.currentRewards = some c → s.costakerRewardsTracker.get a = some t →
    0 < t.totalScore → t.startPeriodCumulativeReward < c.period

def started (s : State) : State := (s.setHistoricalRewards 0 .empty).setCurrentRewards ⟨.empty,1,0⟩

/-- The period of `c` ends: its rewards are shared out by score. -/
structure PeriodEnded (s : State) (c : CurrentRewards) (s' : State) : Prop where
  current : s.currentRewards = some c
  shared : ∃ r,
    s' = (s.setHistoricalRewards c.period r).setCurrentRewards ⟨.empty,c.period+1,c.totalScore⟩ ∧
    ∀ d, Coins.amountOf r d = s.index d+Coins.amountOf c.rewards d/c.totalScore

/-- The tracker has the score and the start of the stored one, or is a new one without score. -/
def KeepsScore (s : State) (a : AccAddress) (t : CostakerRewardsTracker) : Prop :=
  match s.costakerRewardsTracker.get a with
  | some t₀ =>
    t.totalScore = t₀.totalScore ∧ t.startPeriodCumulativeReward = t₀.startPeriodCumulativeReward
  | none => t.totalScore = 0

inductive PoolStep (s : State) : State → Prop where
  | start : s.currentRewards = none → PoolStep s s.started
  | endPeriod {c : CurrentRewards} {s' : State} : PeriodEnded s c s' → PoolStep s s'
  | write {c : CurrentRewards} {a : AccAddress} {t : CostakerRewardsTracker} :
      s.currentRewards = some c → s.KeepsScore a t → PoolStep s (s.setCostakerRewardsTracker a t)
  | total {c : CurrentRewards} : s.currentRewards = some c → (∀ d, Coins.amountOf c.rewards d = 0) →
      PoolStep s (s.setCurrentRewards { c with totalScore := s.scores })
  | other (params : Params) (validatorSet : Option (List ValAddress)) :
      PoolStep s { s with params := params, validatorSet := validatorSet }

variable {s s' : State} {c : CurrentRewards} {a : AccAddress}
  {t : CostakerRewardsTracker} {d : Denom}

theorem index_of_some (hc : s.currentRewards = some c) :
    s.index d = s.cumulative d (c.period-1) := by
  rw [index,hc,Option.elim_some]

theorem undistributed_of_some (hc : s.currentRewards = some c) :
    s.undistributed d = amountOf c.rewards d := by rw [undistributed,hc,Option.elim_some]

theorem cumulative_of_get {p : Nat} {r : Coins} (h : s.historicalRewards.get p = some r) :
    s.cumulative d p = amountOf r d := by rw [cumulative,getD,h,Option.getD_some]

theorem Pool.scores_nonneg (h : s.Pool) : 0 ≤ s.scores :=
  sumBy_nonneg h.score

theorem Pool.start_stored (h : s.Pool) (ht : s.costakerRewardsTracker.get a = some t)
    (hp : 0 < t.totalScore) :
    ∃ c r, s.currentRewards = some c ∧ t.startPeriodCumulativeReward < c.period ∧
      s.historicalRewards.get t.startPeriodCumulativeReward = some r := by
  cases hc : s.currentRewards with
  | none => simp [h.noCurrent hc] at ht
  | some c =>
    have hs := h.start c a t hc ht hp
    obtain ⟨r,hr⟩ := h.stored c _ hc hs
    exact ⟨c,r,rfl,hs,hr⟩

theorem Pool.share_nonneg (h : s.Pool) (hc : s.currentRewards = some c)
    (ht : s.costakerRewardsTracker.get a = some t) :
    0 ≤ t.totalScore*(s.index d-s.cumulative d t.startPeriodCumulativeReward) := by
  have hs := h.score a t ht
  rcases hs.eq_or_lt with hz | hp
  · simp [← hz]
  · have hst := h.start c a t hc ht hp
    have hm := h.mono c d t.startPeriodCumulativeReward (c.period-1) hc (by omega) (by omega)
    rw [index_of_some hc]
    exact mul_nonneg hs (by omega)

theorem owed_of_empty (h : s.costakerRewardsTracker = .empty) : s.owed d = 0 := by
  rw [owed,h]
  rfl

theorem Pool.owed_nonneg (h : s.Pool) : 0 ≤ s.owed d := by
  cases hc : s.currentRewards with
  | none => rw [owed_of_empty (h.noCurrent hc)]
  | some c => exact sumBy_nonneg (fun _ _ hk => h.share_nonneg hc hk)

theorem Pool.due_nonneg (h : s.Pool) (hc : s.currentRewards = some c) : 0 ≤ s.due a d := by
  unfold due
  cases ht : s.costakerRewardsTracker.get a with
  | none => simp
  | some t => exact Int.ediv_nonneg (h.share_nonneg hc ht) decimalRewards_pos.le

theorem calculateCoStakerRewardsBetween_amounts {p : Nat} {r : Coins} (hsc : 0 ≤ t.totalScore)
    (hr : s.calculateCoStakerRewardsBetween t p = .ok r) :
    amountOf r d =
      t.totalScore*(s.cumulative d p-s.cumulative d
        t.startPeriodCumulativeReward)/decimalRewards := by
  simp only [calculateCoStakerRewardsBetween,getHistoricalRewards,ok_iff,Prod.exists] at hr
  obtain ⟨-,starting,hst,ending,he,diff,isNegative,hs,hn,product,hm,hq⟩ := hr
  obtain ⟨ha,hi⟩ := safeSub_eq_ok hs
  have hdf := amountOf_add ha d
  have hd := isAnyNegative_eq_false.mp (hi.symm.trans hn) d
  have hp := (amountOf_coinsSafeMulInt hm d).1
  rw [(amountOf_quoInt hq d).1,hp,Int.tdiv_eq_ediv_of_nonneg (mul_nonneg hd hsc),hdf,amountOf_neg,
    cumulative_of_get hst,cumulative_of_get he,mul_comm,sub_eq_add_neg]

theorem Pool.calculateCostakerRewards_amounts {r : Coins} (h : s.Pool)
    (hc : s.currentRewards = some c)
    (hr : s.calculateCostakerRewards a (c.period-1) = .ok r) : amountOf r d = s.due a d := by
  unfold calculateCostakerRewards at hr
  unfold due
  cases ht : s.costakerRewardsTracker.get a with
  | none =>
    rw [ht] at hr
    cases hr
    rfl
  | some t =>
    rw [ht] at hr
    dsimp only at hr
    rw [Option.elim_some]
    split at hr
    · rename_i hz
      cases hr
      simp [hz]
    · rw [calculateCoStakerRewardsBetween_amounts (h.score a t ht) hr,index_of_some hc]

theorem PeriodEnded.current' (h : PeriodEnded s c s') :
    s'.currentRewards = some ⟨.empty,c.period+1,c.totalScore⟩ := by
  obtain ⟨r,rfl, -⟩ := h.shared
  rfl

theorem PeriodEnded.trackers (h : PeriodEnded s c s') :
    s'.costakerRewardsTracker = s.costakerRewardsTracker := by
  obtain ⟨r,rfl, -⟩ := h.shared
  rfl

theorem PeriodEnded.cumulative_lt (h : PeriodEnded s c s') {p : Nat} (hp : p < c.period) :
    s'.cumulative d p = s.cumulative d p := by
  obtain ⟨r,rfl, -⟩ := h.shared
  have hn : p ≠ c.period := by omega
  simp [cumulative,getD_set,hn]

theorem PeriodEnded.index_eq (h : PeriodEnded s c s') :
    s'.index d = s.index d+amountOf c.rewards d/c.totalScore := by
  rw [index_of_some h.current']
  obtain ⟨r,rfl,hr⟩ := h.shared
  simpa [cumulative,getD_set] using hr d

theorem PeriodEnded.index_eq_scores (h : PeriodEnded s c s') (hp : s.Pool) :
    s'.index d = s.index d+amountOf c.rewards d/s.scores := by
  rw [h.index_eq]
  rcases (hp.total c h.current).2 with hz | ht
  · simp [hz d]
  · rw [ht]

theorem PeriodEnded.owed_le (h : PeriodEnded s c s') (hp : s.Pool) :
    s'.owed d ≤ s.owed d+amountOf c.rewards d := by
  have hs : s'.owed d = RewardIndex.owed (fun _ => ()) (·.totalScore) (fun _ => s'.index d)
      (fun _ t => s.cumulative d t.startPeriodCumulativeReward) s.costakerRewardsTracker := by
    rw [owed,RewardIndex.owed,RewardIndex.owed,h.trackers]
    refine sumBy_congr ?_
    intro a t ht
    rcases (hp.score a t ht).eq_or_lt with hz | hps
    · simp [← hz]
    · rw [h.cumulative_lt (hp.start c a t h.current ht hps)]
  rw [hs]
  refine RewardIndex.owed_share_le (g := ()) (hp.rewards c d h.current) ?_ ?_
    (fun _ hn => absurd rfl hn)
  · exact hp.scores_nonneg
  · exact h.index_eq_scores hp

theorem owed_set (s : State) (a : AccAddress) (t : CostakerRewardsTracker) (d : Denom) :
    (s.setCostakerRewardsTracker a t).owed d +
        (s.costakerRewardsTracker.get a).elim 0
          (fun t₀ => t₀.totalScore*(s.index d-s.cumulative d t₀.startPeriodCumulativeReward)) =
      s.owed d+t.totalScore*(s.index d-s.cumulative d t.startPeriodCumulativeReward) :=
  sumBy_set (fun _ (t : CostakerRewardsTracker) =>
    t.totalScore*(s.index d-s.cumulative d t.startPeriodCumulativeReward))
      s.costakerRewardsTracker a t

theorem owed_set_current (c' : CurrentRewards) (hc : s.currentRewards = some c)
    (hp : c'.period = c.period) : (s.setCurrentRewards c').owed d = s.owed d := by
  have hi : (s.setCurrentRewards c').index d = s.index d := by
    rw [index_of_some hc,index_of_some (c := c') rfl,hp]
    rfl
  simp only [owed,hi]
  rfl

theorem KeepsScore.owed_eq (h : s.KeepsScore a t) :
    (s.setCostakerRewardsTracker a t).owed d = s.owed d := by
  have hs := owed_set s a t d
  unfold KeepsScore at h
  cases ht : s.costakerRewardsTracker.get a with
  | none =>
    rw [ht] at h hs
    simpa [h] using hs
  | some t₀ =>
    rw [ht] at h hs
    simpa [h.1,h.2] using hs

theorem scores_set (s : State) (a : AccAddress) (t : CostakerRewardsTracker) :
    (s.setCostakerRewardsTracker a t).scores +
        (s.costakerRewardsTracker.get a).elim 0 (·.totalScore) = s.scores+t.totalScore :=
  sumBy_set _ s.costakerRewardsTracker a t

theorem KeepsScore.scores_eq (h : s.KeepsScore a t) :
    (s.setCostakerRewardsTracker a t).scores = s.scores := by
  have hs := scores_set s a t
  unfold KeepsScore at h
  cases ht : s.costakerRewardsTracker.get a with
  | none =>
    rw [ht] at h hs
    simpa [h] using hs
  | some t₀ =>
    rw [ht] at h hs
    simpa [h.1] using hs

theorem Pool.start_step (h : s.Pool) (hc : s.currentRewards = none) : s.started.Pool where
  noCurrent h' := by simp [started] at h'
  period c h' := by
    cases h'
    simp
  stored c p h' hp := by
    cases h'
    have hz : p = 0 := by simpa using hp
    exact ⟨.empty,by simp [started,hz]⟩
  mono c d p q h' hpq hq := by
    cases h'
    have hqz : q = 0 := by simpa using hq
    have hpz : p = 0 := by omega
    rw [hpz,hqz]
  rewards c d h' := by
    cases h'
    simp
  total c h' := by
    cases h'
    simp
  score a t ht := by simp [started,h.noCurrent hc] at ht
  start c a t _ ht := by simp [started,h.noCurrent hc] at ht

theorem Pool.endPeriod_step (h : s.Pool) (he : PeriodEnded s c s') : s'.Pool := by
  have hcr := he.current'
  have htr := he.trackers
  refine ⟨?_,?_,?_,?_,?_,?_,?_,?_⟩
  · intro hn
    simp [hcr] at hn
  · intro c' hc'
    cases hcr.symm.trans hc'
    simp
  · intro c' p hc' hp
    cases hcr.symm.trans hc'
    obtain ⟨r,rfl, -⟩ := he.shared
    simp only [setCurrentRewards,setHistoricalRewards]
    by_cases heq : p = c.period
    · exact ⟨r,by rw [heq,get_set_self]⟩
    · rw [get_set_ne _ _ heq]
      dsimp only at hp
      exact h.stored c p he.current (by omega)
  · intro c' d p q hc' hpq hq
    cases hcr.symm.trans hc'
    -- the new entry is the last one, and it is not below the one before
    have hl : s.cumulative d (c.period-1) ≤ s'.cumulative d c.period := by
      have hi := he.index_eq (d := d)
      have hs : 0 ≤ amountOf c.rewards d/c.totalScore :=
        Int.ediv_nonneg (h.rewards c d he.current) (h.total c he.current).1
      rw [index_of_some hcr,index_of_some he.current] at hi
      simp only [Nat.add_sub_cancel] at hi
      omega
    dsimp only at hq
    rcases Nat.lt_or_ge q c.period with hlt | hg
    · rw [he.cumulative_lt (by omega),he.cumulative_lt hlt]
      exact h.mono c d p q he.current hpq hlt
    · have hqe : q = c.period := by omega
      rw [hqe]
      rcases Nat.lt_or_ge p c.period with hpl | hpg
      · rw [he.cumulative_lt hpl]
        have := h.mono c d p (c.period-1) he.current (by omega) (by omega)
        omega
      · have hpe : p = c.period := by omega
        rw [hpe]
  · intro c' d hc'
    cases hcr.symm.trans hc'
    simp
  · intro c' hc'
    cases hcr.symm.trans hc'
    exact ⟨(h.total c he.current).1,.inl (fun d => by simp)⟩
  · intro a t ht
    rw [htr] at ht
    exact h.score a t ht
  · intro c' a t hc' ht hps
    cases hcr.symm.trans hc'
    rw [htr] at ht
    have := h.start c a t he.current ht hps
    dsimp only
    omega

theorem Pool.set_tracker (h : s.Pool) (hc : s.currentRewards = some c) (hsr : 0 ≤ t.totalScore)
    (hs : 0 < t.totalScore → t.startPeriodCumulativeReward < c.period)
    (htt : (∀ d, amountOf c.rewards d = 0) ∨ (s.setCostakerRewardsTracker a t).scores = s.scores) :
    (s.setCostakerRewardsTracker a t).Pool where
  noCurrent hn := by simp [hc] at hn
  period := h.period
  stored := h.stored
  mono := h.mono
  rewards := h.rewards
  total c' hc' := by
    cases hc.symm.trans hc'
    refine ⟨(h.total c hc).1,?_⟩
    rcases htt with hz | hsc
    · exact .inl hz
    · rw [hsc]
      exact (h.total c hc).2
  score := forall_set hsr h.score
  start c' a' t' hc' ht' hp := by
    cases hc.symm.trans hc'
    rcases get_set_cases ht' with ⟨_,rfl⟩ | ⟨_,ht'⟩
    · exact hs hp
    · exact h.start c a' t' hc ht' hp

theorem Pool.write_step (h : s.Pool) (hc : s.currentRewards = some c) (hk : s.KeepsScore a t) :
    (s.setCostakerRewardsTracker a t).Pool := by
  refine h.set_tracker hc ?_ ?_ (.inr hk.scores_eq)
  · unfold KeepsScore at hk
    cases ht : s.costakerRewardsTracker.get a with
    | none =>
      rw [ht] at hk
      exact hk.ge
    | some t₀ =>
      rw [ht] at hk
      rw [hk.1]
      exact h.score a t₀ ht
  · intro hp
    unfold KeepsScore at hk
    cases ht : s.costakerRewardsTracker.get a with
    | none =>
      rw [ht] at hk
      omega
    | some t₀ =>
      rw [ht] at hk
      rw [hk.2]
      exact h.start c a t₀ hc ht (hk.1 ▸ hp)

theorem Pool.total_step (h : s.Pool) (hc : s.currentRewards = some c)
    (hz : ∀ d, amountOf c.rewards d = 0) :
    (s.setCurrentRewards { c with totalScore := s.scores }).Pool where
  noCurrent hn := by simp at hn
  period c' hc' := by
    cases hc'
    exact h.period c hc
  stored c' p hc' hp := by
    cases hc'
    exact h.stored c p hc hp
  mono c' d p q hc' hpq hq := by
    cases hc'
    exact h.mono c d p q hc hpq hq
  rewards c' d hc' := by
    cases hc'
    exact h.rewards c d hc
  total c' hc' := by
    cases hc'
    exact ⟨h.scores_nonneg,.inl hz⟩
  score := h.score
  start c' a t hc' ht hps := by
    cases hc'
    exact h.start c a t hc ht hps

theorem Pool.step (h : s.Pool) (hs : PoolStep s s') : s'.Pool := by
  cases hs with
  | start hc => exact h.start_step hc
  | endPeriod he => exact h.endPeriod_step he
  | write hc hk => exact h.write_step hc hk
  | total hc hz => exact h.total_step hc hz
  | other _ _ => exact ⟨h.1,h.2,h.3,h.4,h.5,h.6,h.7,h.8⟩

theorem PoolStep.owed_le (hs : PoolStep s s') (h : s.Pool) :
    s'.undistributed d+s'.owed d ≤ s.undistributed d+s.owed d := by
  cases hs with
  | start hc =>
    have hem := h.noCurrent hc
    rw [owed_of_empty hem,owed_of_empty (s := s.started) hem]
    simp [undistributed,hc,started]
  | endPeriod he =>
    have hl := he.owed_le h (d := d)
    rw [undistributed_of_some he.current',undistributed_of_some he.current,amountOf_empty]
    omega
  | write hc hk =>
    rw [hk.owed_eq]
    exact le_rfl
  | @total c hc hz =>
    rw [owed_set_current { c with totalScore := s.scores } hc rfl,undistributed_of_some hc]
    exact le_rfl
  | other _ _ => exact le_rfl

end State

end AnonChain.Costaking
