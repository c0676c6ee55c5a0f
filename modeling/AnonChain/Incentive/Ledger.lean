import AnonChain.Incentive.Keeper

/-! What the incentive module owes; an operation without a transfer keeps the sum from growing. -/

namespace AnonChain.Incentive

open Lib KVStore Coins
open KVStore (getD_set)
open Coins (amountOf)

theorem decimalRewards_pos : 0 < decimalRewards := by norm_num [decimalRewards]

namespace State

def gaugeDebt (s : State) (d : Denom) : Int :=
  s.rewardGauges.sumBy (fun _ g => amountOf g.coins d-amountOf g.withdrawnCoins d)

def stakingDebt (s : State) (d : Denom) : Int := s.btcStakingGauges.sumBy (fun _ c => amountOf c d)

def directDebt (s : State) (d : Denom) : Int := s.fpDirectGauges.sumBy (fun _ c => amountOf c d)

def currentDebt (s : State) (d : Denom) : Int :=
  s.finalityProviderCurrentRewards.sumBy (fun _ c => amountOf c.currentRewards d)

def cumulative (s : State) (d : Denom) (fp : AccAddress) (period : Nat) : Int :=
  amountOf (s.finalityProviderHistoricalRewards.getD (toLex (fp,period)) .empty) d

def index (s : State) (d : Denom) (fp : AccAddress) : Int :=
  (s.finalityProviderCurrentRewards.get fp).elim 0 (fun c => s.cumulative d fp (c.period-1))

def accrued (s : State) (d : Denom) (k : DelegationKey) (t : BTCDelegationRewardsTracker) : Int :=
  t.totalActiveSat*(s.index d (ofLex k).1-s.cumulative d (ofLex k).1 t.startPeriodCumulativeReward)

def owed (s : State) (d : Denom) : Int :=
  RewardIndex.owed (fun k => (ofLex k).1) (·.totalActiveSat) (s.index d)
    (fun k t => s.cumulative d (ofLex k).1 t.startPeriodCumulativeReward)
      s.btcDelegationRewardsTracker

def liabilities (s : State) (d : Denom) : Int :=
  decimalRewards*(s.gaugeDebt d+s.stakingDebt d+s.directDebt d+s.currentDebt d)+s.owed d

def stakeOf (s : State) (fp : AccAddress) : Int :=
  RewardIndex.weightIn (fun k : DelegationKey => (ofLex k).1)
    (·.totalActiveSat) s.btcDelegationRewardsTracker fp

structure Ledger (s : State) : Prop where
  gauge : ∀ k g d, s.rewardGauges.get k = some g →
    0 ≤ amountOf g.withdrawnCoins d ∧ amountOf g.withdrawnCoins d ≤ amountOf g.coins d
  staking : ∀ h c d, s.btcStakingGauges.get h = some c → 0 ≤ amountOf c d
  direct : ∀ h c d, s.fpDirectGauges.get h = some c → 0 ≤ amountOf c d
  period : ∀ fp c, s.finalityProviderCurrentRewards.get fp = some c → 1 ≤ c.period
  mono : ∀ fp c d p q, s.finalityProviderCurrentRewards.get fp = some c → p ≤ q → q < c.period →
    s.cumulative d fp p ≤ s.cumulative d fp q
  rewards : ∀ fp c d, s.finalityProviderCurrentRewards.get fp = some c →
    0 ≤ amountOf c.currentRewards d
  total : ∀ fp c, s.finalityProviderCurrentRewards.get fp = some c → c.totalActiveSat = s.stakeOf fp
  sats : ∀ k t, s.btcDelegationRewardsTracker.get k = some t → 0 ≤ t.totalActiveSat
  start : ∀ k t, s.btcDelegationRewardsTracker.get k = some t →
    ∃ c, s.finalityProviderCurrentRewards.get (ofLex k).1 = some c ∧
    t.startPeriodCumulativeReward < c.period
  events : ∀ h evs ev, s.rewardTrackerEvents.get h = some evs → ev ∈ evs → 0 ≤ ev.totalSat

variable {s s' : State} {fp : AccAddress} {c : FinalityProviderCurrentRewards} {d : Denom}
  {t : BTCDelegationRewardsTracker} {k : DelegationKey}

theorem index_of_some (hc : s.finalityProviderCurrentRewards.get fp = some c) :
    s.index d fp = s.cumulative d fp (c.period-1) := by rw [index,hc,Option.elim_some]

theorem cumulative_of_get {p : Nat} {r : Coins}
    (h : s.finalityProviderHistoricalRewards.get (toLex (fp,p)) = some r) :
    s.cumulative d fp p = amountOf r d := by rw [cumulative,getD,h,Option.getD_some]

theorem Ledger.accrued_nonneg (h : s.Ledger) (ht : s.btcDelegationRewardsTracker.get k = some t) :
    0 ≤ s.accrued d k t := by
  obtain ⟨c,hc,hs⟩ := h.start k t ht
  have hm := h.mono _ c d t.startPeriodCumulativeReward (c.period-1) hc (by omega) (by omega)
  rw [accrued,index_of_some hc]
  exact mul_nonneg (h.sats k t ht) (by omega)

theorem Ledger.stakeOf_nonneg (h : s.Ledger) (fp : AccAddress) : 0 ≤ s.stakeOf fp := by
  rw [stakeOf,RewardIndex.weightIn]
  refine sumBy_nonneg ?_
  intro k t ht
  split
  · exact h.sats k t ht
  · exact le_rfl

theorem Ledger.not_tracked (h : s.Ledger) (hc : s.finalityProviderCurrentRewards.get fp = none)
    (ht : s.btcDelegationRewardsTracker.get k = some t) : (ofLex k).1 ≠ fp := by
  obtain ⟨c,hg, -⟩ := h.start k t ht
  intro he
  rw [he,hc] at hg
  cases hg

theorem Ledger.stakeOf_of_none (h : s.Ledger)
    (hc : s.finalityProviderCurrentRewards.get fp = none) : s.stakeOf fp = 0 := by
  have hz : s.stakeOf fp = s.btcDelegationRewardsTracker.sumBy (fun _ _ => 0) := by
    rw [stakeOf,RewardIndex.weightIn]
    refine sumBy_congr ?_
    intro k t ht
    rw [if_neg (h.not_tracked hc ht)]
  rw [hz,sumBy_zero]

/-- The records of one provider change, those of its delegators do not. -/
structure IndexChange (s : State) (fp : AccAddress) (c' : FinalityProviderCurrentRewards)
    (s' : State) : Prop where
  gauges : s'.rewardGauges = s.rewardGauges
  staking : s'.btcStakingGauges = s.btcStakingGauges
  direct : s'.fpDirectGauges = s.fpDirectGauges
  trackers : s'.btcDelegationRewardsTracker = s.btcDelegationRewardsTracker
  events : s'.rewardTrackerEvents = s.rewardTrackerEvents
  current : s'.finalityProviderCurrentRewards = s.finalityProviderCurrentRewards.set fp c'
  others : ∀ fp' d p, fp' ≠ fp → s'.cumulative d fp' p = s.cumulative d fp' p

namespace IndexChange

variable {c' : FinalityProviderCurrentRewards}

theorem get_current (h : IndexChange s fp c' s') (fp' : AccAddress) :
    s'.finalityProviderCurrentRewards.get fp' =
      if fp' = fp then some c' else s.finalityProviderCurrentRewards.get fp' := by
  rw [h.current]
  by_cases he : fp' = fp <;> simp [get_set,he]

theorem index_other (h : IndexChange s fp c' s') {fp' : AccAddress} (hn : fp' ≠ fp) :
    s'.index d fp' = s.index d fp' := by
  rw [index,index,h.get_current,if_neg hn]
  cases s.finalityProviderCurrentRewards.get fp' with
  | none => rfl
  | some c => exact h.others fp' d _ hn

theorem stakeOf_eq (h : IndexChange s fp c' s') (fp' : AccAddress) :
    s'.stakeOf fp' = s.stakeOf fp' := by
  rw [stakeOf,stakeOf,h.trackers]

theorem ledger (h : IndexChange s fp c' s') (hl : s.Ledger) (hpr : 1 ≤ c'.period)
    (hm : ∀ d p q, p ≤ q → q < c'.period → s'.cumulative d fp p ≤ s'.cumulative d fp q)
    (hr : ∀ d, 0 ≤ amountOf c'.currentRewards d) (htt : c'.totalActiveSat = s.stakeOf fp)
    (hg : ∀ c, s.finalityProviderCurrentRewards.get fp = some c → c.period ≤ c'.period) :
    s'.Ledger where
  gauge := h.gauges ▸ hl.gauge
  staking := h.staking ▸ hl.staking
  direct := h.direct ▸ hl.direct
  period fp' c₁ hc₁ := by
    rw [h.get_current] at hc₁
    split at hc₁
    · cases hc₁
      exact hpr
    · exact hl.period fp' c₁ hc₁
  mono fp' c₁ d p q hc₁ hp hq := by
    rw [h.get_current] at hc₁
    split at hc₁
    · rename_i he
      cases hc₁
      rw [he]
      exact hm d p q hp hq
    · rename_i hn
      rw [h.others fp' d p hn,h.others fp' d q hn]
      exact hl.mono fp' c₁ d p q hc₁ hp hq
  rewards fp' c₁ d hc₁ := by
    rw [h.get_current] at hc₁
    split at hc₁
    · cases hc₁
      exact hr d
    · exact hl.rewards fp' c₁ d hc₁
  total fp' c₁ hc₁ := by
    rw [h.stakeOf_eq]
    rw [h.get_current] at hc₁
    split at hc₁
    · rename_i he
      cases hc₁
      rw [he]
      exact htt
    · exact hl.total fp' c₁ hc₁
  sats := h.trackers ▸ hl.sats
  start k t ht := by
    rw [h.trackers] at ht
    obtain ⟨c₁,hc₁,hs⟩ := hl.start k t ht
    rw [h.get_current]
    split
    · rename_i he
      rw [he] at hc₁
      have := hg c₁ hc₁
      exact ⟨c',rfl,by omega⟩
    · exact ⟨c₁,hc₁,hs⟩
  events := h.events ▸ hl.events

theorem currentDebt_eq (h : IndexChange s fp c' s') :
    s'.currentDebt d+(s.finalityProviderCurrentRewards.get fp).elim 0
        (fun c => amountOf c.currentRewards d) =
      s.currentDebt d+amountOf c'.currentRewards d := by
  rw [currentDebt,h.current]
  exact sumBy_set (fun _ (c : FinalityProviderCurrentRewards) =>
    amountOf c.currentRewards d) _ fp c'

theorem liabilities_eq (h : IndexChange s fp c' s') :
    s'.liabilities d = s.liabilities d+decimalRewards*(s'.currentDebt d-s.currentDebt d) +
      (s'.owed d-s.owed d) := by
  rw [liabilities,liabilities,gaugeDebt,gaugeDebt,stakingDebt,stakingDebt,directDebt,
    directDebt,h.gauges,h.staking,h.direct]
  ring

end IndexChange

theorem initialize_change (s : State) (fp : AccAddress) :
    IndexChange s fp ⟨.empty,1,0⟩ (s.initializeFinalityProvider fp) := by
  refine ⟨rfl,rfl,rfl,rfl,rfl,rfl,?_⟩
  intro fp' d p hn
  have hk : toLex (fp',p) ≠ toLex (fp,0) := fun he => hn (congrArg (fun k => (ofLex k).1) he)
  simp [initializeFinalityProvider,setFinalityProviderHistoricalRewards,
    setFinalityProviderCurrentRewards,cumulative,getD_set,hk]

theorem Ledger.initialize (h : s.Ledger) (hc : s.finalityProviderCurrentRewards.get fp = none) :
    (s.initializeFinalityProvider fp).Ledger ∧
      ∀ d, (s.initializeFinalityProvider fp).liabilities d = s.liabilities d := by
  have hch := initialize_change s fp
  refine ⟨hch.ledger h le_rfl ?_ (fun d => le_rfl) (h.stakeOf_of_none hc).symm (by simp [hc]),?_⟩
  · intro d p q hpq hq
    have hp : p = q := by
      dsimp only at hq
      omega
    rw [hp]
  · intro d
    have hcr := hch.currentDebt_eq (d := d)
    have ho : (s.initializeFinalityProvider fp).owed d = s.owed d := by
      rw [owed,RewardIndex.owed,hch.trackers,owed,RewardIndex.owed]
      refine sumBy_congr ?_
      intro k t ht
      have hn := h.not_tracked hc ht
      rw [hch.index_other hn,hch.others _ _ _ hn]
    rw [hc,Option.elim_none,amountOf_empty] at hcr
    rw [hch.liabilities_eq,ho]
    have hs : (s.initializeFinalityProvider fp).currentDebt d = s.currentDebt d := by omega
    rw [hs]
    ring

theorem currentRewardsPerSat_amounts {r : Coins} (hr : currentRewardsPerSat c = .ok r)
    (hp : ∀ d, 0 ≤ amountOf c.currentRewards d) (d : Denom) :
    amountOf r d = amountOf c.currentRewards d*decimalRewards/c.totalActiveSat := by
  unfold currentRewardsPerSat at hr
  split at hr
  · rename_i hz
    cases hr
    simp [hz]
  · simp only [bind_eq_ok] at hr
    obtain ⟨product,hm,hq⟩ := hr
    have hpr := (amountOf_mulInt hm d).1
    rw [(amountOf_quoInt hq d).1,hpr,
      Int.tdiv_eq_ediv_of_nonneg (mul_nonneg (hp d) decimalRewards_pos.le)]

/-- What ends a period: the rewards of the provider are shared out by stake. -/
structure PeriodEnded (s : State) (fp : AccAddress) (c : FinalityProviderCurrentRewards)
    (s' : State) : Prop where
  current : s.finalityProviderCurrentRewards.get fp = some c
  change : IndexChange s fp ⟨.empty,c.period+1,c.totalActiveSat⟩ s'
  below : ∀ d p, p < c.period → s'.cumulative d fp p = s.cumulative d fp p
  share : ∀ d, s'.cumulative d fp c.period =
    s.index d fp+amountOf c.currentRewards d*decimalRewards/c.totalActiveSat

theorem PeriodEnded.index_eq (h : PeriodEnded s fp c s') :
    s'.index d fp = s.index d fp+amountOf c.currentRewards d*decimalRewards/c.totalActiveSat := by
  have hg := h.change.get_current fp
  rw [if_pos rfl] at hg
  rw [index_of_some hg]
  exact h.share d

theorem PeriodEnded.ledger (h : PeriodEnded s fp c s') (hl : s.Ledger) : s'.Ledger := by
  refine h.change.ledger hl (by simp) ?_ (fun d => le_rfl) (hl.total fp c h.current) ?_
  · intro d p q hpq hq
    dsimp only at hq
    have hls : s.cumulative d fp (c.period-1) ≤ s'.cumulative d fp c.period := by
      have hn : 0 ≤ amountOf c.currentRewards d*decimalRewards/c.totalActiveSat := by
        refine Int.ediv_nonneg (mul_nonneg (hl.rewards fp c d h.current) decimalRewards_pos.le) ?_
        rw [hl.total fp c h.current]
        exact hl.stakeOf_nonneg fp
      rw [h.share d,index_of_some h.current]
      omega
    rcases Nat.lt_or_ge q c.period with hlt | hg
    · rw [h.below d p (by omega),h.below d q hlt]
      exact hl.mono fp c d p q h.current hpq hlt
    · have hqe : q = c.period := by omega
      rw [hqe]
      rcases Nat.lt_or_ge p c.period with hpl | hpg
      · rw [h.below d p hpl]
        have := hl.mono fp c d p (c.period-1) h.current (by omega) (by omega)
        omega
      · have hp : p = c.period := by omega
        rw [hp]
  · intro c₁ hc₁
    cases h.current.symm.trans hc₁
    simp

theorem PeriodEnded.owed_le (h : PeriodEnded s fp c s') (hl : s.Ledger) :
    s'.owed d ≤ s.owed d+amountOf c.currentRewards d*decimalRewards := by
  have hs : s'.owed d = RewardIndex.owed (fun k => (ofLex k).1) (·.totalActiveSat) (s'.index d)
      (fun k t => s.cumulative d (ofLex k).1 t.startPeriodCumulativeReward)
        s.btcDelegationRewardsTracker := by
    rw [owed,RewardIndex.owed,RewardIndex.owed,h.change.trackers]
    refine sumBy_congr ?_
    intro k t ht
    by_cases he : (ofLex k).1 = fp
    · obtain ⟨c₁,hc₁,hlt⟩ := hl.start k t ht
      rw [he] at hc₁
      cases h.current.symm.trans hc₁
      rw [he,h.below d _ hlt]
    · rw [h.change.others _ _ _ he]
  rw [hs]
  refine RewardIndex.owed_share_le (g := fp)
    (mul_nonneg (hl.rewards fp c d h.current) decimalRewards_pos.le) (hl.stakeOf_nonneg fp) ?_
    (fun fp' hn => h.change.index_other hn)
  rw [h.index_eq,hl.total fp c h.current]
  rfl

theorem PeriodEnded.liabilities_le (h : PeriodEnded s fp c s') (hl : s.Ledger) :
    s'.liabilities d ≤ s.liabilities d := by
  have hc := h.change.currentDebt_eq (d := d)
  rw [h.current,Option.elim_some,amountOf_empty,add_zero] at hc
  have ho := h.owed_le hl (d := d)
  have hc' : s'.currentDebt d-s.currentDebt d = -amountOf c.currentRewards d := by omega
  rw [h.change.liabilities_eq,hc',mul_neg,mul_comm decimalRewards]
  omega

theorem incrementFinalityProviderPeriod_cases {n : Nat} (hl : s.Ledger)
    (h : s.incrementFinalityProviderPeriod fp = .ok (s',n)) :
    (s.finalityProviderCurrentRewards.get fp = none ∧ s' = s.initializeFinalityProvider fp) ∨
      ∃ c, n = c.period ∧ PeriodEnded s fp c s' := by
  unfold incrementFinalityProviderPeriod at h
  cases hc : s.finalityProviderCurrentRewards.get fp with
  | none =>
    rw [hc] at h
    cases h
    exact .inl ⟨rfl,rfl⟩
  | some c =>
    rw [hc] at h
    simp only [ok_iff,getFinalityProviderHistoricalRewards,Prod.mk.injEq] at h
    obtain ⟨perSat,hpr,historical,hh,cumulative',hcm,rfl,rfl⟩ := h
    refine .inr ⟨c,rfl,hc,⟨rfl,rfl,rfl,rfl,rfl,rfl,?_⟩,?_,?_⟩
    · intro fp' d p hn
      have hk : toLex (fp',p) ≠ toLex (fp,c.period) :=
        fun he => hn (congrArg (fun k => (ofLex k).1) he)
      simp [setFinalityProviderHistoricalRewards,setFinalityProviderCurrentRewards,
        cumulative,getD_set,hk]
    · intro d p hp
      have hk : toLex (fp,p) ≠ toLex (fp,c.period) := by
        intro he
        have := congrArg (fun k => (ofLex k).2) he
        dsimp only [ofLex_toLex] at this
        omega
      simp [setFinalityProviderHistoricalRewards,setFinalityProviderCurrentRewards,
        cumulative,getD_set,hk]
    · intro d
      have hs : amountOf cumulative' d = s.index d fp +
          amountOf c.currentRewards d*decimalRewards/c.totalActiveSat := by
        rw [amountOf_add hcm,currentRewardsPerSat_amounts hpr (fun d => hl.rewards fp c d hc),
          index_of_some hc,cumulative_of_get hh]
      simpa [setFinalityProviderHistoricalRewards,setFinalityProviderCurrentRewards,cumulative,
        getD_set] using hs

end State

end AnonChain.Incentive
