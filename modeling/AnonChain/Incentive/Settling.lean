import AnonChain.Incentive.Ledger

/-! A change of stake pays the delegator what it has earned before the stake changes. -/

namespace AnonChain.Incentive

open Lib KVStore Coins
open KVStore (get_set sumBy_set get_set_cases)
open Coins (amountOf)

namespace State

variable {s s' : State} {fp del : AccAddress} {c : FinalityProviderCurrentRewards} {d : Denom}
  {t : BTCDelegationRewardsTracker} {k : DelegationKey} {n : Nat} {r : Coins}

/-- The debts do not grow, and the gauges of heights stay. -/
structure Settles (s s' : State) : Prop where
  ledger : s'.Ledger
  staking : s'.btcStakingGauges = s.btcStakingGauges
  direct : s'.fpDirectGauges = s.fpDirectGauges
  liabilities_le : ∀ d, s'.liabilities d ≤ s.liabilities d

theorem Settles.refl (h : s.Ledger) : Settles s s := ⟨h,rfl,rfl,fun _ => le_rfl⟩

theorem Settles.trans {s'' : State} (h : Settles s s') (h' : Settles s' s'') : Settles s s'' :=
  ⟨h'.ledger,h'.staking.trans h.staking,h'.direct.trans h.direct,
    fun d => (h'.liabilities_le d).trans (h.liabilities_le d)⟩

theorem increment_settles (hl : s.Ledger) (h : s.incrementFinalityProviderPeriod fp = .ok (s',n)) :
    Settles s s' ∧ ∃ c, s'.finalityProviderCurrentRewards.get fp = some c ∧
      ∀ k t, s'.btcDelegationRewardsTracker.get k = some t → (ofLex k).1 = fp → c.period = n+1 := by
  rcases incrementFinalityProviderPeriod_cases hl h with ⟨hn,rfl⟩ | ⟨c,rfl,he⟩
  · obtain ⟨hld,hs⟩ := hl.initialize hn
    refine ⟨⟨hld,rfl,rfl,fun d => (hs d).le⟩,⟨.empty,1,0⟩,?_,?_⟩
    · simp [initializeFinalityProvider,setFinalityProviderCurrentRewards]
    · intro k t ht hk
      exact absurd hk (hl.not_tracked hn ht)
  · refine ⟨⟨he.ledger hl,he.change.staking,he.change.direct,fun d => he.liabilities_le hl⟩,
      ⟨.empty,c.period+1,c.totalActiveSat⟩,?_,fun _ _ _ _ => rfl⟩
    rw [he.change.get_current,if_pos rfl]

theorem accumulateRewardGauge_credit {sType : StakeholderType} {addr : AccAddress} (hl : s.Ledger)
    (hr : ∀ d, 0 ≤ amountOf r d) (h : s.accumulateRewardGauge sType addr r = .ok s') :
    ∃ gauges, s' = { s with rewardGauges := gauges } ∧ s'.Ledger ∧
      ∀ d, s'.gaugeDebt d ≤ s.gaugeDebt d+amountOf r d := by
  unfold accumulateRewardGauge at h
  split at h
  · simp only [ok_iff,RewardGauge.add] at h
    obtain ⟨rg,⟨coins,ha,rfl⟩,rfl⟩ := h
    have hs := amountOf_add ha
    refine ⟨_,rfl,⟨?_,hl.staking,hl.direct,hl.period,hl.mono,hl.rewards,hl.total,hl.sats,hl.start,
      hl.events⟩,?_⟩
    · intro k g d hg
      rcases get_set_cases hg with ⟨_,rfl⟩ | ⟨_,hg⟩
      · dsimp only
        rw [hs d]
        have hn := hr d
        cases hgt : s.getRewardGauge sType addr with
        | none => simpa [newRewardGauge] using hn
        | some g₀ =>
          have hold := hl.gauge _ g₀ d hgt
          rw [Option.getD_some]
          omega
      · exact hl.gauge k g d hg
    · intro d
      have hst := sumBy_set
        (fun (_ : GaugeKey) (g : RewardGauge) => amountOf g.coins d-amountOf g.withdrawnCoins d)
        s.rewardGauges (toLex (sType,addr))
        { (s.getRewardGauge sType addr).getD newRewardGauge with coins := coins }
      have hd : (s.rewardGauges.get (toLex (sType,addr))).elim 0
          (fun g => amountOf g.coins d-amountOf g.withdrawnCoins d) =
          amountOf ((s.getRewardGauge sType addr).getD newRewardGauge).coins d -
            amountOf ((s.getRewardGauge sType addr).getD newRewardGauge).withdrawnCoins d := by
        rw [getRewardGauge]
        cases s.rewardGauges.get (toLex (sType,addr)) with
        | none => simp [newRewardGauge]
        | some g => rfl
      dsimp only at hst
      rw [hd,hs d] at hst
      simp only [gaugeDebt,setRewardGauge]
      omega
  · cases h
    refine ⟨_,rfl,hl,?_⟩
    intro d
    have hn := hr d
    omega

theorem calculateDelegationRewardsBetween_le (hl : s.Ledger)
    (hc : s.finalityProviderCurrentRewards.get fp = some c) (hn : c.period = n+1)
    (ht : s.btcDelegationRewardsTracker.get (toLex (fp,del)) = some t)
    (h : s.calculateDelegationRewardsBetween fp t n = .ok r) (d : Denom) :
    0 ≤ amountOf r d ∧ decimalRewards*amountOf r d ≤ s.accrued d (toLex (fp,del)) t := by
  simp only [calculateDelegationRewardsBetween,getFinalityProviderHistoricalRewards,ok_iff] at h
  obtain ⟨-,starting,hs,ending,he,diff,hd, -,product,hp,hq⟩ := h
  obtain ⟨hr,hnn⟩ := amountOf_quoInt hq d
  have ha : amountOf product d = s.accrued d (toLex (fp,del)) t := by
    have hi : s.index d fp = amountOf ending d := by
      rw [index_of_some hc,hn,Nat.add_sub_cancel,cumulative_of_get he]
    rw [(amountOf_mulInt hp d).1,(amountOf_sub hd d).1,accrued]
    change _ = t.totalActiveSat*(s.index d fp-s.cumulative d fp t.startPeriodCumulativeReward)
    rw [hi,cumulative_of_get hs,mul_comm]
  refine ⟨hnn,?_⟩
  rw [hr,ha,Int.tdiv_eq_ediv_of_nonneg (hl.accrued_nonneg ht)]
  exact Int.mul_ediv_self_le decimalRewards_pos.ne'

theorem noneIfNotFound_eq_ok {x : Result Coins} (h : noneIfNotFound x = .ok r) :
    x = .ok r ∨ r = .empty := by
  unfold noneIfNotFound at h
  split at h
  · cases h
    exact .inr rfl
  · exact .inl h

def accruedAt (s : State) (d : Denom) (k : DelegationKey) : Int :=
  (s.btcDelegationRewardsTracker.get k).elim 0 (s.accrued d k)

theorem Ledger.accruedAt_nonneg (hl : s.Ledger) : 0 ≤ s.accruedAt d k := by
  rw [accruedAt]
  cases ht : s.btcDelegationRewardsTracker.get k with
  | none => rfl
  | some t => exact hl.accrued_nonneg ht

theorem delegationRewards_le (hl : s.Ledger) (hc : s.finalityProviderCurrentRewards.get fp = some c)
    (hn : ∀ t, s.btcDelegationRewardsTracker.get (toLex (fp,del)) = some t → c.period = n+1)
    (h : noneIfNotFound (s.calculateBTCDelegationRewards fp del n) = .ok r) (d : Denom) :
    0 ≤ amountOf r d ∧ decimalRewards*amountOf r d ≤ s.accruedAt d (toLex (fp,del)) := by
  rcases noneIfNotFound_eq_ok h with hr | rfl
  · simp only [calculateBTCDelegationRewards,getBTCDelegationRewardsTracker,ok_iff] at hr
    obtain ⟨t,ht,hr⟩ := hr
    split at hr
    · cases hr
      simpa using hl.accruedAt_nonneg
    · rw [accruedAt,ht,Option.elim_some]
      exact calculateDelegationRewardsBetween_le hl hc (hn t ht) ht hr d
  · simpa using hl.accruedAt_nonneg

theorem payDelegation (hl : s.Ledger) (hc : s.finalityProviderCurrentRewards.get fp = some c)
    (hn : ∀ t, s.btcDelegationRewardsTracker.get (toLex (fp,del)) = some t → c.period = n+1)
    (h : s.calculateBTCDelegationRewardsAndSendToGauge fp del n = .ok s') :
    ∃ gauges, s' = { s with rewardGauges := gauges } ∧ s'.Ledger ∧
      ∀ d, decimalRewards*s'.gaugeDebt d ≤ decimalRewards*s.gaugeDebt d+s.accruedAt d
        (toLex (fp,del)) := by
  simp only [calculateBTCDelegationRewardsAndSendToGauge,bind_eq_ok] at h
  obtain ⟨r,hr,h⟩ := h
  have hle := delegationRewards_le hl hc hn hr
  split at h
  · cases h
    refine ⟨_,rfl,hl,?_⟩
    intro d
    have := hl.accruedAt_nonneg (d := d) (k := toLex (fp,del))
    omega
  · obtain ⟨gauges,hs',hl',hd⟩ := accumulateRewardGauge_credit hl (fun d => (hle d).1) h
    refine ⟨gauges,hs',hl',?_⟩
    intro d
    have hm := mul_le_mul_of_nonneg_left (hd d) decimalRewards_pos.le
    rw [mul_add] at hm
    have := (hle d).2
    omega

def restaked (s : State) (fp del : AccAddress) (c : FinalityProviderCurrentRewards)
    (sat total : Int) (pairs : KVStore (AccAddress ×ₗ AccAddress) Unit) : State :=
  { s with
    btcDelegatorToFP := pairs
    btcDelegationRewardsTracker := s.btcDelegationRewardsTracker.set (toLex (fp,del))
      ⟨c.period-1,sat⟩
    finalityProviderCurrentRewards :=
      s.finalityProviderCurrentRewards.set fp { c with totalActiveSat := total } }

section

variable {sat total : Int} {pairs : KVStore (AccAddress ×ₗ AccAddress) Unit}

theorem restaked_current (s : State) (fp' : AccAddress) :
    (s.restaked fp del c sat total pairs).finalityProviderCurrentRewards.get fp' =
      if fp' = fp then some { c with totalActiveSat := total }
        else s.finalityProviderCurrentRewards.get fp' := by
  by_cases he : fp' = fp <;> simp [restaked,get_set,he]

theorem restaked_index (hc : s.finalityProviderCurrentRewards.get fp = some c) (fp' : AccAddress) :
    (s.restaked fp del c sat total pairs).index d fp' = s.index d fp' := by
  rw [index,restaked_current]
  split
  · rename_i he
    rw [he,index_of_some hc]
    rfl
  · rfl

theorem restaked_stakeOf (s : State) (fp' : AccAddress) :
    (s.restaked fp del c sat total pairs).stakeOf fp' +
        (if fp = fp' then (s.btcDelegationRewardsTracker.get (toLex (fp,del))).elim 0
          (·.totalActiveSat) else 0) =
      s.stakeOf fp'+if fp = fp' then sat else 0 :=
  RewardIndex.weightIn_set (fun k : DelegationKey => (ofLex k).1) fp'

theorem Ledger.restaked (hl : s.Ledger) (hc : s.finalityProviderCurrentRewards.get fp = some c)
    (hsa : 0 ≤ sat) (htt : total-c.totalActiveSat =
      sat-(s.btcDelegationRewardsTracker.get (toLex (fp,del))).elim 0 (·.totalActiveSat)) :
    (s.restaked fp del c sat total pairs).Ledger := by
  have hpr := hl.period fp c hc
  refine ⟨hl.gauge,hl.staking,hl.direct,?_,?_,?_,?_,?_,?_,hl.events⟩
  · intro fp' c₁ hc₁
    rw [restaked_current] at hc₁
    split at hc₁
    · cases hc₁
      exact hpr
    · exact hl.period fp' c₁ hc₁
  · intro fp' c₁ d p q hc₁ hp hq
    rw [restaked_current] at hc₁
    split at hc₁
    · rename_i he
      cases hc₁
      rw [he]
      exact hl.mono fp c d p q hc hp hq
    · exact hl.mono fp' c₁ d p q hc₁ hp hq
  · intro fp' c₁ d hc₁
    rw [restaked_current] at hc₁
    split at hc₁
    · cases hc₁
      exact hl.rewards fp c d hc
    · exact hl.rewards fp' c₁ d hc₁
  · intro fp' c₁ hc₁
    have hst : (s.restaked fp del c sat total pairs).stakeOf fp'+_ = _ := restaked_stakeOf s fp'
    rw [restaked_current] at hc₁
    split at hc₁
    · rename_i he
      cases hc₁
      subst he
      have hold := hl.total fp' c hc
      simp only [if_true] at hst
      dsimp only
      omega
    · rename_i hn
      simp only [if_neg (Ne.symm hn),add_zero] at hst
      rw [hst]
      exact hl.total fp' c₁ hc₁
  · exact forall_set hsa hl.sats
  · intro k t ht
    rw [restaked_current]
    rcases get_set_cases ht with ⟨rfl,rfl⟩ | ⟨_,ht⟩
    · rw [ofLex_toLex,if_pos rfl]
      refine ⟨_,rfl,?_⟩
      dsimp only
      omega
    · obtain ⟨c₁,hc₁,hs⟩ := hl.start k t ht
      split
      · rename_i he
        rw [he,hc] at hc₁
        cases hc₁
        exact ⟨_,rfl,hs⟩
      · exact ⟨c₁,hc₁,hs⟩

theorem restaked_liabilities (hc : s.finalityProviderCurrentRewards.get fp = some c) :
    (s.restaked fp del c sat total pairs).liabilities d = s.liabilities d-s.accruedAt d
      (toLex (fp,del)) := by
  have hcr : (s.restaked fp del c sat total pairs).currentDebt d = s.currentDebt d := by
    have hs := sumBy_set
      (fun (_ : AccAddress) (c : FinalityProviderCurrentRewards) => amountOf c.currentRewards d)
      s.finalityProviderCurrentRewards fp { c with totalActiveSat := total }
    rw [hc,Option.elim_some] at hs
    exact add_right_cancel hs
  have ho : (s.restaked fp del c sat total pairs).owed d = s.owed d-s.accruedAt d
      (toLex (fp,del)) := by
    have hs := sumBy_set
      (fun (k : DelegationKey) (t : BTCDelegationRewardsTracker) => t.totalActiveSat *
        (s.index d (ofLex k).1-s.cumulative d (ofLex k).1 t.startPeriodCumulativeReward))
      s.btcDelegationRewardsTracker (toLex (fp,del)) ⟨c.period-1,sat⟩
    have hp : s.index d fp-s.cumulative d fp (c.period-1) = 0 := by
      rw [index_of_some hc,sub_self]
    simp only [ofLex_toLex,hp,mul_zero,add_zero] at hs
    have hi : (s.restaked fp del c sat total pairs).index d = s.index d :=
      funext (fun fp' => restaked_index hc fp')
    rw [owed,hi]
    exact eq_sub_of_add_eq hs
  rw [liabilities,hcr,ho,liabilities]
  change decimalRewards*(s.gaugeDebt d+s.stakingDebt d+s.directDebt d+s.currentDebt d)+_ = _
  ring

end

/-- Together with the start of a new period, the change replaces the tracker of the delegator. -/
def Restakes (fp del : AccAddress) (pre : State → Result State) : Prop :=
  ∀ s₁ s₂ s₃ c, s₁.Ledger → s₁.finalityProviderCurrentRewards.get fp = some c → pre s₁ = .ok s₂ →
    s₂.initializeBTCDelegation fp del = .ok s₃ → ∃ sat total pairs, 0 ≤ sat ∧
      total-c.totalActiveSat =
        sat-(s₁.btcDelegationRewardsTracker.get (toLex (fp,del))).elim 0 (·.totalActiveSat) ∧
      s₃ = s₁.restaked fp del c sat total pairs

theorem modified_settles {pre : State → Result State} (hp : Restakes fp del pre) (hl : s.Ledger)
    (h : s.btcDelegationModifiedWithPreInitDel fp del pre = .ok s') : Settles s s' := by
  simp only [btcDelegationModifiedWithPreInitDel,bind_eq_ok,Prod.exists] at h
  obtain ⟨s₁,n,hin,s₂,hpy,s₃,hch,hi⟩ := h
  obtain ⟨hs,c,hc,hpr⟩ := increment_settles hl hin
  obtain ⟨gauges,rfl,hl₂,hd⟩ := payDelegation hs.ledger hc (fun t ht => hpr _ t ht rfl) hpy
  obtain ⟨sat,total,pairs,hsa,htt,rfl⟩ := hp _ _ _ c hl₂ hc hch hi
  refine hs.trans ⟨hl₂.restaked hc hsa htt,rfl,rfl,?_⟩
  intro d
  have hpd := hd d
  rw [restaked_liabilities (s := { s₁ with rewardGauges := gauges }) hc]
  have hsm : accruedAt { s₁ with rewardGauges := gauges } d (toLex (fp,del)) =
      s₁.accruedAt d (toLex (fp,del)) := rfl
  rw [hsm,liabilities,liabilities]
  change decimalRewards*(gaugeDebt { s₁ with rewardGauges := gauges } d+s₁.stakingDebt
      d+s₁.directDebt d +
    s₁.currentDebt d)+s₁.owed d-_ ≤ _
  simp only [mul_add]
  omega

theorem restakes_pure : Restakes fp del pure := by
  intro s₁ s₂ s₃ c hl hc hp hi
  cases hp
  simp only [initializeBTCDelegation,getFinalityProviderCurrentRewards,
    getBTCDelegationRewardsTracker,ok_iff] at hi
  obtain ⟨c₁,hc₁,t,ht,rfl⟩ := hi
  cases hc.symm.trans hc₁
  refine ⟨t.totalActiveSat,c.totalActiveSat,s₁.btcDelegatorToFP.set (toLex (del,fp)) (),
    hl.sats _ t ht,?_,?_⟩
  · rw [ht,Option.elim_some]
    omega
  · rw [restaked,set_same hc]
    rfl

theorem initialize_restaked {s₁ s₃ : State} {start : Nat} {sat total : Int}
    (hi : ((s₁.setBTCDelegationRewardsTracker fp del
      ⟨start,sat⟩).setFinalityProviderCurrentRewards fp
      { c with totalActiveSat := total }).initializeBTCDelegation fp del = .ok s₃) :
    ∃ pairs, s₃ = s₁.restaked fp del c sat total pairs := by
  simp only [initializeBTCDelegation,getFinalityProviderCurrentRewards,
    getBTCDelegationRewardsTracker,
    setBTCDelegationRewardsTracker,setFinalityProviderCurrentRewards,get_set_self,set_set,ok_iff,
    Option.some.injEq,exists_eq_left'] at hi
  exact ⟨_,hi.symm⟩

theorem restakes_add {sat : Int} (hst : 0 ≤ sat) :
    Restakes fp del (fun s => pure (s.addDelegationSat fp del sat)) := by
  intro s₁ s₂ s₃ c hl hc hp hi
  cases hp
  have ha : s₁.addDelegationSat fp del sat =
      (s₁.setBTCDelegationRewardsTracker fp del
        ⟨((s₁.btcDelegationRewardsTracker.get (toLex (fp,del))).getD
          ⟨0,0⟩).startPeriodCumulativeReward,
          ((s₁.btcDelegationRewardsTracker.get (toLex (fp,del))).getD ⟨0,0⟩).totalActiveSat +
            sat⟩).setFinalityProviderCurrentRewards fp
              { c with totalActiveSat := c.totalActiveSat+sat } := by
    simp only [addDelegationSat,addFinalityProviderStaked,setBTCDelegationRewardsTracker,hc]
  rw [ha] at hi
  obtain ⟨pairs,hs₃⟩ := initialize_restaked hi
  refine ⟨_,_,pairs,?_,?_,hs₃⟩
  · cases ht : s₁.btcDelegationRewardsTracker.get (toLex (fp,del)) with
    | none => simpa using hst
    | some t => exact add_nonneg (hl.sats _ t ht) hst
  · cases s₁.btcDelegationRewardsTracker.get (toLex (fp,del)) with
    | none => simp
    | some t =>
      rw [Option.getD_some,Option.elim_some]
      omega

theorem restakes_sub {sat : Int} : Restakes fp del (fun s => s.subDelegationSat fp del sat) := by
  intro s₁ s₂ s₃ c hl hc hp hi
  simp only [subDelegationSat,subFinalityProviderStaked,getBTCDelegationRewardsTracker,
    getFinalityProviderCurrentRewards,ok_iff] at hp
  obtain ⟨t,ht,hst,c₁,hc₁, -,rfl⟩ := hp
  cases hc.symm.trans hc₁
  obtain ⟨pairs,hs₃⟩ := initialize_restaked hi
  refine ⟨_,_,pairs,hst,?_,hs₃⟩
  rw [ht,Option.elim_some]
  omega

theorem processRewardTrackerEvent_settles {ev : EventPowerUpdate} (hl : s.Ledger)
    (he : 0 ≤ ev.totalSat) (h : s.processRewardTrackerEvent ev = .ok s') : Settles s s' := by
  cases ev with
  | btcActivated fp _ _ => exact modified_settles (restakes_add he) hl h
  | btcUnbonded fp _ _ => exact modified_settles restakes_sub hl h

theorem foldlM_settles {α : Type} {f : State → α → Result State} {l : List α}
    (hf : ∀ a ∈ l, ∀ s₁ s₂ : State, s₁.Ledger → f s₁ a = .ok s₂ → Settles s₁ s₂) (hl : s.Ledger)
    (h : l.foldlM f s = .ok s') : Settles s s' := by
  refine foldlM_keeps (P := Settles s) ?_ (.refl hl) h
  intro a ha s₁ s₂ hs₁ hst
  exact hs₁.trans (hf a ha s₁ s₂ hs₁.ledger hst)

theorem processRewardTrackerEventsAtHeight_settles {height : Nat} (hl : s.Ledger)
    (h : s.processRewardTrackerEventsAtHeight height = .ok s') : Settles s s' := by
  simp only [processRewardTrackerEventsAtHeight,ok_iff] at h
  obtain ⟨s₁,hlp,rfl⟩ := h
  have he : ∀ ev ∈ s.getOrNewRewardTrackerEvent height, 0 ≤ ev.totalSat := by
    intro ev hev
    rw [getOrNewRewardTrackerEvent,getD] at hev
    cases hg : s.rewardTrackerEvents.get height with
    | none => simp [hg] at hev
    | some evs =>
      rw [hg] at hev
      exact hl.events height evs ev hg hev
  have hs := foldlM_settles
    (fun ev hev s₁ s₂ hl₁ h₁ => processRewardTrackerEvent_settles hl₁ (he ev hev) h₁) hl hlp
  have hl₁ := hs.ledger
  refine ⟨⟨hl₁.gauge,hl₁.staking,hl₁.direct,hl₁.period,hl₁.mono,hl₁.rewards,hl₁.total,
    hl₁.sats,hl₁.start,?_⟩,hs.staking,hs.direct,hs.liabilities_le⟩
  intro height' evs ev hg
  rw [get_delete] at hg
  split at hg
  · cases hg
  · exact hl₁.events height' evs ev hg

theorem processRewardTrackerEvents_settles {height : Nat} (hl : s.Ledger)
    (h : s.processRewardTrackerEvents height = .ok s') : Settles s s' := by
  simp only [processRewardTrackerEvents,ok_iff] at h
  obtain ⟨s₁,hlp,rfl⟩ := h
  have hs := foldlM_settles
    (fun _ _ s₁ s₂ hl₁ h₁ => processRewardTrackerEventsAtHeight_settles hl₁ h₁) hl hlp
  have hl₁ := hs.ledger
  exact ⟨⟨hl₁.gauge,hl₁.staking,hl₁.direct,hl₁.period,hl₁.mono,hl₁.rewards,hl₁.total,
    hl₁.sats,hl₁.start,hl₁.events⟩,hs.staking,hs.direct,hs.liabilities_le⟩

end State

end AnonChain.Incentive
