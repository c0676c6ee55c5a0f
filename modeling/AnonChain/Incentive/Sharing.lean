import AnonChain.Incentive.Settling

/-! Fees enter with the coins, are shared out to those who voted, and leave with the coins. -/

namespace AnonChain.Incentive

open Lib KVStore Coins
open KVStore (getD get_delete)
open Coins (amountOf getCoinsPortion_le)
open Finality (VotingPowerDistCache FinalityProviderDistInfo)

theorem decPrecision_pos : 0 < decPrecision := by norm_num [decPrecision]

namespace State

variable {s s' : State} {bank bank' : Bank} {d : Denom} {sType : StakeholderType}
  {addr : AccAddress}
  {gauge direct : Coins} {l : List FinalityProviderDistInfo} {height : Nat}
  {gauges : KVStore Nat Coins}

theorem addRewards_liabilities {fp : AccAddress} {r : Coins} (hl : s.Ledger)
    (hr : ∀ d, 0 ≤ amountOf r d) (h : s.addFinalityProviderRewardsForBtcDelegations fp r = .ok s') :
    s'.Ledger ∧ s'.btcStakingGauges = s.btcStakingGauges ∧ s'.fpDirectGauges = s.fpDirectGauges ∧
      ∀ d, s'.liabilities d = s.liabilities d+decimalRewards*amountOf r d := by
  simp only [addFinalityProviderRewardsForBtcDelegations,
    getFinalityProviderCurrentRewards,ok_iff] at h
  obtain ⟨c,hc,sum,hs,rfl⟩ := h
  have ha := amountOf_add hs
  have hch : IndexChange s fp { c with currentRewards := sum }
      (s.setFinalityProviderCurrentRewards fp { c with currentRewards := sum }) :=
    ⟨rfl,rfl,rfl,rfl,rfl,rfl,fun _ _ _ _ => rfl⟩
  have hld := hch.ledger hl (hl.period fp c hc) (fun d p q hp hq => hl.mono fp c d p q hc hp hq)
    (fun d => by
      have hold := hl.rewards fp c d hc
      have hn := hr d
      rw [ha d]
      omega)
    (hl.total fp c hc) (fun c₁ hc₁ => by
      cases hc.symm.trans hc₁
      exact le_rfl)
  refine ⟨hld,rfl,rfl,?_⟩
  intro d
  have hi : (s.setFinalityProviderCurrentRewards fp { c with currentRewards := sum }).index d =
      s.index d := by
    funext fp'
    by_cases he : fp' = fp
    · have hg := hch.get_current fp'
      rw [if_pos he] at hg
      rw [index_of_some hg,he,index_of_some hc]
      rfl
    · exact hch.index_other he
  have ho : (s.setFinalityProviderCurrentRewards fp { c with currentRewards := sum }).owed d =
      s.owed d := by
    rw [owed,hi]
    rfl
  have hcr := hch.currentDebt_eq (d := d)
  rw [hc,Option.elim_some] at hcr
  rw [ha d] at hcr
  have hd : (s.setFinalityProviderCurrentRewards fp { c with currentRewards := sum }).currentDebt d
      - s.currentDebt d = amountOf r d := by omega
  rw [hch.liabilities_eq,hd,ho]
  ring

theorem accumulateRewardGauge_liabilities {r : Coins} (hl : s.Ledger)
    (hr : ∀ d, 0 ≤ amountOf r d) (h : s.accumulateRewardGauge sType addr r = .ok s') :
    s'.Ledger ∧ s'.btcStakingGauges = s.btcStakingGauges ∧ s'.fpDirectGauges = s.fpDirectGauges ∧
      ∀ d, s'.liabilities d ≤ s.liabilities d+decimalRewards*amountOf r d := by
  obtain ⟨gauges,rfl,hl',hd⟩ := accumulateRewardGauge_credit hl hr h
  refine ⟨hl',rfl,rfl,?_⟩
  intro d
  have hm := mul_le_mul_of_nonneg_left (hd d) decimalRewards_pos.le
  have hn : liabilities { s with rewardGauges := gauges } d =
      decimalRewards*(gaugeDebt { s with rewardGauges := gauges } d+s.stakingDebt d+s.directDebt d +
        s.currentDebt d)+s.owed d := rfl
  rw [hn,liabilities]
  simp only [mul_add] at hm ⊢
  omega

def votingPortion (totalVotingPowerOfVoters : Nat) (fp : FinalityProviderDistInfo) : Int :=
  ((fp.totalBondedSat : Int)*decPrecision).tdiv totalVotingPowerOfVoters

theorem votingPortion_nonneg (total : Nat) (fp : FinalityProviderDistInfo) :
    0 ≤ votingPortion total fp := by
  rw [votingPortion,Int.tdiv_eq_ediv_of_nonneg (mul_nonneg (by omega) decPrecision_pos.le)]
  exact Int.ediv_nonneg (mul_nonneg (by omega) decPrecision_pos.le) (Int.natCast_nonneg total)

theorem sum_votingPortion_le (l : List FinalityProviderDistInfo) (total : Nat) :
    total*(l.map (votingPortion total)).sum ≤
      ((l.map (·.totalBondedSat)).sum : Nat)*decPrecision := by
  induction l with
  | nil => simp
  | cons fp l ih =>
    have hf : total*votingPortion total fp ≤ (fp.totalBondedSat : Int)*decPrecision := by
      rcases Nat.eq_zero_or_pos total with hz | hp
      · subst hz
        simpa using mul_nonneg (Int.natCast_nonneg fp.totalBondedSat) decPrecision_pos.le
      · exact Int.mul_ediv_self_le (by omega)
    simp only [List.map_cons,List.sum_cons,mul_add,Nat.cast_add,add_mul] at ih ⊢
    omega

theorem rewardFinalityProvider_liabilities {total : Nat} {fp : FinalityProviderDistInfo}
    (hl : s.Ledger) (hg : ∀ d, 0 ≤ amountOf gauge d) (hd : ∀ d, 0 ≤ amountOf direct d)
    (h : rewardFinalityProvider gauge direct total s fp = .ok s') :
    s'.Ledger ∧ s'.btcStakingGauges = s.btcStakingGauges ∧ s'.fpDirectGauges = s.fpDirectGauges ∧
      ∀ d, decPrecision*s'.liabilities d ≤ decPrecision*s.liabilities d +
        decimalRewards*(amountOf gauge d+amountOf direct d)*votingPortion total fp := by
  simp only [rewardFinalityProvider,ok_iff] at h
  obtain ⟨-,share,hsr,commission,hc,own,how,sum,hs,s₁,hcr,rest,hr,ha⟩ := h
  have hs' := amountOf_add hs
  have hr' := amountOf_sub hr
  have hc' := fun d => (getCoinsPortion_le hc d).1
  have how' := fun d => (getCoinsPortion_le how d).1
  obtain ⟨hl₁,hst₁,hd₁,hle₁⟩ := accumulateRewardGauge_liabilities hl (fun d => by
    have := hc' d
    have := how' d
    rw [hs' d]
    omega) hcr
  obtain ⟨hl₂,hst₂,hd₂,hle₂⟩ := addRewards_liabilities hl₁ (fun d => (hr' d).2) ha
  refine ⟨hl₂,hst₂.trans hst₁,hd₂.trans hd₁,?_⟩
  intro d
  have hp := votingPortion_nonneg total fp
  have hsh : decPrecision*amountOf share d ≤ amountOf gauge d*votingPortion total fp :=
    (getCoinsPortion_le hsr d).2 (hg d) hp
  have ho : decPrecision*amountOf own d ≤ amountOf direct d*votingPortion total fp :=
    (getCoinsPortion_le how d).2 (hd d) hp
  -- What goes to the provider and to its delegators is the share and the direct rewards.
  have hgv : s'.liabilities d ≤
      s.liabilities d+decimalRewards*(amountOf share d+amountOf own d) := by
    have h₁ := hle₁ d
    rw [hle₂ d,(hr' d).1]
    rw [hs' d] at h₁
    simp only [mul_add,mul_sub] at h₁ ⊢
    omega
  calc decPrecision*s'.liabilities d
      ≤ decPrecision*(s.liabilities d+decimalRewards*(amountOf share d+amountOf own d)) :=
        mul_le_mul_of_nonneg_left hgv decPrecision_pos.le
    _ = decPrecision*s.liabilities d+decimalRewards*(decPrecision*amountOf share d +
          decPrecision*amountOf own d) := by ring
    _ ≤ decPrecision*s.liabilities d+decimalRewards*(amountOf gauge d*votingPortion total fp +
          amountOf direct d*votingPortion total fp) := by
        have hb := mul_le_mul_of_nonneg_left (add_le_add hsh ho) decimalRewards_pos.le
        omega
    _ = _ := by ring

theorem rewardFinalityProviders_liabilities {total : Nat}
    (hl : s.Ledger) (hg : ∀ d, 0 ≤ amountOf gauge d) (hd : ∀ d, 0 ≤ amountOf direct d)
    (h : l.foldlM (rewardFinalityProvider gauge direct total) s = .ok s') :
    s'.Ledger ∧ s'.btcStakingGauges = s.btcStakingGauges ∧ s'.fpDirectGauges = s.fpDirectGauges ∧
      ∀ d, decPrecision*s'.liabilities d ≤ decPrecision*s.liabilities d +
        decimalRewards*(amountOf gauge d+amountOf direct d)*(l.map (votingPortion total)).sum := by
  induction l generalizing s with
  | nil =>
    cases h
    simp [hl]
  | cons fp l ih =>
    rw [List.foldlM_cons,bind_eq_ok] at h
    obtain ⟨s₁,hf,hr⟩ := h
    obtain ⟨hl₁,hs₁,hd₁,hle₁⟩ := rewardFinalityProvider_liabilities hl hg hd hf
    obtain ⟨hl₂,hs₂,hd₂,hle₂⟩ := ih hl₁ hr
    refine ⟨hl₂,hs₂.trans hs₁,hd₂.trans hd₁,?_⟩
    intro d
    have h₁ := hle₁ d
    have h₂ := hle₂ d
    rw [List.map_cons,List.sum_cons,mul_add]
    omega

theorem rewardFinalityProviders_le (hl : s.Ledger)
    (hg : ∀ d, 0 ≤ amountOf gauge d) (hdr : ∀ d, 0 ≤ amountOf direct d)
    (h : l.foldlM (rewardFinalityProvider gauge direct (l.map (·.totalBondedSat)).sum) s = .ok s')
    (d : Denom) : s'.liabilities d ≤
      s.liabilities d+decimalRewards*(amountOf gauge d+amountOf direct d) := by
  have hs := sum_votingPortion_le l (l.map (·.totalBondedSat)).sum
  obtain ⟨-, -, -,hle⟩ := rewardFinalityProviders_liabilities hl hg hdr h
  have hgv := mul_nonneg decimalRewards_pos.le (add_nonneg (hg d) (hdr d))
  cases l with
  | nil =>
    cases h
    omega
  | cons fp l =>
    -- Without voting power the first provider could not be rewarded.
    have hp : ((fp :: l).map (·.totalBondedSat)).sum ≠ 0 := by
      rw [List.foldlM_cons,bind_eq_ok] at h
      obtain ⟨s₁,hf, -⟩ := h
      simp only [rewardFinalityProvider,ok_iff] at hf
      exact hf.1
    have hpr :
    ((fp :: l).map (votingPortion ((fp :: l).map (·.totalBondedSat)).sum)).sum ≤ decPrecision := by
      refine le_of_mul_le_mul_left hs ?_
      exact Int.natCast_pos.mpr (Nat.pos_of_ne_zero hp)
    have hb := mul_le_mul_of_nonneg_left hpr hgv
    have hd := hle d
    refine le_of_mul_le_mul_left ?_ decPrecision_pos
    rw [mul_add,mul_comm decPrecision (decimalRewards*_)]
    omega

theorem getD_staking_nonneg (hl : s.Ledger) (height : Nat) (d : Denom) :
    0 ≤ amountOf (s.btcStakingGauges.getD height .empty) d := by
  rw [getD]
  cases hg : s.btcStakingGauges.get height with
  | none => simp
  | some c => exact hl.staking height c d hg

theorem getD_direct_nonneg (hl : s.Ledger) (height : Nat) (d : Denom) :
    0 ≤ amountOf (s.fpDirectGauges.getD height .empty) d := by
  rw [getD]
  cases hg : s.fpDirectGauges.get height with
  | none => simp
  | some c => exact hl.direct height c d hg

theorem sumBy_delete_getD (gauges : KVStore Nat Coins) (height : Nat) (d : Denom) :
    (gauges.delete height).sumBy (fun _ c => amountOf c d)+amountOf (gauges.getD height .empty) d =
      gauges.sumBy (fun _ c => amountOf c d) := by
  rw [← sumBy_delete (fun _ c => amountOf c d) gauges height,getD]
  cases gauges.get height <;> rfl

theorem pruneGauges_ledger (hl : s.Ledger) (height : Nat) : (s.pruneGauges height).Ledger := by
  refine ⟨hl.gauge,?_,?_,hl.period,hl.mono,hl.rewards,hl.total,hl.sats,hl.start,hl.events⟩
  · intro h c d hg
    simp only [pruneGauges,get_delete] at hg
    split at hg
    · cases hg
    · exact hl.staking h c d hg
  · intro h c d hg
    simp only [pruneGauges,get_delete] at hg
    split at hg
    · cases hg
    · exact hl.direct h c d hg

theorem pruneGauges_liabilities (s : State) (height : Nat) (d : Denom) :
    (s.pruneGauges height).liabilities d = s.liabilities d-decimalRewards *
      (amountOf (s.btcStakingGauges.getD height .empty) d +
        amountOf (s.fpDirectGauges.getD height .empty) d) := by
  have hs := sumBy_delete_getD s.btcStakingGauges height d
  have hd := sumBy_delete_getD s.fpDirectGauges height d
  rw [liabilities,liabilities,stakingDebt,stakingDebt,directDebt,directDebt,← hs,← hd]
  change decimalRewards*(s.gaugeDebt d+_+_+s.currentDebt d)+s.owed d = _
  simp only [pruneGauges]
  ring

theorem rewardBTCStaking_liabilities {dc : VotingPowerDistCache} {voters : BIP340PubKey → Bool}
    (hl : s.Ledger) (h : s.rewardBTCStaking height dc voters = .ok s') :
    s'.Ledger ∧ ∀ d, s'.liabilities d ≤ s.liabilities d := by
  simp only [rewardBTCStaking,ok_iff] at h
  obtain ⟨s₁,hp,s₂,hlp,rfl⟩ := h
  have hs := processRewardTrackerEvents_settles hl hp
  have hg := getD_staking_nonneg hl height
  have hd := getD_direct_nonneg hl height
  obtain ⟨hl₂,hsn₂,hd₂, -⟩ :=
    rewardFinalityProviders_liabilities hs.ledger hg hd hlp
  refine ⟨pruneGauges_ledger hl₂ height,?_⟩
  intro d
  have hle₁ := hs.liabilities_le d
  have hle₂ := rewardFinalityProviders_le hs.ledger hg hd hlp d
  rw [pruneGauges_liabilities,hsn₂,hd₂,hs.staking,hs.direct]
  omega

theorem sumBy_set_le (hold : ∀ h c d, gauges.get h = some c → 0 ≤ amountOf c d)
    (height : Nat) (r : Coins) (d : Denom) :
    (gauges.set height r).sumBy (fun _ c => amountOf c d) ≤
      gauges.sumBy (fun _ c => amountOf c d)+amountOf r d := by
  have hs := sumBy_set (fun (_ : Nat) (c : Coins) => amountOf c d) gauges height r
  cases hg : gauges.get height with
  | none =>
    rw [hg,Option.elim_none] at hs
    omega
  | some c =>
    have hn := hold height c d hg
    rw [hg,Option.elim_some] at hs
    omega

theorem get_set_nonneg (hold : ∀ h c d, gauges.get h = some c → 0 ≤ amountOf c d)
    (height : Nat) {r : Coins} (hr : ∀ d, 0 ≤ amountOf r d) :
    ∀ h c d, (gauges.set height r).get h = some c → 0 ≤ amountOf c d := by
  intro h c d hg
  exact forall_set hr (fun h c hc d => hold h c d hc) h c hg d

/-- The debts grow by no more than the balance of the module. -/
structure Funds (s : State) (bank : Bank) (s' : State) (bank' : Bank) : Prop where
  ledger : s'.Ledger
  liabilities_le : ∀ d, s'.liabilities d-s.liabilities d ≤
    decimalRewards*(Coins.amountOf bank'.incentive d-Coins.amountOf bank.incentive d)

theorem accumulateRewards_funds {staking direct : Coins} (hl : s.Ledger)
    (hst : ∀ d, 0 ≤ amountOf staking d) (hdr : ∀ d, 0 ≤ amountOf direct d)
    (h : s.accumulateRewards bank height staking direct = .ok (s',bank')) :
    Funds s bank s' bank' := by
  simp only [accumulateRewards,bind_eq_ok] at h
  obtain ⟨total,ht,h⟩ := h
  have hsm := amountOf_add ht
  -- The two gauges together grow by at most the total.
  have hg : ∀ s₂, s₂ = (if isAllPositive direct = true then
      ({ s with
        btcStakingGauges := s.btcStakingGauges.set height staking
        fpDirectGauges := s.fpDirectGauges.set height direct } : State)
      else { s with btcStakingGauges := s.btcStakingGauges.set height staking }) →
      s₂.Ledger ∧ ∀ d, s₂.liabilities d ≤ s.liabilities d+decimalRewards*amountOf total d := by
    intro s₂ hs₂
    have hse := sumBy_set_le hl.staking height staking
    have hgt := get_set_nonneg hl.staking height hst
    split at hs₂
    · subst hs₂
      refine ⟨⟨hl.gauge,hgt,get_set_nonneg hl.direct height hdr,hl.period,hl.mono,hl.rewards,
        hl.total,hl.sats,hl.start,hl.events⟩,?_⟩
      intro d
      have hb := mul_le_mul_of_nonneg_left
        (add_le_add (hse d) (sumBy_set_le hl.direct height direct d)) decimalRewards_pos.le
      rw [hsm d,liabilities,liabilities]
      change decimalRewards*(s.gaugeDebt d+_+_+s.currentDebt d)+s.owed d ≤ _
      simp only [mul_add,stakingDebt,directDebt] at hb ⊢
      omega
    · subst hs₂
      refine ⟨⟨hl.gauge,hgt,hl.direct,hl.period,hl.mono,hl.rewards,hl.total,hl.sats,hl.start,
        hl.events⟩,?_⟩
      intro d
      have ho := mul_le_mul_of_nonneg_left (hse d) decimalRewards_pos.le
      have hr := mul_nonneg decimalRewards_pos.le (hdr d)
      rw [hsm d,liabilities,liabilities]
      change decimalRewards*(s.gaugeDebt d+_+s.directDebt d+s.currentDebt d)+s.owed d ≤ _
      simp only [mul_add,stakingDebt] at ho ⊢
      omega
  split at h
  · simp only [ok_iff,Prod.exists,Prod.mk.injEq] at h
    obtain ⟨feeCollector,incentive,hsn,hs',rfl⟩ := h
    obtain ⟨hld,hle⟩ := hg s' hs'.symm
    refine ⟨hld,?_⟩
    intro d
    have hd := hle d
    rw [(bank.sendCoins_amounts hsn d).2.1,add_sub_cancel_left]
    omega
  · rename_i hn
    simp only [pure_eq_ok,Prod.mk.injEq] at h
    obtain ⟨hs',rfl⟩ := h
    obtain ⟨hld,hle⟩ := hg s' hs'.symm
    refine ⟨hld,?_⟩
    intro d
    have hz : amountOf total d = 0 := by
      refine amountOf_of_not_isAllPositive (Bool.eq_false_iff.mpr hn)
        (fun d v hv => get_add_ne_zero ht hv) ?_ d
      intro d'
      rw [hsm d']
      exact add_nonneg (hst d') (hdr d')
    have hd := hle d
    rw [hz,mul_zero] at hd
    simpa using hd

theorem fpsDirectRwds_nonneg {fees r : Coins} (h : s.fpsDirectRwds fees = .ok r) (d : Denom) :
    0 ≤ amountOf r d := by
  unfold fpsDirectRwds at h
  split at h
  · cases h
    exact le_rfl
  · exact (getCoinsPortion_le h d).1

theorem handleCoinsInFeeCollector_funds (hl : s.Ledger)
    (h : s.handleCoinsInFeeCollector bank height = .ok (s',bank')) : Funds s bank s' bank' := by
  unfold handleCoinsInFeeCollector at h
  split at h
  · simp only [bind_eq_ok] at h
    obtain ⟨direct,hd,staking,hs,ha⟩ := h
    exact accumulateRewards_funds hl (fun d => (getCoinsPortion_le hs d).1)
      (fpsDirectRwds_nonneg hd) ha
  · cases h
    exact ⟨hl,fun d => by simp⟩

theorem setFullyWithdrawn_liabilities {rg : RewardGauge}
    (hl : s.Ledger) (hgt : s.getRewardGauge sType addr = some rg) :
    (s.setRewardGauge sType addr rg.setFullyWithdrawn).Ledger ∧
      ∀ d, (s.setRewardGauge sType addr rg.setFullyWithdrawn).liabilities d = s.liabilities d -
        decimalRewards*(amountOf rg.coins d-amountOf rg.withdrawnCoins d) := by
  refine ⟨⟨?_,hl.staking,hl.direct,hl.period,hl.mono,hl.rewards,hl.total,hl.sats,
    hl.start,hl.events⟩,?_⟩
  · intro k g d hg
    rcases get_set_cases hg with ⟨_,rfl⟩ | ⟨_,hg⟩
    · have hold := hl.gauge _ rg d hgt
      exact ⟨hold.1.trans hold.2,le_rfl⟩
    · exact hl.gauge k g d hg
  · intro d
    have hs := sumBy_set
      (fun (_ : GaugeKey) (g : RewardGauge) => amountOf g.coins d-amountOf g.withdrawnCoins d)
      s.rewardGauges (toLex (sType,addr)) rg.setFullyWithdrawn
    rw [getRewardGauge] at hgt
    simp only [hgt,Option.elim_some,RewardGauge.setFullyWithdrawn,sub_self,add_zero] at hs
    have hd : (s.setRewardGauge sType addr rg.setFullyWithdrawn).gaugeDebt d =
        s.gaugeDebt d-(amountOf rg.coins d-amountOf rg.withdrawnCoins d) :=
      eq_sub_of_add_eq hs
    rw [liabilities,hd,liabilities]
    change decimalRewards*(_+s.stakingDebt d+s.directDebt d+s.currentDebt d)+s.owed d = _
    ring

theorem withdrawReward_funds {blockedAddr : AccAddress → Bool}
    {coins : Coins} (hl : s.Ledger)
    (h : s.withdrawReward bank blockedAddr sType addr = .ok (s',bank',coins)) :
    Funds s bank s' bank' := by
  simp only [withdrawReward,ok_iff,Prod.exists,Prod.mk.injEq,RewardGauge.getWithdrawableCoins] at h
  obtain ⟨rg,hrg,r,hr, -, -,incentive,account,hs,rfl,rfl, -⟩ := h
  obtain ⟨hld,hle⟩ := setFullyWithdrawn_liabilities hl hrg
  refine ⟨hld,?_⟩
  intro d
  rw [hle d,(bank.sendCoins_amounts hs d).1,(amountOf_sub hr d).1]
  simp only [mul_sub]
  omega

theorem gauge_le_gaugeDebt (hl : s.Ledger) {k : GaugeKey} {g : RewardGauge}
    (hg : s.rewardGauges.get k = some g)
    (d : Denom) : amountOf g.coins d-amountOf g.withdrawnCoins d ≤ s.gaugeDebt d := by
  refine le_sumBy (f := fun (_ : GaugeKey) (g : RewardGauge) =>
    amountOf g.coins d-amountOf g.withdrawnCoins d) ?_ hg
  intro k g hg
  have := hl.gauge k g d hg
  omega

theorem floors_le_owed (s : State) (d : Denom) :
    decimalRewards*s.btcDelegationRewardsTracker.sumBy (fun k t => s.accrued d k t/decimalRewards) ≤
      s.owed d := by
  rw [← sumBy_mul_left,owed,RewardIndex.owed]
  refine sumBy_le_sumBy ?_
  intro k t _
  exact Int.mul_ediv_self_le decimalRewards_pos.ne'

end State

end AnonChain.Incentive
