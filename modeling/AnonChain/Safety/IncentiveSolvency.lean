import AnonChain.Incentive.Sharing
import AnonChain.Rewards.Steps
import AnonChain.Rewards.Regtest

/-! The balance of the incentive module covers everything the module owes, in every run. -/

namespace AnonChain.Rewards

open Lib KVStore Coins
open KVStore (sumBy_nonneg)
open Coins (amountOf)
open Incentive (StakeholderType RewardGauge decimalRewards State decimalRewards_pos)
open Incentive.State (Funds)

/-- The records of the incentive module are in order and its balance covers all debts. -/
structure Backed (w : World) : Prop where
  ledger : w.ictv.Ledger
  covered : ∀ d, w.ictv.liabilities d ≤ decimalRewards*Coins.amountOf w.bank.incentive d

variable {w w' w₀ : World} {s s' : State} {a : AccAddress} {blockedAddr : AccAddress → Bool}

theorem Backed.funds {bank' : Bank} (h : Backed w) (hf : Funds w.ictv w.bank s' bank') :
    Backed { w with ictv := s', bank := bank' } := by
  refine ⟨hf.ledger,?_⟩
  intro d
  have hd := h.covered d
  have hg := hf.liabilities_le d
  rw [mul_sub] at hg
  dsimp only
  omega

theorem addRewardTrackerEvent_ledger {height : Nat}
    {ev : Incentive.EventPowerUpdate} (hl : s.Ledger)
    (hev : 0 ≤ ev.totalSat) : (s.addRewardTrackerEvent height ev).Ledger := by
  refine ⟨hl.gauge,hl.staking,hl.direct,hl.period,hl.mono,hl.rewards,hl.total,hl.sats,hl.start,?_⟩
  intro h evs ev' hg hm
  rcases get_set_cases hg with ⟨_,rfl⟩ | ⟨_,hg⟩
  · rw [List.mem_append,List.mem_singleton] at hm
    cases hm with
    | inl hold =>
      rw [State.getOrNewRewardTrackerEvent,getD] at hold
      cases he : s.rewardTrackerEvents.get height with
      | none => simp [he] at hold
      | some evs =>
        rw [he] at hold
        exact hl.events height evs ev' he hold
    | inr hn =>
      rw [hn]
      exact hev
  · exact hl.events h evs ev' hg hm

theorem IncentiveStep.ledger (h : IncentiveStep s s') (hl : s.Ledger) :
    s'.Ledger ∧ ∀ d, s'.liabilities d ≤ s.liabilities d := by
  cases h with
  | reward hr => exact State.rewardBTCStaking_liabilities hl hr
  | modified hm =>
    have hs := State.modified_settles State.restakes_pure hl hm
    exact ⟨hs.ledger,hs.liabilities_le⟩
  | event he => exact ⟨addRewardTrackerEvent_ledger hl he,fun _ => le_rfl⟩
  | params | withdrawAddrs =>
    exact ⟨⟨hl.gauge,hl.staking,hl.direct,hl.period,hl.mono,hl.rewards,hl.total,hl.sats,hl.start,
      hl.events⟩,fun _ => le_rfl⟩

theorem Paid.backed (h : Paid a w w') (hb : Backed w) : Backed w' := by
  cases h with
  | nothing => exact hb
  | coins hp _ hg hs =>
    obtain ⟨hl, -, -,hle⟩ := State.accumulateRewardGauge_liabilities hb.ledger
      (isAllPositive_nonneg hp) hg
    refine ⟨hl,?_⟩
    intro d
    have hd := hle d
    have hc := hb.covered d
    dsimp only
    rw [(w.bank.sendCoins_amounts hs d).2.1,mul_add]
    omega

theorem Effect.backed (h : Effect w w') (hb : Backed w) : Backed w' := by
  cases h with
  | settle _ _ hp _ _ =>
    have hb' := hp.backed hb
    exact ⟨hb'.ledger,hb'.covered⟩
  | incentive hs =>
    obtain ⟨hl,hle⟩ := hs.ledger hb.ledger
    exact ⟨hl,fun d => (hle d).trans (hb.covered d)⟩
  | intercept h => exact hb.funds (State.handleCoinsInFeeCollector_funds hb.ledger h)
  | withdraw h => exact hb.funds (State.withdrawReward_funds hb.ledger h)
  | cache | pool | fund | fees => exact ⟨hb.ledger,hb.covered⟩

theorem Effects.backed (h : Effects w w') (hb : Backed w) : Backed w' := by
  induction h with
  | refl => exact hb
  | tail _ hs ih => exact hs.backed ih

theorem backed_genesis (h : Genesis w) : Backed w := by
  constructor
  · refine ⟨?_,?_,?_,?_,?_,?_,?_,?_,?_,?_⟩
    all_goals simp [h.noGauges,h.noStakingGauges,h.noDirectGauges,h.noCurrent,
      h.noTrackers,h.noEvents]
  · intro d
    have hz : w.ictv.liabilities d = 0 := by
      simp [State.liabilities,State.gaugeDebt,State.stakingDebt,
        State.directDebt,State.currentDebt,State.owed,RewardIndex.owed,
        sumBy,empty,h.noGauges,h.noStakingGauges,h.noDirectGauges,h.noCurrent,h.noTrackers]
    rw [hz]
    exact mul_nonneg decimalRewards_pos.le (h.incentive d)

theorem Follows.backed (h : Follows w₀ w) (h0 : Genesis w₀) : Backed w :=
  h.effects.backed (backed_genesis h0)

theorem Backed.balance_ge (h : Backed w) (d : Denom) :
    w.ictv.gaugeDebt d+w.ictv.stakingDebt d+w.ictv.directDebt d+w.ictv.currentDebt d +
        w.ictv.btcDelegationRewardsTracker.sumBy (fun k t => w.ictv.accrued d k t/decimalRewards) ≤
      amountOf w.bank.incentive d := by
  have hf := w.ictv.floors_le_owed d
  have hc := h.covered d
  rw [State.liabilities] at hc
  refine le_of_mul_le_mul_left ?_ decimalRewards_pos
  simp only [mul_add] at hc ⊢
  omega

theorem currentDebt_nonneg (hl : s.Ledger) (d : Denom) : 0 ≤ s.currentDebt d := by
  exact sumBy_nonneg (fun fp c hc => hl.rewards fp c d hc)

theorem stakingDebt_nonneg (hl : s.Ledger) (d : Denom) : 0 ≤ s.stakingDebt d := by
  exact sumBy_nonneg (fun height c hc => hl.staking height c d hc)

theorem directDebt_nonneg (hl : s.Ledger) (d : Denom) : 0 ≤ s.directDebt d := by
  exact sumBy_nonneg (fun height c hc => hl.direct height c d hc)

theorem floors_nonneg (hl : s.Ledger) (d : Denom) :
    0 ≤ s.btcDelegationRewardsTracker.sumBy (fun k t => s.accrued d k t/decimalRewards) := by
  refine sumBy_nonneg ?_
  intro k t ht
  exact Int.ediv_nonneg (hl.accrued_nonneg ht) decimalRewards_pos.le

theorem Backed.gauge_le_balance (h : Backed w) {k : Incentive.GaugeKey} {g : RewardGauge}
    (hg : w.ictv.rewardGauges.get k = some g) (d : Denom) :
    amountOf g.coins d-amountOf g.withdrawnCoins d ≤ amountOf w.bank.incentive d := by
  have ha := h.balance_ge d
  have hgg := State.gauge_le_gaugeDebt h.ledger hg d
  have hc := currentDebt_nonneg h.ledger d
  have hs := stakingDebt_nonneg h.ledger d
  have hd := directDebt_nonneg h.ledger d
  have hf := floors_nonneg h.ledger d
  omega

theorem Backed.withdrawReward_error {sType : StakeholderType} {g : RewardGauge}
    {e : Failure} (h : Backed w) (hg : w.ictv.getRewardGauge sType a = some g)
    (he : w.ictv.withdrawReward w.bank blockedAddr sType a = .error e) :
    e = .err .ErrNoWithdrawableCoins "" ∨
      e = .err .ErrUnauthorized "%s is not allowed to receive external funds" ∨
      e = Coins.overflow := by
  have hl : ∀ d, amountOf g.withdrawnCoins d ≤ amountOf g.coins d :=
    fun d => (h.ledger.gauge _ g d hg).2
  simp only [State.withdrawReward,hg,orFail,RewardGauge.getWithdrawableCoins] at he
  cases hr : sub g.coins g.withdrawnCoins with
  | error e' =>
    simp only [hr,bind,Except.bind] at he
    cases he
    exact .inr (.inr (sub_error hl hr))
  | ok r =>
    simp only [hr,bind,Except.bind,ensure] at he
    split at he
    · rename_i e₁ hp
      split at hp
      · cases hp
      · cases hp
        cases he
        exact .inl rfl
    · rename_i hp
      split at hp
      · rename_i ha
        split at he
        · rename_i e₁ hb
          split at hb
          · cases hb
          · cases hb
            cases he
            exact .inr (.inl rfl)
        · split at he
          · rename_i e₂ hs
            cases he
            have hf : ∀ d, amountOf r d ≤ amountOf w.bank.incentive d := by
              intro d
              rw [(amountOf_sub hr d).1]
              exact h.gauge_le_balance hg d
            exact .inr (.inr (w.bank.sendCoins_error (isAllPositive_valid ha) hf hs))
          · cases he
      · cases hp

/-- The worlds in which the handler of a withdrawal pays out a gauge. -/
inductive PaysOut (blockedAddr : AccAddress → Bool) (w : World) (addr : AccAddress) :
    StakeholderType → World → Prop where
  | requested {sType : StakeholderType} {w₁ w₂ : World} :
      onIncentive (fun s => s.sendAllBtcDelegationTypeToRewardsGauge sType addr) w = .ok () w₁ →
      Costaking.HookIncentives.beforeRewardWithdraw sType addr w₁ = .ok () w₂ →
      PaysOut blockedAddr w addr sType w₂
  | costaker {w₂ w₃ w₄ : World} {coins : Coins} : PaysOut blockedAddr w addr .BTC_STAKER w₂ →
      tolerate Failure.isPanic .empty (withdrawGauge blockedAddr .BTC_STAKER addr) w₂ =
        .ok coins w₃ →
      tolerate Failure.isPanic () (Costaking.HookIncentives.beforeRewardWithdraw .COSTAKER addr)
        w₃ = .ok () w₄ →
      PaysOut blockedAddr w addr .COSTAKER w₄

theorem PaysOut.follows {sType : StakeholderType}
    (hp : PaysOut blockedAddr w a sType w') (h : Follows w₀ w) : Follows w₀ w' := by
  induction hp with
  | requested hs hh =>
    have h₁ := (tracked_onIncentive w₀ (fun _ _ => sendAll_steps) w h).of_ok hs
    exact (tracked_beforeRewardWithdraw w₀ _ a _ h₁).of_ok hh
  | costaker _ hpy hh ih =>
    have h₃ := ((tracked_withdrawGauge w₀ blockedAddr .BTC_STAKER a).tolerate _ ih).of_ok hpy
    exact ((tracked_beforeRewardWithdraw w₀ .COSTAKER a).tolerate _ h₃).of_ok hh

/-- In every run the balance of the incentive module is at least what it owes, and a withdrawal from
a gauge never finds too little. -/
theorem incentive_solvent {blockedAddr : AccAddress → Bool}
    (h : (rewards blockedAddr).Reachable w) : (∀ d, w.ictv.rewardGauges.sumBy
            (fun _ g => Coins.amountOf g.coins d-Coins.amountOf g.withdrawnCoins d) +
          w.ictv.btcStakingGauges.sumBy (fun _ c => Coins.amountOf c d) +
          w.ictv.fpDirectGauges.sumBy (fun _ c => Coins.amountOf c d) +
          w.ictv.finalityProviderCurrentRewards.sumBy
            (fun _ c => Coins.amountOf c.currentRewards d) +
          w.ictv.btcDelegationRewardsTracker.sumBy
            (fun k t => w.ictv.accrued d k t/decimalRewards) ≤
        Coins.amountOf w.bank.incentive d) ∧
      ∀ sType addr w' g e, PaysOut blockedAddr w addr sType w' →
        w'.ictv.getRewardGauge sType addr = some g →
        w'.ictv.withdrawReward w'.bank blockedAddr sType addr = .error e →
        e = .err .ErrNoWithdrawableCoins "" ∨
          e = .err .ErrUnauthorized "%s is not allowed to receive external funds" ∨
          e = Coins.overflow := by
  obtain ⟨w₀,h0,hf⟩ := follows_reachable h
  refine ⟨(hf.backed h0).balance_ge,?_⟩
  intro sType addr w' g e hp hg he
  exact ((hp.follows hf).backed h0).withdrawReward_error hg he

namespace Regtest

def fee : Denom := [7]

/-- Alice is a finality provider with half of its rewards as commission. -/
def aliceProvider : Finality.FinalityProviderDistInfo := ⟨[1],alice,5*10^17,40,true,false,false⟩

/-- Fees of two heights, the first of which is shared out to Alice and its delegator Bob. -/
def shared : World :=
  deliverAll [.collectFees (KVStore.empty.set fee 1000),.incentiveHandleCoinsInFeeCollector 1,
    .afterBtcDelegationActivated 1 alice bob false 40,.rewardBTCStaking 1 ⟨40,[aliceProvider],1⟩
      (fun _ => true),
    .collectFees (KVStore.empty.set fee 1000),.incentiveHandleCoinsInFeeCollector 2]

theorem shared_debts :
    amountOf shared.bank.incentive fee = 810 ∧ shared.ictv.gaugeDebt fee = 200 ∧
      shared.ictv.stakingDebt fee+shared.ictv.directDebt fee = 510 ∧
      shared.ictv.currentDebt fee = 100 := by
  decide +kernel

end Regtest

open Rewards.Regtest

theorem incentive_solvent_shared :
    shared.ictv.gaugeDebt fee = 200 ∧
      ∀ d, shared.ictv.gaugeDebt d+shared.ictv.stakingDebt d+shared.ictv.directDebt d +
        shared.ictv.currentDebt d+shared.ictv.btcDelegationRewardsTracker.sumBy
          (fun k t => shared.ictv.accrued d k t/decimalRewards) ≤
        amountOf shared.bank.incentive d :=
  ⟨shared_debts.2.1,(incentive_solvent (Regtest.reachable_deliverAll _)).1⟩

end AnonChain.Rewards
