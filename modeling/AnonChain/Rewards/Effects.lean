import AnonChain.Rewards
import AnonChain.Costaking.Pool

/-! The effects of procedures, between two points at which one can fail with its writes kept. -/

namespace AnonChain.Rewards

open Lib
open Coins (amountOf)
open Costaking (CurrentRewards CostakerRewardsTracker StakingCache)
open Costaking.State (PoolStep)
open Incentive (StakeholderType decimalRewards State)

/-- The balance of the costaking module covers what it owes, for every denomination. -/
def Solvent (w : World) : Prop :=
  ∀ d, w.costk.undistributed d+w.costk.owed d ≤ decimalRewards*Coins.amountOf w.bank.costaking d

/-- A costaker is paid what is due: nothing, or coins that go to its gauge. -/
inductive Paid (a : AccAddress) (w : World) : World → Prop where
  | nothing : (∀ d, w.costk.due a d = 0) → Paid a w w
  | coins {r costaking incentive : Coins} {ictv : State} : Coins.isAllPositive r = true →
      (∀ d, Coins.amountOf r d = w.costk.due a d) →
      w.ictv.accumulateRewardGauge .COSTAKER a r = .ok ictv →
      w.bank.sendCoins w.bank.costaking w.bank.incentive r = .ok (costaking,incentive) →
      Paid a w ⟨{ w.bank with costaking := costaking, incentive := incentive },ictv,
        w.costk,w.stkCache⟩

/-- What the incentive module does without a transfer of coins. -/
inductive IncentiveStep (s : State) : State → Prop where
  | reward {height : Nat} {dc : Finality.VotingPowerDistCache} {voters : BIP340PubKey → Bool}
      {s' : State} : s.rewardBTCStaking height dc voters = .ok s' → IncentiveStep s s'
  | modified {fp del : AccAddress} {s' : State} : s.btcDelegationModified fp del = .ok s' →
      IncentiveStep s s'
  | event {height : Nat} {ev : Incentive.EventPowerUpdate} : 0 ≤ ev.totalSat →
      IncentiveStep s (s.addRewardTrackerEvent height ev)
  | params {params : Incentive.Params} : params.validate = .ok () →
      IncentiveStep s { s with params := params }
  | withdrawAddrs (addrs : KVStore AccAddress AccAddress) :
      IncentiveStep s { s with withdrawAddrs := addrs }

inductive Effect (w : World) : World → Prop where
  | cache (stkCache : StakingCache) : Effect w { w with stkCache := stkCache }
  | pool {s' : Costaking.State} : PoolStep w.costk s' → Effect w { w with costk := s' }
  | settle {c : CurrentRewards} {a : AccAddress} {t : CostakerRewardsTracker} {w₁ : World} :
      w.costk.currentRewards = some c → (∀ d, Coins.amountOf c.rewards d = 0) → Paid a w w₁ →
      0 ≤ t.totalScore → t.startPeriodCumulativeReward = c.period-1 →
      Effect w { w₁ with costk := w₁.costk.setCostakerRewardsTracker a t }
  | fund {c c' : CurrentRewards} {coins feeCollector costaking : Coins} :
      w.costk.currentRewards = some c → c.totalScore = w.costk.scores →
      w.bank.sendCoins w.bank.feeCollector w.bank.costaking coins = .ok (feeCollector,costaking) →
      c.addRewards coins = .ok c' →
      Effect w ⟨{ w.bank with feeCollector := feeCollector, costaking := costaking },w.ictv,
        w.costk.setCurrentRewards c',w.stkCache⟩
  | fees (feeCollector distribution : Coins) :
      Effect w { w with
        bank := { w.bank with feeCollector := feeCollector, distribution := distribution } }
  | incentive {s' : State} : IncentiveStep w.ictv s' → Effect w { w with ictv := s' }
  | intercept {height : Nat} {s' : State} {bank : Bank} :
      w.ictv.handleCoinsInFeeCollector w.bank height = .ok (s',bank) →
      Effect w { w with ictv := s', bank := bank }
  | withdraw {blockedAddr : AccAddress → Bool} {sType : StakeholderType} {addr : AccAddress}
      {s' : State} {bank : Bank} {coins : Coins} :
      w.ictv.withdrawReward w.bank blockedAddr sType addr = .ok (s',bank,coins) →
      Effect w { w with ictv := s', bank := bank }

abbrev Effects : World → World → Prop := Relation.ReflTransGen Effect

variable {w w' : World} {a : AccAddress}

theorem Paid.costk_eq (h : Paid a w w') : w'.costk = w.costk := by cases h <;> rfl

theorem Paid.eq_of_due (h : Paid a w w') (hdu : ∀ d, w.costk.due a d = 0) : w' = w := by
  cases h with
  | nothing => rfl
  | coins hp hr _ _ =>
    obtain ⟨d,hd⟩ := Coins.exists_pos_of_isAllPositive hp
    rw [hr d,hdu d] at hd
    omega

theorem Paid.costaking_eq (h : Paid a w w') (d : Denom) :
    amountOf w'.bank.costaking d = amountOf w.bank.costaking d-w.costk.due a d := by
  cases h with
  | nothing hd => rw [hd d,sub_zero]
  | coins _ hr _ hs =>
    rw [← hr d]
    exact (w.bank.sendCoins_amounts hs d).1

section

variable {s s' : State} {bank bank' : Bank}

theorem accumulateRewards_costaking {height : Nat} {r₁ r₂ : Coins}
    (h : s.accumulateRewards bank height r₁ r₂ = .ok (s',bank')) :
    bank'.costaking = bank.costaking := by
  simp only [State.accumulateRewards,bind_eq_ok] at h
  obtain ⟨total, -,h⟩ := h
  split at h
  · simp only [ok_iff,Prod.exists,Prod.mk.injEq] at h
    obtain ⟨fc,inc, -, -,rfl⟩ := h
    rfl
  · simp only [pure_eq_ok,Prod.mk.injEq] at h
    rw [h.2]

theorem handleCoinsInFeeCollector_costaking {height : Nat}
    (h : s.handleCoinsInFeeCollector bank height = .ok (s',bank')) :
    bank'.costaking = bank.costaking := by
  unfold State.handleCoinsInFeeCollector at h
  split at h
  · simp only [bind_eq_ok] at h
    obtain ⟨direct, -,staking, -,ha⟩ := h
    exact accumulateRewards_costaking ha
  · simp only [pure_eq_ok,Prod.mk.injEq] at h
    rw [h.2]

theorem withdrawReward_costaking {blockedAddr : AccAddress → Bool}
    {sType : StakeholderType} {coins : Coins}
    (h : s.withdrawReward bank blockedAddr sType a = .ok (s',bank',coins)) :
    bank'.costaking = bank.costaking := by
  simp only [State.withdrawReward,ok_iff,Prod.exists,Prod.mk.injEq] at h
  obtain ⟨rg, -,r, -, -, -,inc,acc, -, -,rfl, -⟩ := h
  rfl

end

theorem addRewards_eq {c c' : CurrentRewards} {coins : Coins} (h : c.addRewards coins = .ok c') :
    c'.period = c.period ∧ c'.totalScore = c.totalScore ∧
      ∀ d, amountOf c'.rewards d = amountOf c.rewards d+amountOf coins d*decimalRewards := by
  simp only [CurrentRewards.addRewards,bind_eq_ok] at h
  obtain ⟨r,hr,h⟩ := h
  split at h
  · rename_i sum hs
    cases h
    refine ⟨rfl,rfl,?_⟩
    intro d
    rw [Coins.amountOf_add hs d,(Coins.amountOf_coinsSafeMulInt hr d).1]
  · cases h

theorem pool_addRewards {s : Costaking.State} {c c' : CurrentRewards} {coins : Coins} (h : s.Pool)
    (hc : s.currentRewards = some c) (htt : c.totalScore = s.scores)
    (hps : ∀ d, 0 ≤ amountOf coins d) (ha : c.addRewards coins = .ok c') :
    (s.setCurrentRewards c').Pool := by
  obtain ⟨hpr,hs,hr⟩ := addRewards_eq ha
  refine ⟨?_,?_,?_,?_,?_,?_,h.score,?_⟩
  · intro hn
    simp at hn
  · intro c₁ hc₁
    cases hc₁
    rw [hpr]
    exact h.period c hc
  · intro c₁ p hc₁ hp
    cases hc₁
    rw [hpr] at hp
    exact h.stored c p hc hp
  · intro c₁ d p q hc₁ hpq hq
    cases hc₁
    rw [hpr] at hq
    exact h.mono c d p q hc hpq hq
  · intro c₁ d hc₁
    cases hc₁
    rw [hr d]
    have := mul_nonneg (hps d) Costaking.decimalRewards_pos.le
    have := h.rewards c d hc
    omega
  · intro c₁ hc₁
    cases hc₁
    rw [hs,htt]
    exact ⟨h.scores_nonneg,.inr rfl⟩
  · intro c₁ a t hc₁ ht hps
    cases hc₁
    rw [hpr]
    exact h.start c a t hc ht hps

theorem Effect.pool_keeps (h : Effect w w') (hp : w.costk.Pool) : w'.costk.Pool := by
  cases h with
  | pool hs => exact hp.step hs
  | settle hc hz hpd hsc _ =>
    rw [hpd.costk_eq]
    have hpr := hp.period _ hc
    refine hp.set_tracker hc hsc ?_ (.inl hz)
    omega
  | fund hc ht hsn ha =>
    exact pool_addRewards hp hc ht (fun d => (w.bank.sendCoins_amounts hsn d).2.2.1) ha
  | cache | fees | incentive | intercept | withdraw => exact hp

theorem Effect.solvent (h : Effect w w') (hp : w.costk.Pool) (hw : Solvent w) : Solvent w' := by
  intro d
  have hd := hw d
  cases h with
  | pool hs =>
    have := hs.owed_le hp (d := d)
    exact this.trans hd
  | @settle c a t w₁ hc hz hpd _ hsr =>
    have hb := hpd.costaking_eq d
    dsimp only
    rw [hb,hpd.costk_eq]
    have hse := Costaking.State.owed_set w.costk a t d
    have hst : w.costk.cumulative d t.startPeriodCumulativeReward = w.costk.index d := by
      rw [hsr,Costaking.State.index_of_some hc]
    rw [hst,sub_self,mul_zero,add_zero] at hse
    have hu : w.costk.undistributed d = 0 := by rw [Costaking.State.undistributed_of_some hc,hz d]
    have hu' : (w.costk.setCostakerRewardsTracker a t).undistributed d = 0 := hu
    have hdu : decimalRewards*w.costk.due a d ≤ (w.costk.costakerRewardsTracker.get a).elim 0
        (fun t₀ => t₀.totalScore*(w.costk.index d-w.costk.cumulative d
          t₀.startPeriodCumulativeReward)) := by
      unfold Costaking.State.due
      cases w.costk.costakerRewardsTracker.get a with
      | none => simp
      | some t₀ => exact Int.mul_ediv_self_le Costaking.decimalRewards_pos.ne'
    rw [mul_sub]
    omega
  | @fund c c' coins fc cs hc ht hsn ha =>
    obtain ⟨hpr, -,hr⟩ := addRewards_eq ha
    dsimp only
    rw [(w.bank.sendCoins_amounts hsn d).2.1,Costaking.State.owed_set_current c' hc hpr,
      Costaking.State.undistributed_of_some (c := c') rfl,hr d,mul_add]
    rw [Costaking.State.undistributed_of_some hc] at hd
    rw [mul_comm (amountOf coins d)]
    omega
  | intercept h =>
    dsimp only
    rw [handleCoinsInFeeCollector_costaking h]
    exact hd
  | withdraw h =>
    dsimp only
    rw [withdrawReward_costaking h]
    exact hd
  | cache | fees | incentive => exact hd

end AnonChain.Rewards
