import AnonChain.Rewards.Steps
import AnonChain.Rewards.Regtest

/-! The balance of the costaking module covers the rewards of the pool in every run. -/

namespace AnonChain.Rewards

open Lib Coins
open KVStore (empty)
open Coins (amountOf)
open Costaking (CostakerRewardsTracker incrementRewardsPeriod)
open Incentive (decimalRewards)

variable {w w' w₀ : World} {a : AccAddress} {n : Nat}

/-- The worlds in which a costaker is paid up to the period `n`: when its stake changes, when its
rewards are withdrawn, and while the costakers are rescored. -/
inductive PaysCostaker (blockedAddr : AccAddress → Bool) (w : World) :
    AccAddress → Nat → World → Prop where
  | modified {a : AccAddress} {n : Nat} {t : CostakerRewardsTracker} {w₁ w₂ : World} :
      Costaking.getCostakerRewardsOrInitialize a w = .ok t w₁ →
      incrementRewardsPeriod w₁ = .ok n w₂ → PaysCostaker blockedAddr w a n w₂
  | withdrawn {a : AccAddress} {n : Nat} {w₁ w₂ : World} :
      onIncentive (fun s => s.sendAllBtcDelegationTypeToRewardsGauge .COSTAKER a) w = .ok () w₁ →
      incrementRewardsPeriod w₁ = .ok n w₂ → PaysCostaker blockedAddr w a n w₂
  | staker {a : AccAddress} {n : Nat} {coins : Coins} {w₁ w₂ w₃ : World} :
      onIncentive (fun s => s.sendAllBtcDelegationTypeToRewardsGauge .BTC_STAKER a) w = .ok () w₁ →
      tolerate Failure.isPanic .empty (withdrawGauge blockedAddr .BTC_STAKER a) w₁ = .ok coins w₂ →
      incrementRewardsPeriod w₂ = .ok n w₃ → PaysCostaker blockedAddr w a n w₃
  | rescored {ratio total : Int} {n : Nat} {done rest : List (AccAddress × CostakerRewardsTracker)}
      {e : AccAddress × CostakerRewardsTracker} {w₁ w₂ : World} : 1 ≤ ratio →
      incrementRewardsPeriod w = .ok n w₁ →
      w₁.costk.costakerRewardsTracker.entries = done ++ e :: rest →
      done.foldlM (Costaking.updateCostakerScore ratio n) 0 w₁ = .ok total w₂ →
      PaysCostaker blockedAddr w e.1 n w₂

structure Payable (n : Nat) (w : World) : Prop where
  pool : w.costk.Pool
  solvent : Solvent w
  current : ∃ c, w.costk.currentRewards = some c ∧ c.period = n+1

theorem Follows.payable {w₁ : World} (h : Follows w₀ w) (hn : incrementRewardsPeriod w = .ok n w₁) :
    Follows w₀ w₁ ∧ ∃ c, w₁.costk.currentRewards = some c ∧ c.period = n+1 ∧
      c.rewards = .empty := by
  obtain ⟨c,s',rfl,he,rfl⟩ := (ends_incrementRewardsPeriod h.started.pool).of_ok hn
  exact ⟨h.started.periodEnded he,_,he.current',rfl,rfl⟩

theorem Follows.payable' {w₁ : World} (h : Follows w₀ w)
    (hn : incrementRewardsPeriod w = .ok n w₁) : Payable n w₁ := by
  obtain ⟨h₁,c,hc,hp, -⟩ := h.payable hn
  exact ⟨h₁.pool,h₁.solvent,c,hc,hp⟩

theorem PaysCostaker.payable {blockedAddr : AccAddress → Bool}
    (hp : PaysCostaker blockedAddr w a n w') (h : Follows w₀ w) : Payable n w' := by
  cases hp with
  | modified hg hn =>
    have h₁ := (ends_getCostakerRewardsOrInitialize h (fun _ _ => True)).of_ok hg
    exact h₁.1.payable' hn
  | withdrawn hs hn =>
    have h₁ := (tracked_onIncentive w₀ (fun _ _ => sendAll_steps) w h).of_ok hs
    exact h₁.payable' hn
  | staker hs hpy hn =>
    have h₁ := (tracked_onIncentive w₀ (fun _ _ => sendAll_steps) w h).of_ok hs
    have h₂ := ((tracked_withdrawGauge w₀ blockedAddr .BTC_STAKER a).tolerate _ h₁).of_ok hpy
    exact h₂.payable' hn
  | @rescored ratio total n done rest e w₁ w₂ hr hn he hlp =>
    obtain ⟨h₁,c,hc,hpr,hem⟩ := h.payable hn
    have hst : Rescoring w₀ ratio c (done ++ e :: rest) 0 w₁ := he ▸ h₁.rescoring hc
    have hl : n = c.period-1 := by omega
    -- The invariant of the pass, at the costaker that is next.
    have hJ := ends_foldlM (R := fun _ _ => True)
      (J := fun left total w => Rescoring w₀ ratio c (left ++ e :: rest) total w)
      (fun e' left total w hlf =>
        hl ▸ ends_updateCostakerScore hr (fun d => by rw [hem,amountOf_empty]) hlf)
      hst
    have hnx := hJ.of_ok hlp
    exact ⟨hnx.pool,hnx.solvent,c,hnx.current,hpr⟩

/-- A payment fails only when an amount rounds to zero beside one that does not, or when the
receiving balance overflows. -/
theorem Payable.transfer_error {r : Coins} {e : Failure} (h : Payable n w)
    (hr : w.costk.calculateCostakerRewards a n = .ok r) (hz : Coins.isZero r = false)
    (he : w.bank.sendCoins w.bank.costaking w.bank.incentive r = .error e) :
    (e = .err .ErrInvalidCoins "%s" ∧ ∃ d d', r.get d = some 0 ∧ 0 < amountOf r d') ∨
      e = Coins.overflow := by
  obtain ⟨c,hc,hp⟩ := h.current
  have hl : n = c.period-1 := by omega
  subst hl
  have hdu : ∀ d, amountOf r d = w.costk.due a d :=
    fun d => h.pool.calculateCostakerRewards_amounts hc hr
  cases hv : isValid r with
  | true =>
    refine .inr (w.bank.sendCoins_error hv ?_ he)
    intro d
    rw [hdu d]
    exact due_le_balance h.pool h.solvent hc d
  | false =>
    refine .inl ⟨?_,?_⟩
    · rw [w.bank.sendCoins_invalid hv] at he
      cases he
      rfl
    · have hn : ∀ d, 0 ≤ amountOf r d := by
        intro d
        rw [hdu d]
        exact h.pool.due_nonneg hc
      obtain ⟨d,hd⟩ := exists_zero_of_not_valid hv hn
      obtain ⟨d',hd'⟩ := exists_pos_of_not_isZero hz hn
      exact ⟨d,d',hd,hd'⟩

/-- In every run the balance covers the rewards of the pool, and a payment to a gauge fails only
because of coins with a zero amount. -/
theorem costaking_solvent {blockedAddr : AccAddress → Bool}
    (h : (rewards blockedAddr).Reachable w) :
    (∀ d, w.costk.currentRewards.elim 0 (fun c => Coins.amountOf c.rewards d) +
        w.costk.costakerRewardsTracker.sumBy (fun _ t => t.totalScore *
          (w.costk.index d-w.costk.cumulative d t.startPeriodCumulativeReward)) ≤
        Coins.amountOf w.bank.costaking d*decimalRewards) ∧
      ∀ a n w' r e, PaysCostaker blockedAddr w a n w' →
      w'.costk.calculateCostakerRewards a n = .ok r →
        Coins.isZero r = false → w'.bank.sendCoins w'.bank.costaking w'.bank.incentive r =
          .error e →
        (e = .err .ErrInvalidCoins "%s" ∧ ∃ d d', r.get d = some 0 ∧ 0 < Coins.amountOf r d') ∨
          e = Coins.overflow := by
  obtain ⟨w₀, -,hf⟩ := follows_reachable h
  refine ⟨?_,?_⟩
  · intro d
    have hd := hf.solvent d
    rw [mul_comm] at hd
    exact hd
  · intro a n w' r e hp hr hz he
    exact (hp.payable hf).transfer_error hr hz he

namespace Regtest

def dust : Denom := [8]

/-- Two costakers of the same score share a hundred coins of one denomination and a single one of
another. -/
def mixed : World :=
  deliverAll [.costakerModifiedActiveAmounts alice 1 2,.costakerModifiedActiveAmounts bob 1 2,
    .collectFees ((KVStore.empty.set [7] 200).set dust 2),
    .accumulateCostakingRewards ((KVStore.empty.set [7] 100).set dust 1)]

def mixedEnded : World :=
  match incrementRewardsPeriod mixed with
  | .ok _ w => w
  | .error _ w => w

end Regtest

open Rewards.Regtest

/-- The transfer can fail: of the second denomination nothing is left after rounding. -/
theorem costaking_transfer_refused :
    (rewards unblocked).Reachable mixed ∧
      PaysCostaker unblocked mixed alice 3 mixedEnded ∧
      Coins.isZero ((empty.set [7] 50).set dust 0) = false ∧
      mixedEnded.costk.calculateCostakerRewards alice 3 =
        .ok ((empty.set [7] 50).set dust 0) ∧
      mixedEnded.bank.sendCoins mixedEnded.bank.costaking mixedEnded.bank.incentive
        ((empty.set [7] 50).set dust 0) = .error (.err .ErrInvalidCoins "%s") :=
  ⟨Regtest.reachable_deliverAll _,.withdrawn rfl (by rfl),rfl,by rfl,rfl⟩

theorem costaking_solvent_mixed : (rewards unblocked).Reachable mixed ∧ ∀ d,
    mixed.costk.currentRewards.elim 0 (fun c => amountOf c.rewards d) +
      mixed.costk.costakerRewardsTracker.sumBy (fun _ t => t.totalScore *
        (mixed.costk.index d-mixed.costk.cumulative d t.startPeriodCumulativeReward)) ≤
      amountOf mixed.bank.costaking d*decimalRewards :=
  ⟨Regtest.reachable_deliverAll _,(costaking_solvent (Regtest.reachable_deliverAll _)).1⟩

end AnonChain.Rewards
