import AnonChain.Coins

/-! The records of the incentive module. -/

namespace AnonChain.Incentive

open Lib

def decimalRewards : Int := 10^20

inductive StakeholderType where
  | FINALITY_PROVIDER
  | BTC_STAKER
  | COSTAKER
  deriving DecidableEq

def StakeholderType.toNat : StakeholderType → Nat
  | .FINALITY_PROVIDER => 0
  | .BTC_STAKER => 1
  | .COSTAKER => 2

instance : LinearOrder StakeholderType :=
  LinearOrder.lift' StakeholderType.toNat (by
    intro a b h
    cases a <;> cases b <;> simp_all [StakeholderType.toNat])

structure RewardGauge where
  coins : Coins
  withdrawnCoins : Coins

def newRewardGauge : RewardGauge := ⟨.empty,.empty⟩

namespace RewardGauge

def getWithdrawableCoins (rg : RewardGauge) : Result Coins := Coins.sub rg.coins rg.withdrawnCoins

def setFullyWithdrawn (rg : RewardGauge) : RewardGauge := { rg with withdrawnCoins := rg.coins }

def add (rg : RewardGauge) (coins : Coins) : Result RewardGauge := do
  let coins' ← Coins.add rg.coins coins
  pure { rg with coins := coins' }

end RewardGauge

structure FinalityProviderCurrentRewards where
  currentRewards : Coins
  period : Nat
  totalActiveSat : Int

structure BTCDelegationRewardsTracker where
  startPeriodCumulativeReward : Nat
  totalActiveSat : Int

inductive EventPowerUpdate where
  | btcActivated (fpAddr btcDelAddr : AccAddress) (totalSat : Int)
  | btcUnbonded (fpAddr btcDelAddr : AccAddress) (totalSat : Int)

def EventPowerUpdate.totalSat : EventPowerUpdate → Int
  | .btcActivated _ _ sat => sat
  | .btcUnbonded _ _ sat => sat

structure Params where
  btcStakingPortion : Dec
  fpPortion : Option Dec

def Params.validate (p : Params) : Result Unit := do
  ensure (0 ≤ p.btcStakingPortion) (.errorf "BtcStakingPortion should not be negative")
  let fpPortion ← orFail p.fpPortion (.errorf "FpPortion should not be nil")
  ensure (0 ≤ fpPortion) (.errorf "FpPortion should not be negative")
  ensure (p.btcStakingPortion+fpPortion < decPrecision)
    (.errorf "sum of all portions should be less than 1")

abbrev GaugeKey := StakeholderType ×ₗ AccAddress

abbrev DelegationKey := AccAddress ×ₗ AccAddress

abbrev PeriodKey := AccAddress ×ₗ Nat

structure State where
  params : Params
  rewardGauges : KVStore GaugeKey RewardGauge
  btcStakingGauges : KVStore Nat Coins
  fpDirectGauges : KVStore Nat Coins
  finalityProviderCurrentRewards : KVStore AccAddress FinalityProviderCurrentRewards
  finalityProviderHistoricalRewards : KVStore PeriodKey Coins
  btcDelegationRewardsTracker : KVStore DelegationKey BTCDelegationRewardsTracker
  /-- The pairs of a delegator and a finality provider. -/
  btcDelegatorToFP : KVStore (AccAddress ×ₗ AccAddress) Unit
  rewardTrackerEvents : KVStore Nat (List EventPowerUpdate)
  rewardTrackerEventsLastProcessedHeight : Nat
  withdrawAddrs : KVStore AccAddress AccAddress

end AnonChain.Incentive
