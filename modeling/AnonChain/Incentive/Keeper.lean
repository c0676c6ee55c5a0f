import AnonChain.Incentive.Types
import AnonChain.Finality.Types

/-! The incentive module: fees go into the gauges of a height, and from there to stakeholders. -/

namespace AnonChain.Incentive

open Lib
open Finality (VotingPowerDistCache FinalityProviderDistInfo)
open Coins (isAllPositive mulInt quoInt add sub getCoinsPortion)

namespace State

def getRewardGauge (s : State) (sType : StakeholderType) (addr : AccAddress) : Option RewardGauge :=
  s.rewardGauges.get (toLex (sType,addr))

def setRewardGauge (s : State) (sType : StakeholderType) (addr : AccAddress)
    (rg : RewardGauge) : State :=
  { s with rewardGauges := s.rewardGauges.set (toLex (sType,addr)) rg }

/-- A reward with an amount that is not positive is dropped as a whole. -/
def accumulateRewardGauge (s : State) (sType : StakeholderType) (addr : AccAddress)
    (reward : Coins) : Result State :=
  if isAllPositive reward then do
    let rg ← ((s.getRewardGauge sType addr).getD newRewardGauge).add reward
    pure (s.setRewardGauge sType addr rg)
  else pure s

def getFinalityProviderCurrentRewards (s : State) (fp : AccAddress) :
    Result FinalityProviderCurrentRewards :=
  orFail (s.finalityProviderCurrentRewards.get fp) (.err .ErrFPCurrentRewardsNotFound "")

def setFinalityProviderCurrentRewards (s : State) (fp : AccAddress)
    (rwd : FinalityProviderCurrentRewards) : State :=
  { s with finalityProviderCurrentRewards := s.finalityProviderCurrentRewards.set fp rwd }

def getFinalityProviderHistoricalRewards (s : State) (fp : AccAddress)
    (period : Nat) : Result Coins :=
  orFail (s.finalityProviderHistoricalRewards.get (toLex (fp,period)))
    (.err .ErrFPHistoricalRewardsNotFound "")

def setFinalityProviderHistoricalRewards (s : State) (fp : AccAddress) (period : Nat)
    (rwd : Coins) : State :=
  { s with finalityProviderHistoricalRewards :=
      s.finalityProviderHistoricalRewards.set (toLex (fp,period)) rwd }

def initializeFinalityProvider (s : State) (fp : AccAddress) : State :=
  (s.setFinalityProviderHistoricalRewards fp 0 .empty).setFinalityProviderCurrentRewards fp
    ⟨.empty,1,0⟩

def currentRewardsPerSat (cur : FinalityProviderCurrentRewards) : Result Coins :=
  if cur.totalActiveSat = 0 then pure .empty
  else do
    let withDecimals ← mulInt cur.currentRewards decimalRewards
    quoInt withDecimals cur.totalActiveSat

def incrementFinalityProviderPeriod (s : State) (fp : AccAddress) : Result (State × Nat) :=
  match s.finalityProviderCurrentRewards.get fp with
  | none => pure (s.initializeFinalityProvider fp,1)
  | some cur => do
    let perSat ← currentRewardsPerSat cur
    let historical ← s.getFinalityProviderHistoricalRewards fp (cur.period-1)
    let cumulative ← add historical perSat
    pure ((s.setFinalityProviderHistoricalRewards fp cur.period
      cumulative).setFinalityProviderCurrentRewards
      fp ⟨.empty,cur.period+1,cur.totalActiveSat⟩,cur.period)

def addFinalityProviderRewardsForBtcDelegations (s : State) (fp : AccAddress) (rwd : Coins) :
    Result State := do
  let cur ← s.getFinalityProviderCurrentRewards fp
  let currentRewards ← add cur.currentRewards rwd
  pure (s.setFinalityProviderCurrentRewards fp { cur with currentRewards := currentRewards })

def getBTCDelegationRewardsTracker (s : State) (fp del : AccAddress) :
    Result BTCDelegationRewardsTracker :=
  orFail (s.btcDelegationRewardsTracker.get (toLex (fp,del)))
    (.err .ErrBTCDelegationRewardsTrackerNotFound "")

def setBTCDelegationRewardsTracker (s : State) (fp del : AccAddress)
    (rwd : BTCDelegationRewardsTracker) : State :=
  { s with
    btcDelegatorToFP := s.btcDelegatorToFP.set (toLex (del,fp)) ()
    btcDelegationRewardsTracker := s.btcDelegationRewardsTracker.set (toLex (fp,del)) rwd }

def calculateDelegationRewardsBetween (s : State) (fp : AccAddress)
    (tracker : BTCDelegationRewardsTracker) (endingPeriod : Nat) : Result Coins := do
  ensure (tracker.startPeriodCumulativeReward ≤ endingPeriod)
    (.panic "startingPeriod cannot be greater than endingPeriod")
  let starting ← s.getFinalityProviderHistoricalRewards fp tracker.startPeriodCumulativeReward
  let ending ← s.getFinalityProviderHistoricalRewards fp endingPeriod
  let differenceWithDecimals ← sub ending starting
  ensure (Coins.isAnyNegative differenceWithDecimals = false)
    (.panic "negative rewards should not be possible")
  let rewardsWithDecimals ← mulInt differenceWithDecimals tracker.totalActiveSat
  quoInt rewardsWithDecimals decimalRewards

def calculateBTCDelegationRewards (s : State) (fp del : AccAddress) (endPeriod : Nat) :
    Result Coins := do
  let tracker ← s.getBTCDelegationRewardsTracker fp del
  if tracker.totalActiveSat = 0 then pure .empty
  else s.calculateDelegationRewardsBetween fp tracker endPeriod

def noneIfNotFound (rewards : Result Coins) : Result Coins :=
  match rewards with
  | .error (.err .ErrBTCDelegationRewardsTrackerNotFound _) => pure .empty
  | r => r

def calculateBTCDelegationRewardsAndSendToGauge (s : State) (fp del : AccAddress)
    (endPeriod : Nat) : Result State := do
  let rewards ← noneIfNotFound (s.calculateBTCDelegationRewards fp del endPeriod)
  if Coins.isZero rewards then pure s
  else s.accumulateRewardGauge .BTC_STAKER del rewards

def initializeBTCDelegation (s : State) (fp del : AccAddress) : Result State := do
  let cur ← s.getFinalityProviderCurrentRewards fp
  let tracker ← s.getBTCDelegationRewardsTracker fp del
  pure (s.setBTCDelegationRewardsTracker fp del ⟨cur.period-1,tracker.totalActiveSat⟩)

def subFinalityProviderStaked (s : State) (fp : AccAddress) (amt : Int) : Result State := do
  let cur ← s.getFinalityProviderCurrentRewards fp
  let totalActiveSat := cur.totalActiveSat-amt
  ensure (0 ≤ totalActiveSat) (.err .ErrFPCurrentRewardsTrackerNegativeAmount "")
  pure (s.setFinalityProviderCurrentRewards fp { cur with totalActiveSat := totalActiveSat })

def subDelegationSat (s : State) (fp del : AccAddress) (amt : Int) : Result State := do
  let tracker ← s.getBTCDelegationRewardsTracker fp del
  let totalActiveSat := tracker.totalActiveSat-amt
  ensure (0 ≤ totalActiveSat) (.err .ErrBTCDelegationRewardsTrackerNegativeAmount "")
  let s' := s.setBTCDelegationRewardsTracker fp del
    { tracker with totalActiveSat := totalActiveSat }
  s'.subFinalityProviderStaked fp amt

def addFinalityProviderStaked (s : State) (fp : AccAddress) (amt : Int) : State :=
  match s.finalityProviderCurrentRewards.get fp with
  | some cur =>
    s.setFinalityProviderCurrentRewards fp { cur with totalActiveSat := cur.totalActiveSat+amt }
  | none => (s.initializeFinalityProvider fp).setFinalityProviderCurrentRewards fp ⟨.empty,1,0+amt⟩

def addDelegationSat (s : State) (fp del : AccAddress) (amt : Int) : State :=
  let tracker := (s.btcDelegationRewardsTracker.get (toLex (fp,del))).getD ⟨0,0⟩
  (s.setBTCDelegationRewardsTracker fp del
    { tracker with totalActiveSat := tracker.totalActiveSat+amt }).addFinalityProviderStaked fp amt

def btcDelegationModifiedWithPreInitDel (s : State) (fp del : AccAddress)
    (preInitializeDelegation : State → Result State) : Result State := do
  let (s₁,endedPeriod) ← s.incrementFinalityProviderPeriod fp
  let s₂ ← s₁.calculateBTCDelegationRewardsAndSendToGauge fp del endedPeriod
  let s₃ ← preInitializeDelegation s₂
  s₃.initializeBTCDelegation fp del

def btcDelegationModified (s : State) (fp del : AccAddress) : Result State :=
  s.btcDelegationModifiedWithPreInitDel fp del pure

def btcDelegationActivated (s : State) (fp del : AccAddress) (sat : Int) : Result State :=
  s.btcDelegationModifiedWithPreInitDel fp del (fun s => pure (s.addDelegationSat fp del sat))

def btcDelegationUnbonded (s : State) (fp del : AccAddress) (sat : Int) : Result State :=
  s.btcDelegationModifiedWithPreInitDel fp del (fun s => s.subDelegationSat fp del sat)

def fpsOfDelegator (s : State) (del : AccAddress) : List AccAddress :=
  (s.btcDelegatorToFP.keys.filter (fun k => (ofLex k).1 = del)).map (fun k => (ofLex k).2)

def sendAllBtcRewardsToGauge (s : State) (del : AccAddress) : Result State :=
  (s.fpsOfDelegator del).foldlM (fun s fp => s.btcDelegationModified fp del) s

def sendAllBtcDelegationTypeToRewardsGauge (s : State) (sType : StakeholderType)
    (del : AccAddress) : Result State :=
  if sType = .BTC_STAKER then s.sendAllBtcRewardsToGauge del else pure s

def getOrNewRewardTrackerEvent (s : State) (height : Nat) : List EventPowerUpdate :=
  s.rewardTrackerEvents.getD height []

def addRewardTrackerEvent (s : State) (height : Nat) (newEv : EventPowerUpdate) : State :=
  { s with rewardTrackerEvents :=
      s.rewardTrackerEvents.set height (s.getOrNewRewardTrackerEvent height ++ [newEv]) }

def addEventBtcDelegationActivated (s : State) (height : Nat) (fp del : AccAddress)
    (sat : Nat) : State :=
  s.addRewardTrackerEvent height (.btcActivated fp del sat)

def addEventBtcDelegationUnbonded (s : State) (height : Nat) (fp del : AccAddress)
    (sat : Nat) : State :=
  s.addRewardTrackerEvent height (.btcUnbonded fp del sat)

def processRewardTrackerEvent (s : State) : EventPowerUpdate → Result State
  | .btcActivated fp del sat => s.btcDelegationActivated fp del sat
  | .btcUnbonded fp del sat => s.btcDelegationUnbonded fp del sat

def processRewardTrackerEventsAtHeight (s : State) (height : Nat) : Result State := do
  let s' ← (s.getOrNewRewardTrackerEvent height).foldlM processRewardTrackerEvent s
  pure { s' with rewardTrackerEvents := s'.rewardTrackerEvents.delete height }

def pendingHeights (s : State) (untilBlkHeight : Nat) : List Nat :=
  List.range' (s.rewardTrackerEventsLastProcessedHeight+1)
    (untilBlkHeight-s.rewardTrackerEventsLastProcessedHeight)

def processRewardTrackerEvents (s : State) (untilBlkHeight : Nat) : Result State := do
  let s' ← (s.pendingHeights untilBlkHeight).foldlM processRewardTrackerEventsAtHeight s
  pure { s' with rewardTrackerEventsLastProcessedHeight := untilBlkHeight }

def compileEvent (fp : AccAddress) (satsByBtcDel : KVStore AccAddress Int) :
    EventPowerUpdate → KVStore AccAddress Int
  | .btcActivated fpAddr del sat =>
    if fpAddr = fp then satsByBtcDel.set del (satsByBtcDel.getD del 0+sat) else satsByBtcDel
  | .btcUnbonded fpAddr del sat =>
    if fpAddr = fp then satsByBtcDel.set del (satsByBtcDel.getD del 0-sat) else satsByBtcDel

def pendingEvents (s : State) (untilBlkHeight : Nat) : List EventPowerUpdate :=
  (s.pendingHeights untilBlkHeight).flatMap s.getOrNewRewardTrackerEvent

def getRewardTrackerEventsCompiledByBtcDel (s : State) (untilBlkHeight : Nat) (fp : AccAddress) :
    KVStore AccAddress Int :=
  (s.pendingEvents untilBlkHeight).foldl (compileEvent fp) .empty

/-- The delegators of a provider with their stake after the queue, in the order of visits: those
with a tracker, and then those that only have events. -/
def btcDelegationSatsUpdated (s : State) (blockHeight : Nat) (fp : AccAddress) :
    List (AccAddress × Int) :=
  let compiledEvents := s.getRewardTrackerEventsCompiledByBtcDel blockHeight fp
  let trackers := s.btcDelegationRewardsTracker.entries.filter (fun e => (ofLex e.1).1 = fp)
  trackers.map (fun e => ((ofLex e.1).2,e.2.totalActiveSat+compiledEvents.getD (ofLex e.1).2 0)) ++
    compiledEvents.entries.filter (fun e => !(s.btcDelegationRewardsTracker.has (toLex (fp,e.1))))

def rewardFinalityProvider (gauge fpDirectGauge : Coins)
    (totalVotingPowerOfVoters : Nat) (s : State)
    (fp : FinalityProviderDistInfo) : Result State := do
  ensure (totalVotingPowerOfVoters ≠ 0) (.panic "division by zero")
  let fpPortion : Dec := ((fp.totalBondedSat : Int)*decPrecision).tdiv totalVotingPowerOfVoters
  let coinsForFpsAndDels ← getCoinsPortion gauge fpPortion
  let coinsForCommission ← getCoinsPortion coinsForFpsAndDels fp.commission
  let coinsForFpDirect ← getCoinsPortion fpDirectGauge fpPortion
  let totalCoinsForFp ← add coinsForCommission coinsForFpDirect
  let s₁ ← s.accumulateRewardGauge .FINALITY_PROVIDER fp.addr totalCoinsForFp
  let coinsForBTCDels ← sub coinsForFpsAndDels coinsForCommission
  Result.orPanic (s₁.addFinalityProviderRewardsForBtcDelegations fp.addr coinsForBTCDels)

def pruneGauges (s : State) (height : Nat) : State :=
  { s with
    btcStakingGauges := s.btcStakingGauges.delete height
    fpDirectGauges := s.fpDirectGauges.delete height }

def rewardBTCStaking (s : State) (height : Nat) (dc : VotingPowerDistCache)
    (voters : BIP340PubKey → Bool) : Result State := do
  let gauge := s.btcStakingGauges.getD height .empty
  let fpDirectGauge := s.fpDirectGauges.getD height .empty
  let voting := dc.getActiveFinalityProviderSet.filter (fun fp => voters fp.btcPk)
  let totalVotingPowerOfVoters := (voting.map (·.totalBondedSat)).sum
  let s₁ ← Result.orPanic (s.processRewardTrackerEvents height)
  let s₂ ← voting.foldlM (rewardFinalityProvider gauge fpDirectGauge totalVotingPowerOfVoters) s₁
  pure (s₂.pruneGauges height)

def accumulateRewards (s : State) (bank : Bank) (height : Nat)
    (btcStakingReward fpDirectRewards : Coins) : Result (State × Bank) := do
  let s₁ := { s with btcStakingGauges := s.btcStakingGauges.set height btcStakingReward }
  let s₂ := if isAllPositive fpDirectRewards
    then { s₁ with fpDirectGauges := s₁.fpDirectGauges.set height fpDirectRewards } else s₁
  let totalRwds ← add btcStakingReward fpDirectRewards
  if isAllPositive totalRwds then do
    let (feeCollector,incentive) ← Result.orPanic
        (bank.sendCoins bank.feeCollector bank.incentive totalRwds)
    pure (s₂,{ bank with feeCollector := feeCollector, incentive := incentive })
  else pure (s₂,bank)

def fpsDirectRwds (s : State) (feesCollectedInt : Coins) : Result Coins :=
  match s.params.fpPortion with
  | none => pure .empty
  | some fpPortion => getCoinsPortion feesCollectedInt fpPortion

def handleCoinsInFeeCollector (s : State) (bank : Bank) (height : Nat) : Result (State × Bank) :=
  if isAllPositive bank.feeCollector then do
    let fpsDirectRwds ← s.fpsDirectRwds bank.feeCollector
    let btcStakingReward ← getCoinsPortion bank.feeCollector s.params.btcStakingPortion
    s.accumulateRewards bank height btcStakingReward fpsDirectRwds
  else pure (s,bank)

def getWithdrawAddr (s : State) (addr : AccAddress) : AccAddress := s.withdrawAddrs.getD addr addr

def withdrawReward (s : State) (bank : Bank) (blockedAddr : AccAddress → Bool)
    (sType : StakeholderType) (addr : AccAddress) : Result (State × Bank × Coins) := do
  let rg ← orFail (s.getRewardGauge sType addr) (.err .ErrRewardGaugeNotFound "")
  let withdrawableCoins ← rg.getWithdrawableCoins
  ensure (isAllPositive withdrawableCoins = true) (.err .ErrNoWithdrawableCoins "")
  let withdrawAddr := s.getWithdrawAddr addr
  ensure (blockedAddr withdrawAddr = false)
    (.err .ErrUnauthorized "%s is not allowed to receive external funds")
  let (incentive,account) ← bank.sendCoins bank.incentive (bank.accounts.getD withdrawAddr .empty)
      withdrawableCoins
  pure (s.setRewardGauge sType addr rg.setFullyWithdrawn,
    { bank with incentive := incentive, accounts := bank.accounts.set withdrawAddr account },
        withdrawableCoins)

end State

end AnonChain.Incentive
