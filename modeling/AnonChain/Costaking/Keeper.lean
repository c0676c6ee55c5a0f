import AnonChain.Costaking.Types
import AnonChain.Lib.Procedure

/-! The pool of rewards of all costakers: one index of rewards per score. -/

namespace AnonChain.Costaking

open Lib

def notFound : Failure := .err .ErrNotFound "collections: not found"

namespace State

def setHistoricalRewards (s : State) (period : Nat) (histRwd : Coins) : State :=
  { s with historicalRewards := s.historicalRewards.set period histRwd }

def setCostakerRewardsTracker (s : State) (addr : AccAddress)
    (rwdTracker : CostakerRewardsTracker) : State :=
  { s with costakerRewardsTracker := s.costakerRewardsTracker.set addr rwdTracker }

def setCurrentRewards (s : State) (currentRwd : CurrentRewards) : State :=
  { s with currentRewards := some currentRwd }

def getHistoricalRewards (s : State) (period : Nat) : Result Coins :=
  orFail (s.historicalRewards.get period) notFound

def calculateCoStakerRewardsBetween (s : State) (tracker : CostakerRewardsTracker)
    (endingPeriod : Nat) : Result Coins := do
  ensure (tracker.startPeriodCumulativeReward ≤ endingPeriod)
    (.err .ErrInvalidPeriod "startingPeriod %d cannot be greater than endingPeriod %d")
  let starting ← s.getHistoricalRewards tracker.startPeriodCumulativeReward
  let ending ← s.getHistoricalRewards endingPeriod
  let (differenceWithDecimals,isNegative) ← Coins.safeSub ending starting
  ensure (isNegative = false) (.err .ErrNegativeRewards "cumulative rewards is negative %s")
  let rewardsWithDecimals ← Coins.coinsSafeMulInt differenceWithDecimals tracker.totalScore
  Coins.quoInt rewardsWithDecimals Incentive.decimalRewards

def calculateCostakerRewards (s : State) (costaker : AccAddress) (endPeriod : Nat) : Result Coins :=
  match s.costakerRewardsTracker.get costaker with
  | none => pure .empty
  | some tracker =>
    if tracker.totalScore = 0 then pure .empty
    else s.calculateCoStakerRewardsBetween tracker endPeriod

end State

def CurrentRewards.perScore (cr : CurrentRewards) : Result Coins :=
  if cr.totalScore = 0 then pure .empty else Coins.quoInt cr.rewards cr.totalScore

def setHistoricalRewards (period : Nat) (histRwd : Coins) : Proc Unit :=
  modify (fun w => { w with costk := w.costk.setHistoricalRewards period histRwd })

def setCostakerRewardsTracker (addr : AccAddress) (rwdTracker : CostakerRewardsTracker) :
    Proc Unit :=
  modify (fun w => { w with costk := w.costk.setCostakerRewardsTracker addr rwdTracker })

def setCurrentRewards (currentRwd : CurrentRewards) : Proc Unit :=
  modify (fun w => { w with costk := w.costk.setCurrentRewards currentRwd })

def getCurrentRewards : Proc CurrentRewards := do
  let w ← get
  lift (orFail w.costk.currentRewards notFound)

def getCostakerRewards (costaker : AccAddress) : Proc CostakerRewardsTracker := do
  let w ← get
  lift (orFail (w.costk.costakerRewardsTracker.get costaker) notFound)

def initializeCurrentRewards : Proc CurrentRewards := do
  setHistoricalRewards 0 .empty
  setCurrentRewards ⟨.empty,1,0⟩
  pure ⟨.empty,1,0⟩

def getCurrentRewardsInitialized : Proc CurrentRewards := do
  let w ← get
  match w.costk.currentRewards with
  | some currentRwd => pure currentRwd
  | none => initializeCurrentRewards

def getCostakerRewardsOrInitialize (costaker : AccAddress) : Proc CostakerRewardsTracker := do
  let w ← get
  match w.costk.costakerRewardsTracker.get costaker with
  | some tracker => pure tracker
  | none => do
    let currentRwd ← getCurrentRewardsInitialized
    pure ⟨currentRwd.period,0,0,0⟩

def addRewardsForCostakers (rwdToAdd : Coins) : Proc Unit := do
  let currentRwd ← getCurrentRewardsInitialized
  let currentRwd' ← lift (currentRwd.addRewards rwdToAdd)
  setCurrentRewards currentRwd'

def incrementRewardsPeriod : Proc Nat := do
  let currentRwd ← getCurrentRewardsInitialized
  let currentRewardsPerScore ← lift currentRwd.perScore
  let w ← get
  let historicalRwd ← lift (w.costk.getHistoricalRewards (currentRwd.period-1))
  let cumulative ← lift (Coins.add historicalRwd currentRewardsPerScore)
  setHistoricalRewards currentRwd.period cumulative
  setCurrentRewards ⟨.empty,currentRwd.period+1,currentRwd.totalScore⟩
  pure currentRwd.period

def accumulateRewardGaugeForCostaker (addr : AccAddress) (reward : Coins) : Proc Unit := do
  let w ← get
  let ictv ← lift (w.ictv.accumulateRewardGauge .COSTAKER addr reward)
  set { w with ictv := ictv }

def sendCoinsToIncentive (amt : Coins) : Proc Unit := do
  let w ← get
  let (costaking,incentive) ← lift (w.bank.sendCoins w.bank.costaking w.bank.incentive amt)
  set { w with bank := { w.bank with costaking := costaking, incentive := incentive } }

def calculateCostakerRewardsAndSendToGauge (costaker : AccAddress)
    (endPeriod : Nat) : Proc Unit := do
  let w ← get
  let rewards ← lift (w.costk.calculateCostakerRewards costaker endPeriod)
  if Coins.isZero rewards then pure ()
  else do
    accumulateRewardGaugeForCostaker costaker rewards
    sendCoinsToIncentive rewards

def initializeCoStakerRwdTracker (costaker : AccAddress) : Proc Unit := do
  let currentRwd ← getCurrentRewards
  let tracker ← getCostakerRewards costaker
  setCostakerRewardsTracker costaker
    { tracker with startPeriodCumulativeReward := currentRwd.period-1 }

def costakerModifiedScoreWithPreInitalization (costaker : AccAddress)
    (preInitializeCostaker : Proc Unit) : Proc Unit := do
  let endedPeriod ← incrementRewardsPeriod
  calculateCostakerRewardsAndSendToGauge costaker endedPeriod
  preInitializeCostaker
  initializeCoStakerRwdTracker costaker

def storeScoreChange (costaker : AccAddress) (rwdTracker : CostakerRewardsTracker)
    (deltaScoreChange : Int) : Proc Unit := do
  setCostakerRewardsTracker costaker rwdTracker
  let curRwd ← getCurrentRewards
  let curRwd' := { curRwd with totalScore := curRwd.totalScore+deltaScoreChange }
  lift curRwd'.validate
  setCurrentRewards curRwd'

def costakerModified (costaker : AccAddress)
    (modifyCostaker : CostakerRewardsTracker → CostakerRewardsTracker) : Proc Unit := do
  let rwdTracker ← getCostakerRewardsOrInitialize costaker
  let rwdTracker := (modifyCostaker rwdTracker).sanitize
  lift (rwdTracker.validate.wrap (.errorf "failed to validate costaker: %s - %w"))
  let w ← get
  let (rwdTracker,deltaScoreChange) ← lift
      (rwdTracker.updateScore w.costk.params.scoreRatioBtcByNtk)
  if deltaScoreChange = 0 then setCostakerRewardsTracker costaker rwdTracker
  else
    costakerModifiedScoreWithPreInitalization costaker
      (storeScoreChange costaker rwdTracker deltaScoreChange)

def costakerModifiedActiveAmounts (costaker : AccAddress) (newActiveSatoshi newActiveNtk : Int) :
    Proc Unit :=
  costakerModified costaker (fun rwdTracker =>
    { rwdTracker with activeNtk := newActiveNtk, activeSatoshis := newActiveSatoshi })

def costakerWithdrawRewards (costaker : AccAddress) : Proc Unit :=
  costakerModifiedScoreWithPreInitalization costaker (pure ())

/-- One iteration over the costakers, with the sum of the scores so far. -/
def updateCostakerScore (scoreRatioBtcByNtk : Int) (endedPeriod : Nat) (totalScore : Int)
    (entry : AccAddress × CostakerRewardsTracker) : Proc Int := do
  let (rwdTracker,deltaScoreChange) ← lift (entry.2.updateScore scoreRatioBtcByNtk)
  if deltaScoreChange = 0 then do
    setCostakerRewardsTracker entry.1 rwdTracker
    pure (totalScore+rwdTracker.totalScore)
  else do
    calculateCostakerRewardsAndSendToGauge entry.1 endedPeriod
    setCostakerRewardsTracker entry.1 rwdTracker
    initializeCoStakerRwdTracker entry.1
    pure (totalScore+rwdTracker.totalScore)

def updateCurrentRewardsTotalScore (totalScore : Int) : Proc Unit := do
  let _ ← incrementRewardsPeriod
  let currentRwd ← getCurrentRewards
  setCurrentRewards { currentRwd with totalScore := totalScore }

def updateAllCostakersScore (scoreRatioBtcByNtk : Int) : Proc Unit := do
  let endedPeriod ← incrementRewardsPeriod
  let currentRwd ← getCurrentRewards
  let w ← get
  let totalScore ←
    w.costk.costakerRewardsTracker.entries.foldlM
      (updateCostakerScore scoreRatioBtcByNtk endedPeriod) 0
  lift ({ currentRwd with totalScore := totalScore } : CurrentRewards).validate
  updateCurrentRewardsTotalScore totalScore

structure MsgUpdateParams where
  isAuthority : Bool
  params : Params

def updateParams (req : MsgUpdateParams) : Proc Unit := do
  lift (ensure (req.isAuthority = true) .notAuthority)
  lift (req.params.validate.wrap (.err .ErrInvalidProposalMsg "invalid parameter: %v"))
  let w ← get
  if req.params.scoreRatioBtcByNtk ≠ w.costk.params.scoreRatioBtcByNtk then
    updateAllCostakersScore req.params.scoreRatioBtcByNtk
  modify (fun w => { w with costk := { w.costk with params := req.params } })

/-- What the distribution module records for each validator is not modelled. -/
def allocateValidatorsRewards (bondedVotes : List VoteInfo) (rwds : Coins) : Proc Unit := do
  if Coins.isAllPositive rwds then do
    if (bondedVotes.map (·.power)).sum = 0 then pure ()
    else do
      let w ← get
      let (feeCollector,distribution) ← lift
          (w.bank.sendCoins w.bank.feeCollector w.bank.distribution rwds)
      set { w with
        bank := { w.bank with feeCollector := feeCollector, distribution := distribution } }
      lift (ensure (∀ vote ∈ bondedVotes, vote.known = true) (.errorf "validator not found"))
  else pure ()

def accumulateCostakingRewards (costakingRewards : Coins) : Proc Unit := do
  if Coins.isAllPositive costakingRewards then do
    let w ← get
    let (feeCollector,costaking) ← lift (w.bank.sendCoins w.bank.feeCollector w.bank.costaking
        costakingRewards)
    set { w with bank := { w.bank with feeCollector := feeCollector, costaking := costaking } }
    addRewardsForCostakers costakingRewards
  else pure ()

def handleCoinsInFeeCollector (bondedVotes : List VoteInfo) : Proc Unit := do
  let w ← get
  let feesCollectedInt := w.bank.feeCollector
  if Coins.isAllPositive feesCollectedInt then do
    let valDirectRwds ← lift (Coins.getCoinsPortion feesCollectedInt
        w.costk.params.validatorsPortion)
    allocateValidatorsRewards bondedVotes valDirectRwds
    let costakingRewards ← lift
        (Coins.getCoinsPortion feesCollectedInt w.costk.params.costakingPortion)
    accumulateCostakingRewards costakingRewards
  else pure ()

end AnonChain.Costaking
