import AnonChain.Costaking.Hooks
import AnonChain.Lib.Run

/-! The rewards of the chain as a transition system. -/

namespace AnonChain.Rewards

open Lib
open Costaking (ValAddress Staking)
open Incentive (StakeholderType State Params)

def onIncentive (f : State → Result State) : Proc Unit := do
  let w ← get
  let ictv ← lift (f w.ictv)
  set { w with ictv := ictv }

section

-- The accounts that may not receive coins: those of the modules.
variable (blockedAddr : AccAddress → Bool)

def withdrawGauge (sType : StakeholderType) (addr : AccAddress) : Proc Coins := do
  let w ← get
  let (ictv,bank,withdrawnCoins) ← lift (w.ictv.withdrawReward w.bank blockedAddr sType addr)
  set { w with ictv := ictv, bank := bank }
  pure withdrawnCoins

/-- A failed withdrawal is logged only; a Bitcoin staker withdraws as a costaker too. -/
def withdrawReward (sType : StakeholderType) (addr : AccAddress) : Proc Unit := do
  onIncentive (fun s => s.sendAllBtcDelegationTypeToRewardsGauge sType addr)
  Costaking.HookIncentives.beforeRewardWithdraw sType addr
  let withdrawnCoins ← tolerate Failure.isPanic .empty (withdrawGauge blockedAddr sType addr)
  if sType = .BTC_STAKER then do
    tolerate Failure.isPanic () (Costaking.HookIncentives.beforeRewardWithdraw .COSTAKER addr)
    let withdrawnCoins ← tolerate Failure.isPanic withdrawnCoins (do
      let withdrawnCoinsCostaker ← withdrawGauge blockedAddr .COSTAKER addr
      lift (Coins.add withdrawnCoins withdrawnCoinsCostaker))
    lift (ensure (Coins.isZero withdrawnCoins = false) (.err .ErrNoWithdrawableCoins ""))
  else lift (ensure (Coins.isZero withdrawnCoins = false) (.err .ErrNoWithdrawableCoins ""))

def setWithdrawAddress (delegatorAddress withdrawAddress : AccAddress) : Proc Unit :=
  onIncentive (fun s => do
    ensure (blockedAddr withdrawAddress = false)
      (.err .ErrUnauthorized "%s is not allowed to receive external funds")
    pure { s with withdrawAddrs := s.withdrawAddrs.set delegatorAddress withdrawAddress })

end

def updateIncentiveParams (isAuthority : Bool) (params : Params) : Proc Unit :=
  onIncentive (fun s => do
    ensure (isAuthority = true) .notAuthority
    params.validate.wrap (.err .ErrInvalidProposalMsg "invalid parameter: %v")
    pure { s with params := params })

/-! The hooks of the finality module: the incentive module comes first. -/

def afterBtcDelegationActivated (height : Nat) (fpAddr btcDelAddr : AccAddress)
    (isFpActiveInPrevSet : Bool) (sats : Nat) : Proc Unit := do
  onIncentive (fun s => pure (s.addEventBtcDelegationActivated height fpAddr btcDelAddr sats))
  Costaking.HookFinality.afterBtcDelegationActivated btcDelAddr isFpActiveInPrevSet sats

def afterBtcDelegationUnbonded (height : Nat) (fpAddr btcDelAddr : AccAddress)
    (isFpActiveInPrevSet : Bool) (sats : Nat) : Proc Unit := do
  onIncentive (fun s => pure (s.addEventBtcDelegationUnbonded height fpAddr btcDelAddr sats))
  Costaking.HookFinality.afterBtcDelegationUnbonded btcDelAddr isFpActiveInPrevSet sats

def collectFees (fees : Coins) : Proc Unit := do
  let w ← get
  lift (ensure (Coins.isValid fees = true) (.err .ErrInvalidCoins "%s"))
  let feeCollector ← lift (Coins.add w.bank.feeCollector fees)
  set { w with bank := { w.bank with feeCollector := feeCollector } }

def allocateTokens : Proc Unit := do
  let w ← get
  let distribution ← lift (Coins.add w.bank.distribution w.bank.feeCollector)
  set { w with bank := { w.bank with feeCollector := .empty, distribution := distribution } }

def incentiveHandleCoinsInFeeCollector (height : Nat) : Proc Unit := do
  let w ← get
  let (ictv,bank) ← lift (w.ictv.handleCoinsInFeeCollector w.bank height)
  set { w with ictv := ictv, bank := bank }

inductive StakingHook where
  | afterDelegationModified (delAddr : AccAddress) (valAddr : ValAddress)
  | beforeDelegationRemoved (delAddr : AccAddress) (valAddr : ValAddress)
  | beforeDelegationSharesModified (delAddr : AccAddress) (valAddr : ValAddress)
  | beforeValidatorSlashed (valAddr : ValAddress) (fraction : Dec)
  | afterEpochBegins
  | beforeEpochEnds
  | afterEpochEnds

/-- The heights, the staking module and the distribution of power are what the caller passes. -/
inductive Action where
  | collectFees (fees : Coins)
  | allocateTokens
  | incentiveHandleCoinsInFeeCollector (height : Nat)
  | costakingHandleCoinsInFeeCollector (bondedVotes : List Costaking.VoteInfo)
  | accumulateCostakingRewards (costakingRewards : Coins)
  | rewardBTCStaking (height : Nat) (dc : Finality.VotingPowerDistCache)
      (voters : BIP340PubKey → Bool)
  | afterBtcDelegationActivated (height : Nat) (fpAddr btcDelAddr : AccAddress)
      (isFpActiveInPrevSet : Bool) (sats : Nat)
  | afterBtcDelegationUnbonded (height : Nat) (fpAddr btcDelAddr : AccAddress)
      (isFpActiveInPrevSet : Bool) (sats : Nat)
  | afterAncFpEntersActiveSet (height : Nat) (fpAddr : AccAddress)
  | afterAncFpRemovedFromActiveSet (height : Nat) (fpAddr : AccAddress)
  | staking (stk : Staking) (hook : StakingHook)
  | costakerModifiedActiveAmounts (costaker : AccAddress) (newActiveSatoshi newActiveNtk : Int)
  | withdrawReward (sType : StakeholderType) (addr : AccAddress)
  | setWithdrawAddress (delegatorAddress withdrawAddress : AccAddress)
  | updateIncentiveParams (isAuthority : Bool) (params : Params)
  | updateCostakingParams (msg : Costaking.MsgUpdateParams)
  | endBlock

/-- Before a validator is slashed the staking module only logs an error of the hook. -/
def runStakingHook (stk : Staking) : StakingHook → Proc Unit
  | .afterDelegationModified del val => Costaking.HookStaking.afterDelegationModified stk del val
  | .beforeDelegationRemoved del val => Costaking.HookStaking.beforeDelegationRemoved stk del val
  | .beforeDelegationSharesModified del val =>
    Costaking.HookStaking.beforeDelegationSharesModified stk del val
  | .beforeValidatorSlashed val fraction =>
    tolerate Failure.isPanic () (Costaking.HookStaking.beforeValidatorSlashed stk val fraction)
  | .afterEpochBegins => Costaking.HookEpoching.afterEpochBegins stk
  | .beforeEpochEnds => Costaking.HookEpoching.beforeEpochEnds stk
  | .afterEpochEnds => Costaking.HookEpoching.afterEpochEnds stk

variable (blockedAddr : AccAddress → Bool)

def perform : Action → Proc Unit
  | .collectFees fees => collectFees fees
  | .allocateTokens => allocateTokens
  | .incentiveHandleCoinsInFeeCollector height => incentiveHandleCoinsInFeeCollector height
  | .costakingHandleCoinsInFeeCollector votes => Costaking.handleCoinsInFeeCollector votes
  | .accumulateCostakingRewards rewards => Costaking.accumulateCostakingRewards rewards
  | .rewardBTCStaking height dc voters => onIncentive (fun s => s.rewardBTCStaking height dc voters)
  | .afterBtcDelegationActivated height fp del prev sats =>
    afterBtcDelegationActivated height fp del prev sats
  | .afterBtcDelegationUnbonded height fp del prev sats =>
    afterBtcDelegationUnbonded height fp del prev sats
  | .afterAncFpEntersActiveSet height fp =>
    Costaking.HookFinality.afterAncFpEntersActiveSet height fp
  | .afterAncFpRemovedFromActiveSet height fp =>
    Costaking.HookFinality.afterAncFpRemovedFromActiveSet height fp
  | .staking stk hook => runStakingHook stk hook
  | .costakerModifiedActiveAmounts costaker sats ntk =>
    Costaking.costakerModifiedActiveAmounts costaker sats ntk
  | .withdrawReward sType addr => withdrawReward blockedAddr sType addr
  | .setWithdrawAddress del addr => setWithdrawAddress blockedAddr del addr
  | .updateIncentiveParams isAuthority params => updateIncentiveParams isAuthority params
  | .updateCostakingParams msg => Costaking.updateParams msg
  | .endBlock => Costaking.endBlock

/-- What fails is undone, up to what is kept in memory. -/
def deliver (w : World) (a : Action) : World :=
  match perform blockedAddr a w with
  | .ok _ w' => w'
  | .error _ w' => { w with stkCache := w'.stkCache }

/-- No record of a reward yet, valid parameters, and module accounts that owe nothing. -/
structure Genesis (w : World) : Prop where
  ictvParams : w.ictv.params.fpPortion ≠ none → w.ictv.params.validate = .ok ()
  btcStakingPortion : 0 ≤ w.ictv.params.btcStakingPortion ∧
    w.ictv.params.btcStakingPortion < decPrecision
  costkParams : w.costk.params.validate = .ok ()
  incentive : ∀ d, 0 ≤ Coins.amountOf w.bank.incentive d
  costaking : ∀ d, 0 ≤ Coins.amountOf w.bank.costaking d
  noGauges : w.ictv.rewardGauges = .empty
  noStakingGauges : w.ictv.btcStakingGauges = .empty
  noDirectGauges : w.ictv.fpDirectGauges = .empty
  noCurrent : w.ictv.finalityProviderCurrentRewards = .empty
  noHistorical : w.ictv.finalityProviderHistoricalRewards = .empty
  noTrackers : w.ictv.btcDelegationRewardsTracker = .empty
  noPairs : w.ictv.btcDelegatorToFP = .empty
  noEvents : w.ictv.rewardTrackerEvents = .empty
  noPool : w.costk.currentRewards = none
  noPeriods : w.costk.historicalRewards = .empty
  noCostakers : w.costk.costakerRewardsTracker = .empty

def rewards : System World Action where
  init := Genesis
  step w a w' := deliver blockedAddr w a = w'

end AnonChain.Rewards
