import AnonChain.Incentive.Keeper

/-! The records of the costaking module. -/

namespace AnonChain.Costaking

open Lib

abbrev ValAddress := Bytes

structure Params where
  costakingPortion : Dec
  scoreRatioBtcByNtk : Int
  validatorsPortion : Dec
  deriving DecidableEq

def validatePercentage (percentage : Dec) : Result Unit := do
  ensure (percentage < decPrecision) (.err .ErrPercentageTooHigh "")
  ensure (0 ≤ percentage) (.err .ErrInvalidPercentage "lower than zero")

def Params.validate (p : Params) : Result Unit := do
  (validatePercentage p.costakingPortion).wrap (.errorf "invalid costaking portion")
  (validatePercentage p.validatorsPortion).wrap (.errorf "invalid validators portion")
  (validatePercentage (p.costakingPortion+p.validatorsPortion)).wrap
    (.errorf "invalid total portion")
  ensure (1 ≤ p.scoreRatioBtcByNtk) (.err .ErrScoreRatioTooLow "")

structure CurrentRewards where
  rewards : Coins
  period : Nat
  totalScore : Int

namespace CurrentRewards

/-- An overflow of the sum is recovered. -/
def addRewards (cr : CurrentRewards) (coinsToAdd : Coins) : Result CurrentRewards := do
  let withDecimals ← Coins.coinsSafeMulInt coinsToAdd Incentive.decimalRewards
  match Coins.add cr.rewards withDecimals with
  | .ok rewards => pure { cr with rewards := rewards }
  | .error _ => .error (.err .ErrInvalidAmount "math overflow: %v")

def validate (cr : CurrentRewards) : Result Unit := do
  ensure (Coins.isValid cr.rewards = true) (.errorf "invalid rewards: %s")
  ensure (Coins.isAnyNegative cr.rewards = false) (.errorf "rewards cannot be negative: %s")
  ensure (0 ≤ cr.totalScore) (.errorf "total score must be non-negative: %s")

end CurrentRewards

structure CostakerRewardsTracker where
  startPeriodCumulativeReward : Nat
  activeSatoshis : Int
  activeNtk : Int
  totalScore : Int

def calculateScore (scoreRatioBtcByNtk activeNtk activeSats : Int) : Result Int := do
  ensure (scoreRatioBtcByNtk ≠ 0) (.panic "division by zero")
  pure (min activeSats (activeNtk.tdiv scoreRatioBtcByNtk))

namespace CostakerRewardsTracker

/-- A delegation of a slashed validator may be rounded to one token less. -/
def sanitize (crt : CostakerRewardsTracker) : CostakerRewardsTracker :=
  if crt.activeNtk = -1 then { crt with activeNtk := 0 } else crt

def validate (crt : CostakerRewardsTracker) : Result Unit := do
  ensure (0 ≤ crt.totalScore) (.err .ErrInvalidCostakerRwdTracker "has negative total score %s")
  ensure (0 ≤ crt.activeNtk) (.err .ErrInvalidCostakerRwdTracker "has negative active ntk %s")
  ensure (0 ≤ crt.activeSatoshis) (.err .ErrInvalidCostakerRwdTracker "has negative active sats %s")

def updateScore (crt : CostakerRewardsTracker) (scoreRatioBtcByNtk : Int) :
    Result (CostakerRewardsTracker × Int) := do
  let totalScore ← calculateScore scoreRatioBtcByNtk crt.activeNtk crt.activeSatoshis
  pure ({ crt with totalScore := totalScore },totalScore-crt.totalScore)

end CostakerRewardsTracker

structure State where
  params : Params
  currentRewards : Option CurrentRewards
  historicalRewards : KVStore Nat Coins
  costakerRewardsTracker : KVStore AccAddress CostakerRewardsTracker
  validatorSet : Option (List ValAddress)

structure StakeInfo where
  amount : Dec
  shares : Dec

/-- Kept in memory: a failed transaction does not undo it. -/
structure StakingCache where
  stkInfoByValByDel : KVStore (AccAddress ×ₗ ValAddress) StakeInfo
  activeValSet : Option (KVStore ValAddress Unit)

namespace StakingCache

def new : StakingCache := ⟨.empty,none⟩

def setStakedInfo (sc : StakingCache) (del : AccAddress) (val : ValAddress)
    (amtStaked delShares : Dec) : StakingCache :=
  { sc with stkInfoByValByDel := sc.stkInfoByValByDel.set (toLex (del,val)) ⟨amtStaked,delShares⟩ }

def getStakedInfo (sc : StakingCache) (del : AccAddress) (val : ValAddress) : StakeInfo :=
  sc.stkInfoByValByDel.getD (toLex (del,val)) ⟨0,0⟩

def delete (sc : StakingCache) (del : AccAddress) (val : ValAddress) : StakingCache :=
  { sc with stkInfoByValByDel := sc.stkInfoByValByDel.delete (toLex (del,val)) }

end StakingCache

structure Staking where
  height : Nat
  /-- The shares of a delegation. -/
  getDelegation : AccAddress → ValAddress → Option Dec
  /-- The tokens of an amount of shares of a validator. -/
  getValidator : ValAddress → Option (Dec → Dec)
  getValidatorDelegations : ValAddress → List (AccAddress × Dec)
  lastValidatorPowers : List ValAddress

/-- A vote of the last block: its power, and whether its validator is known. -/
structure VoteInfo where
  power : Int
  known : Bool

end AnonChain.Costaking

namespace AnonChain

structure World where
  bank : Bank
  ictv : Incentive.State
  costk : Costaking.State
  stkCache : Costaking.StakingCache

/-- A procedure keeps its writes when it fails; who calls it decides whether to undo them. -/
abbrev Proc := EStateM Failure World

end AnonChain
