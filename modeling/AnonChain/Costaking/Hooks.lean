import AnonChain.Costaking.Keeper

/-! The hooks of the costaking module. -/

namespace AnonChain.Costaking

open Lib

def truncateInt (d : Dec) : Int := d.tdiv decPrecision

def addActiveSatoshis (sats : Int) (t : CostakerRewardsTracker) : CostakerRewardsTracker :=
  { t with activeSatoshis := t.activeSatoshis+sats }

def addActiveNtk (ntk : Int) (t : CostakerRewardsTracker) : CostakerRewardsTracker :=
  { t with activeNtk := t.activeNtk+ntk }

namespace HookFinality

def afterBtcDelegationUnbonded (btcDelAddr : AccAddress) (isFpActiveInPrevSet : Bool)
    (sats : Nat) : Proc Unit :=
  if isFpActiveInPrevSet then costakerModified btcDelAddr
    (addActiveSatoshis (-(sats : Int))) else pure ()

def afterBtcDelegationActivated (btcDelAddr : AccAddress) (isFpActiveInPrevSet : Bool)
    (sats : Nat) : Proc Unit :=
  if isFpActiveInPrevSet then costakerModified btcDelAddr (addActiveSatoshis sats) else pure ()

def afterAncFpEntersActiveSet (blockHeight : Nat) (fpAddr : AccAddress) : Proc Unit := do
  let w ← get
  forM (w.ictv.btcDelegationSatsUpdated blockHeight fpAddr) (fun e =>
    costakerModified e.1 (addActiveSatoshis e.2))

def afterAncFpRemovedFromActiveSet (blockHeight : Nat) (fpAddr : AccAddress) : Proc Unit := do
  let w ← get
  forM (w.ictv.btcDelegationSatsUpdated blockHeight fpAddr) (fun e =>
    costakerModified e.1 (addActiveSatoshis (-e.2)))

end HookFinality

namespace HookIncentives

def beforeRewardWithdraw (sType : Incentive.StakeholderType) (addr : AccAddress) : Proc Unit :=
  if sType = .COSTAKER then costakerWithdrawRewards addr else pure ()

end HookIncentives

section

variable (stk : Staking)

def updateCache (f : StakingCache → StakingCache) : Proc Unit :=
  modify (fun w => { w with stkCache := f w.stkCache })

/-- The validators of the current epoch; the store is not there yet at genesis. -/
def buildCurrEpochValSetMap (s : State) : Result (KVStore ValAddress Unit) :=
  if stk.height = 0 then pure .empty
  else do
    let valSet ← orFail s.validatorSet notFound
    pure (valSet.foldl (fun m val => m.set val ()) .empty)

def getActiveValidatorSet : Proc (KVStore ValAddress Unit) := do
  let w ← get
  match w.stkCache.activeValSet with
  | some valSet => pure valSet
  | none => do
    let valSet ← lift (buildCurrEpochValSetMap stk w.costk)
    updateCache (fun sc => { sc with activeValSet := some valSet })
    pure valSet

/-- At genesis a validator is put into the cached set when it is asked for. -/
def assumeActiveValidatorIfGenesis (valSet : KVStore ValAddress Unit) (valAddr : ValAddress) :
    Proc (KVStore ValAddress Unit) :=
  if stk.height = 0 then do
    updateCache (fun sc => { sc with activeValSet := some (valSet.set valAddr ()) })
    pure (valSet.set valAddr ())
  else pure valSet

def isActiveValidator (valAddr : ValAddress) : Proc Bool := do
  let valSet ← getActiveValidatorSet stk
  let valSet ← assumeActiveValidatorIfGenesis stk valSet valAddr
  pure (valSet.has valAddr)

def tokensFromShares (valAddr : ValAddress) (delShares : Dec) : Result Dec := do
  let val ← orFail (stk.getValidator valAddr) (.errorf "validator does not exist")
  pure (val delShares)

namespace HookStaking

def delegationTokens (delAddr : AccAddress) (valAddr : ValAddress) : Result Dec := do
  let shares ← orFail (stk.getDelegation delAddr valAddr)
      (.errorf "no delegation for (address, validator) tuple")
  tokensFromShares stk valAddr shares

def afterDelegationModified (delAddr : AccAddress) (valAddr : ValAddress) : Proc Unit :=
  deferred (fun w => { w with stkCache := w.stkCache.delete delAddr valAddr }) (do
    let active ← isActiveValidator stk valAddr
    if active then do
      let delTokens ← lift (delegationTokens stk delAddr valAddr)
      let w ← get
      let infoBefore := w.stkCache.getStakedInfo delAddr valAddr
      costakerModified delAddr (addActiveNtk (truncateInt (delTokens-infoBefore.amount)))
    else pure ())

def beforeDelegationRemoved (delAddr : AccAddress) (valAddr : ValAddress) : Proc Unit :=
  deferred (fun w => { w with stkCache := w.stkCache.delete delAddr valAddr }) (do
    let active ← isActiveValidator stk valAddr
    if active then do
      let delTokens ← lift (delegationTokens stk delAddr valAddr)
      if truncateInt delTokens = 0 then pure ()
      else costakerModified delAddr (addActiveNtk (-truncateInt delTokens))
    else pure ())

/-- A delegation that does not exist yet is not an error. -/
def beforeDelegationSharesModified (delAddr : AccAddress) (valAddr : ValAddress) : Proc Unit := do
  let active ← isActiveValidator stk valAddr
  if active then
    match stk.getDelegation delAddr valAddr with
    | none => pure ()
    | some shares => do
      let delTokens ← lift (tokensFromShares stk valAddr shares)
      updateCache (fun sc => sc.setStakedInfo delAddr valAddr delTokens shares)
  else pure ()

def beforeValidatorSlashed (valAddr : ValAddress) (fraction : Dec) : Proc Unit := do
  let active ← isActiveValidator stk valAddr
  if active then do
    let val ← lift (orFail (stk.getValidator valAddr) (.errorf "validator does not exist"))
    forM (stk.getValidatorDelegations valAddr) (fun del =>
      costakerModified del.1 (addActiveNtk (-truncateInt (fraction*truncateInt (val del.2)))))
  else pure ()

end HookStaking

def updateValidatorSet (newValAddrs : List ValAddress) : Proc Unit := do
  lift (ensure (∀ valAddr ∈ newValAddrs, (stk.getValidator valAddr).isSome = true)
    (.errorf "validator does not exist"))
  modify (fun w => { w with costk := { w.costk with validatorSet := some newValAddrs } })

namespace HookEpoching

def updateCoStkTrackerForDelegators (sign : Int) (valAddr : ValAddress) : Proc Unit := do
  let val ← lift (orFail (stk.getValidator valAddr) (.errorf "failed to get validator %s: %w"))
  forM (stk.getValidatorDelegations valAddr) (fun del =>
    costakerModified del.1 (addActiveNtk (sign*truncateInt (val del.2))))

def addNtkForDelegators (valAddr : ValAddress) : Proc Unit :=
  updateCoStkTrackerForDelegators stk 1 valAddr

def removeNtkForDelegators (valAddr : ValAddress) : Proc Unit :=
  updateCoStkTrackerForDelegators stk (-1) valAddr

/-- The hooks log an error and return. -/
def afterEpochBegins : Proc Unit := do
  let w ← get
  match w.costk.validatorSet with
  | some _ => pure ()
  | none => tolerate Failure.isPanic () (updateValidatorSet stk stk.lastValidatorPowers)

def beforeEpochEnds : Proc Unit :=
  tolerate Failure.isPanic () (do
    let _ ← getActiveValidatorSet stk
    pure ())

def afterEpochEnds : Proc Unit :=
  tolerate Failure.isPanic () (do
    let prevValMap ← getActiveValidatorSet stk
    let newValAddrs := stk.lastValidatorPowers
    forM (newValAddrs.filter (fun val => !prevValMap.has val)) (addNtkForDelegators stk)
    forM (prevValMap.keys.filter (fun val => val ∉ newValAddrs)) (removeNtkForDelegators stk)
    updateValidatorSet stk newValAddrs)

end HookEpoching

end

def endBlock : Proc Unit := updateCache (fun _ => StakingCache.new)

end AnonChain.Costaking
