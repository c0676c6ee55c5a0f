import AnonChain.Epoching.Genesis
import AnonChain.Lib.Run

/-! The blocks of the epoching module. The other modules are the state `R` and a `StakingKeeper`. -/

namespace AnonChain.Epoching

open Lib

abbrev Balances := Address → Denom → Nat

/-- What the modules outside hold, the delegate pool apart. -/
structure Outside (R : Type) where
  rest : R
  balances : Balances

inductive StakingHook where
  | validatorState (valAddr : Address) (state : BondState)
  | delegationRemoved (delAddr valAddr : Address)

/-- What a call into the staking module leaves behind and the hooks it called. -/
structure Effect (R : Type) where
  outside : Outside R
  hooks : List StakingHook

structure UnbondingEntry where
  delegatorAddress : Bech32
  validatorAddress : Bech32
  creationHeight : Nat
  completionTime : Nat
deriving DecidableEq

structure RedelegationEntry where
  delegatorAddress : Bech32
  validatorSrcAddress : Bech32
  validatorDstAddress : Bech32
  creationHeight : Nat
  completionTime : Nat
deriving DecidableEq

structure Staking where
  unbondingTime : Nat
  bondDenom : Denom
  ubdQueue : List UnbondingEntry
  redelegationQueue : List RedelegationEntry
  lastValidatorPowers : ValidatorPowers

structure StakingKeeper (R : Type) where
  authority : Bytes
  -- Queries of the wrapped messages.
  getValidator : R → Address → Bool
  checkCommission : MsgCreateValidator → R → Result Unit
  checkPubkey : MsgCreateValidator → R → Result Unit
  checkDetails : MsgCreateValidator → R → Result Unit
  createRegistration : MsgCreateValidator → R → Result R
  checkEdit : MsgEditValidator → R → Result Unit
  validateUnbondAmount : R → Address → Address → Nat → Result Unit
  hasMaxUnbondingDelegationEntries : R → Address → Address → Bool
  hasReceivingRedelegation : R → Address → Address → Bool
  hasMaxRedelegationEntries : R → Address → Address → Address → Bool
  validateParams : MsgStakingUpdateParams → Result Unit
  -- The message server; a failed call returns the text of its error.
  createValidator : Header → MsgCreateValidator → Outside R → Except String (Effect R)
  delegate : Header → MsgDelegate → Outside R → Except String (Effect R)
  undelegate : Header → MsgUndelegate → Outside R → Except String (Effect R)
  beginRedelegate : Header → MsgBeginRedelegate → Outside R → Except String (Effect R)
  cancelUnbondingDelegation : Header → MsgCancelUnbondingDelegation → Outside R →
    Except String (Effect R)
  editValidator : Header → MsgEditValidator → Outside R → Except String (Effect R)
  updateParams : Header → MsgStakingUpdateParams → Outside R → Except String (Effect R)
  /-- The entries a cancellation leaves in the queue. -/
  keepsEntry : MsgCancelUnbondingDelegation → R → UnbondingEntry → Bool
  -- The end of an epoch and the finalization of a checkpoint.
  applyAndReturnValidatorSetUpdates : Header → Outside R → Effect R × ValidatorPowers
  getAllMatureValidators : Header → R → List Address
  unbondAllMatureValidators : Header → Outside R → Effect R
  completeUnbonding : Header → Address → Address → Outside R → Option (Effect R)
  completeRedelegation : Header → Address → Address → Address → Outside R → Option (Effect R)

/-- What happened to the queued messages and to the unbondings. -/
inductive Event where
  | enqueued (epochNumber : Nat) (msg : QueuedMessage) (before after : Balances)
  | unlockFundsFailed (epochNumber : Nat) (msg : QueuedMessage)
  | handled (epochNumber height : Nat) (msg : QueuedMessage) (error : Option Failure)
      (before after : Balances)
  | completedUnbonding (epochNumber : Nat) (entry : UnbondingEntry)
  | completedRedelegation (epochNumber : Nat) (entry : RedelegationEntry)

/-- Between blocks, in a block before the module's `BeginBlocker`, and after it. -/
inductive Phase where
  | idle
  | started
  | running
deriving DecidableEq

structure World (R : Type) where
  header : Header
  phase : Phase
  store : Store
  staking : Staking
  outside : Outside R
  pool : Denom → Nat
  lastFinalizedEpoch : Nat
  history : List Event

namespace World

variable {R : Type} (k : StakingKeeper R)

def runHook (header : Header) (s : Store) : StakingHook → Store
  | .validatorState valAddr state => s.recordNewValState header valAddr state
  | .delegationRemoved delAddr valAddr =>
    s.recordNewDelegationState header delAddr valAddr none .REMOVED

def write (w : World R) (effect : Effect R) : World R :=
  { w with outside := effect.outside, store := effect.hooks.foldl (runHook w.header) w.store }

def extractAddrAndCoinsFromMsg : StakingMsg → Result (Option (Address × Coin))
  | .delegate msg => do
    let delegatorAddr ← accAddressFromBech32 msg.delegatorAddress
    pure (some (delegatorAddr,msg.amount))
  | .createValidator msg => do
    let validatorAddr ← valAddressFromBech32 msg.validatorAddress
    pure (some (validatorAddr,msg.value))
  | _ => pure none

def setBalance (b : Balances) (addr : Address) (denom : Denom) (amount : Nat) : Balances :=
  fun a d => if a = addr ∧ d = denom then amount else b a d

def setPool (pool : Denom → Nat) (denom : Denom) (amount : Nat) : Denom → Nat :=
  fun d => if d = denom then amount else pool d

def toPool (w : World R) (addr : Address) (coin : Coin) : World R :=
  { w with
    outside := { w.outside with
      balances := setBalance w.outside.balances addr coin.denom
        (w.outside.balances addr coin.denom-coin.amount) }
    pool := setPool w.pool coin.denom (w.pool coin.denom+coin.amount) }

def fromPool (w : World R) (addr : Address) (coin : Coin) : World R :=
  { w with
    outside := { w.outside with
      balances := setBalance w.outside.balances addr coin.denom
        (w.outside.balances addr coin.denom+coin.amount) }
    pool := setPool w.pool coin.denom (w.pool coin.denom-coin.amount) }

def lockFunds (w : World R) (addr : Address) (coin : Coin) : Result (World R) := do
  ensure (coin.amount ≤ w.outside.balances addr coin.denom)
    (.err .ErrInsufficientFunds "failed to lock funds for msg %s")
  pure (w.toPool addr coin)

def unlockFunds (w : World R) (addr : Address) (coin : Coin) : Result (World R) := do
  ensure (coin.amount ≤ w.pool coin.denom)
    (.err .ErrInsufficientFunds "failed to unlock funds for msg %s")
  pure (w.fromPool addr coin)

def lockFundsForDelegateMsgs (w : World R) (msg : StakingMsg) : Result (World R) := do
  match ← extractAddrAndCoinsFromMsg msg with
  | none => pure w
  | some (addr,coin) => w.lockFunds addr coin

def unlockFundsForDelegateMsgs (w : World R) (msg : StakingMsg) : Result (World R) := do
  match ← extractAddrAndCoinsFromMsg msg with
  | none => pure w
  | some (addr,coin) => w.unlockFunds addr coin

def enqueue (w : World R) (before : Balances) (msg : QueuedMessage) : Result (World R) := do
  let epoch ← w.store.getEpoch
  let store ← w.store.enqueueMsg msg
  pure { w with
    store, history := w.history ++ [.enqueued epoch.epochNumber msg before w.outside.balances] }

def newQueuedMessage (w : World R) (txid : Bytes) (msg : StakingMsg) : QueuedMessage :=
  ⟨txid,w.header.height,w.header.time,msg⟩

/-- A message without funds is queued as it is; there is no queue at height 0. -/
def enqueueUnfunded (w : World R) (txid : Bytes) (msg : StakingMsg) : Result (World R) := do
  ensure (w.header.height ≠ 0) (.err .ErrZeroEpochMsg "")
  w.enqueue w.outside.balances (w.newQueuedMessage txid msg)

def checkDenom (w : World R) (coin : Coin) : Result Unit :=
  ensure (coin.denom = w.staking.bondDenom)
    (.err .ErrInvalidRequest "invalid coin denomination: got %s, expected %s")

def checkMinAmount (w : World R) (coin : Coin) (text : String) : Result Unit :=
  ensure (w.store.params.minAmount ≤ coin.amount) (.err .ErrInvalidRequest text)

def wrappedEditValidator (w : World R) (txid : Bytes) (msg : MsgEditValidator) :
    Result (World R) := do
  let valAddr ← valAddressFromBech32 msg.validatorAddress
  k.checkEdit msg w.outside.rest
  ensure (k.getValidator w.outside.rest valAddr = true) (.err .ErrNoValidatorFound "")
  w.enqueueUnfunded txid (.editValidator msg)

def wrappedStakingUpdateParams (w : World R) (txid : Bytes) (msg : MsgStakingUpdateParams) :
    Result (World R) := do
  ensure (k.authority = msg.authority) .notAuthority
  k.validateParams msg
  w.enqueueUnfunded txid (.updateParams msg)

def wrappedDelegate (w : World R) (txid : Bytes) (msg : MsgDelegate) : Result (World R) := do
  let valAddr ← valAddressFromBech32 msg.validatorAddress
  ensure (k.getValidator w.outside.rest valAddr = true) (.err .ErrNoValidatorFound "")
  let _ ← accAddressFromBech32 msg.delegatorAddress
  w.checkDenom msg.amount
  w.checkMinAmount msg.amount "delegation amount %s is below minimum required amount %d"
  ensure (w.header.height ≠ 0) (.err .ErrZeroEpochMsg "")
  let locked ← (w.lockFundsForDelegateMsgs (.delegate msg)).wrap
      (.err .ErrInsufficientFunds "failed to lock user funds")
  locked.enqueue w.outside.balances (w.newQueuedMessage txid (.delegate msg))

def wrappedUndelegate (w : World R) (txid : Bytes) (msg : MsgUndelegate) : Result (World R) := do
  let valAddr ← valAddressFromBech32 msg.validatorAddress
  let delegatorAddress ← accAddressFromBech32 msg.delegatorAddress
  k.validateUnbondAmount w.outside.rest delegatorAddress valAddr msg.amount.amount
  w.checkDenom msg.amount
  ensure (k.hasMaxUnbondingDelegationEntries w.outside.rest delegatorAddress valAddr = false)
    (.err .ErrMaxUnbondingDelegationEntries "")
  w.checkMinAmount msg.amount "undelegation amount %s is below minimum required amount %d"
  w.enqueueUnfunded txid (.undelegate msg)

def wrappedBeginRedelegate (w : World R) (txid : Bytes) (msg : MsgBeginRedelegate) :
    Result (World R) := do
  let valSrcAddr ← valAddressFromBech32 msg.validatorSrcAddress
  let valDstAddr ← valAddressFromBech32 msg.validatorDstAddress
  let delegatorAddress ← accAddressFromBech32 msg.delegatorAddress
  k.validateUnbondAmount w.outside.rest delegatorAddress valSrcAddr msg.amount.amount
  w.checkDenom msg.amount
  ensure (k.hasReceivingRedelegation w.outside.rest delegatorAddress valSrcAddr = false)
    (.err .ErrTransitiveRedelegation "")
  ensure (k.hasMaxRedelegationEntries w.outside.rest delegatorAddress valSrcAddr valDstAddr = false)
    (.err .ErrMaxRedelegationEntries "")
  w.checkMinAmount msg.amount "redelegation amount %s is below minimum required amount %d"
  w.enqueueUnfunded txid (.beginRedelegate msg)

def wrappedCancelUnbondingDelegation (w : World R) (txid : Bytes)
    (msg : MsgCancelUnbondingDelegation) : Result (World R) := do
  let _ ← accAddressFromBech32 msg.delegatorAddress
  let _ ← valAddressFromBech32 msg.validatorAddress
  ensure (0 < msg.amount.amount) (.err .ErrInvalidRequest "invalid amount")
  w.checkMinAmount msg.amount
    "cancel unbonding delegaion amount %s is below minimum required amount %d"
  ensure (0 < msg.creationHeight) (.err .ErrInvalidRequest "invalid height")
  w.checkDenom msg.amount
  w.enqueueUnfunded txid (.cancelUnbondingDelegation msg)

def checkMsgCreateValidator (w : World R) (msg : MsgCreateValidator) : Result Unit := do
  let valAddr ← valAddressFromBech32 msg.validatorAddress
  k.checkCommission msg w.outside.rest
  ensure (k.getValidator w.outside.rest valAddr = false)
    (.errorf "validator already exist for this operator address")
  k.checkPubkey msg w.outside.rest
  w.checkDenom msg.value
  k.checkDetails msg w.outside.rest
  ensure (msg.value.amount < w.outside.balances valAddr msg.value.denom)
    (.err .ErrInsufficientBalance "")
  w.checkMinAmount msg.value "delegation amount %s is below minimum required amount %d"

/-- The BLS key is registered before the funds are locked. At height 0 the message goes to the
staking module at once. -/
def wrappedCreateValidator (w : World R) (txid : Bytes) (msg : MsgCreateValidator) :
    Result (World R) := do
  w.checkMsgCreateValidator k msg
  let rest ← k.createRegistration msg w.outside.rest
  let w := { w with outside := { w.outside with rest } }
  if w.header.height = 0 then
    match k.createValidator w.header msg w.outside with
    | .error text => .error (.errorf text)
    | .ok effect => pure (w.write effect)
  else do
    let locked ← w.lockFundsForDelegateMsgs (.createValidator msg)
    locked.enqueue w.outside.balances (w.newQueuedMessage txid (.createValidator msg))

def deliver (w : World R) (txid : Bytes) : StakingMsg → Result (World R)
  | .createValidator msg => w.wrappedCreateValidator k txid msg
  | .delegate msg => w.wrappedDelegate k txid msg
  | .undelegate msg => w.wrappedUndelegate k txid msg
  | .beginRedelegate msg => w.wrappedBeginRedelegate k txid msg
  | .cancelUnbondingDelegation msg => w.wrappedCancelUnbondingDelegation txid msg
  | .editValidator msg => w.wrappedEditValidator k txid msg
  | .updateParams msg => w.wrappedStakingUpdateParams k txid msg

def updateParams (w : World R) (authority : Bytes) (params : Params) : Result (World R) := do
  ensure (k.authority = authority) .notAuthority
  (params.validate).wrap (.err .ErrInvalidProposalMsg "invalid parameter: %v")
  let store ← w.store.setParams params
  pure { w with store }

def parseDelValAddr (delAddr valAddr : Bech32) : Result (Address × Address) := do
  let del ← accAddressFromBech32 delAddr
  let val ← valAddressFromBech32 valAddr
  pure (del,val)

/-- A call to the staking module: its writes are kept when it succeeds, and `next` goes on with them
and may fail without undoing them. -/
def serve (w : World R) (call : Except String (Effect R))
    (next : World R → World R × Option Failure) : World R × Option Failure :=
  match call with
  | .error text => (w,some (.errorf text))
  | .ok effect => next (w.write effect)

def recordDelegation (delAddr valAddr : Bech32) (amount : Coin)
    (states : List BondState) (w : World R) : World R × Option Failure :=
  match parseDelValAddr delAddr valAddr with
  | .error e => (w,some e)
  | .ok (del,val) =>
    ({ w with store := states.foldl (fun s state =>
        s.recordNewDelegationState w.header del val (some amount) state) w.store },none)

def startUnbonding (msg : MsgUndelegate) (w : World R) : World R :=
  { w with staking := { w.staking with
      ubdQueue := w.staking.ubdQueue ++ [⟨msg.delegatorAddress,msg.validatorAddress,w.header.height,
        w.header.time+w.staking.unbondingTime⟩] } }

def startRedelegation (msg : MsgBeginRedelegate) (w : World R) : World R :=
  { w with staking := { w.staking with
      redelegationQueue := w.staking.redelegationQueue ++ [⟨msg.delegatorAddress,
        msg.validatorSrcAddress,
        msg.validatorDstAddress,w.header.height,w.header.time+w.staking.unbondingTime⟩] } }

def cancelUnbonding (rest : R) (msg : MsgCancelUnbondingDelegation) (w : World R) : World R :=
  { w with
    staking := { w.staking with ubdQueue := w.staking.ubdQueue.filter (k.keepsEntry msg rest) } }

def setStakingParams (msg : MsgStakingUpdateParams) (w : World R) : World R :=
  { w with
    staking := { w.staking with unbondingTime := msg.unbondingTime, bondDenom := msg.bondDenom } }

def runUnwrappedMsg (w : World R) : StakingMsg → World R × Option Failure
  | .createValidator msg => w.serve (k.createValidator w.header msg w.outside)
      -- The delegator's address is parsed from the text of the operator's address.
      (recordDelegation msg.validatorAddress msg.validatorAddress msg.value [.CREATED,.BONDED])
  | .delegate msg => w.serve (k.delegate w.header msg w.outside)
      (recordDelegation msg.delegatorAddress msg.validatorAddress msg.amount [.CREATED,.BONDED])
  | .undelegate msg => w.serve (k.undelegate w.header msg w.outside) (fun w =>
    recordDelegation msg.delegatorAddress msg.validatorAddress msg.amount [.UNBONDING]
      (startUnbonding msg w))
  | .beginRedelegate msg => w.serve (k.beginRedelegate w.header msg w.outside) (fun w =>
    recordDelegation msg.delegatorAddress msg.validatorSrcAddress msg.amount [.UNBONDING]
      (startRedelegation msg w))
  | .cancelUnbondingDelegation msg =>
    w.serve (k.cancelUnbondingDelegation w.header msg w.outside) (fun w' =>
    recordDelegation msg.delegatorAddress msg.validatorAddress msg.amount [.BONDED]
      (cancelUnbonding k w.outside.rest msg w'))
  | .editValidator msg => w.serve (k.editValidator w.header msg w.outside) (fun w => (w,none))
  | .updateParams msg =>
    w.serve (k.updateParams w.header msg w.outside) (fun w => (setStakingParams msg w,none))

def handleQueuedMsg (epochNumber : Nat) (w : World R) (msg : QueuedMessage) : World R :=
  match w.unlockFundsForDelegateMsgs msg.msg with
  | .error _ => { w with history := w.history ++ [.unlockFundsFailed epochNumber msg] }
  | .ok unlocked =>
    let (w',error) := unlocked.runUnwrappedMsg k msg.msg
    { w' with history := w'.history ++
        [.handled epochNumber w.header.height msg error w.outside.balances w'.outside.balances] }

def updateValidatorSet (w : World R) : World R :=
  let (effect,powers) := k.applyAndReturnValidatorSetUpdates w.header w.outside
  let w := w.write effect
  { w with staking := { w.staking with lastValidatorPowers := powers } }

def endBlocker (w : World R) : Result (World R) := do
  let epoch ← w.store.getEpoch
  if epoch.isLastBlock w.header.height then do
    let store ← w.store.recordLastHeaderTime w.header
    let queuedMsgs ← store.getCurrentEpochMsgs
    let w := queuedMsgs.foldl (handleQueuedMsg k epoch.epochNumber) { w with store }
    pure (w.updateValidatorSet k)
  else pure w

def completeUnbonding (header : Header) (epochNumber : Nat) (w : World R) (entry : UnbondingEntry) :
    Result (World R) := do
  let valAddr ← (valAddressFromBech32 entry.validatorAddress).orPanic
  let delAddr ← (accAddressFromBech32 entry.delegatorAddress).orPanic
  match k.completeUnbonding header delAddr valAddr w.outside with
  | none => pure w
  | some effect =>
    let w := w.write effect
    pure { w with
      store := w.store.recordNewDelegationState w.header delAddr valAddr none .UNBONDED
      history := w.history ++ [.completedUnbonding epochNumber entry] }

def completeRedelegation (header : Header) (epochNumber : Nat) (w : World R)
    (entry : RedelegationEntry) : Result (World R) := do
  let valSrcAddr ← (valAddressFromBech32 entry.validatorSrcAddress).orPanic
  let valDstAddr ← (valAddressFromBech32 entry.validatorDstAddress).orPanic
  let delAddr ← (accAddressFromBech32 entry.delegatorAddress).orPanic
  match k.completeRedelegation header delAddr valSrcAddr valDstAddr w.outside with
  | none => pure w
  | some effect =>
    let w := w.write effect
    let store := w.store.recordNewDelegationState w.header delAddr valSrcAddr none .UNBONDED
    let store := store.recordNewDelegationState w.header delAddr valDstAddr none .CREATED
    let store := store.recordNewDelegationState w.header delAddr valDstAddr none .BONDED
    pure { w with store, history := w.history ++ [.completedRedelegation epochNumber entry] }

def recordUnbonded (w : World R) (valAddrs : List Address) : World R :=
  { w with
    store := valAddrs.foldl (fun s valAddr => s.recordNewValState w.header valAddr .UNBONDED)
      w.store }

/-- The staking module runs under a header whose time is that of the epoch's last block, put
forward by the unbonding time. -/
def applyMatureUnbonding (w : World R) (epochNumber : Nat) : Result (World R) := do
  let finalizedEpoch ← (w.store.getHistoricalEpoch epochNumber).orPanic
  let lastBlockTime ← orFail finalizedEpoch.lastBlockTime .nilPointer
  let finalizedTime := lastBlockTime+w.staking.unbondingTime
  let header := { w.header with time := finalizedTime }
  let matureValidators := k.getAllMatureValidators w.header w.outside.rest
  let w := w.write (k.unbondAllMatureValidators header w.outside)
  let w := w.recordUnbonded matureValidators
  -- `DequeueAllMatureUBDQueue`
  let matureUnbonds := w.staking.ubdQueue.filter (fun e => e.completionTime ≤ finalizedTime)
  let w := { w with staking := { w.staking with
    ubdQueue := w.staking.ubdQueue.filter (fun e => ¬ e.completionTime ≤ finalizedTime) } }
  let w ← matureUnbonds.foldlM (completeUnbonding k header epochNumber) w
  -- `DequeueAllMatureRedelegationQueue`
  let matureRedelegations :=
    w.staking.redelegationQueue.filter (fun e => e.completionTime ≤ finalizedTime)
  let w := { w with staking := { w.staking with
    redelegationQueue := w.staking.redelegationQueue.filter (fun e => ¬ e.completionTime ≤
      finalizedTime) } }
  matureRedelegations.foldlM (completeRedelegation k header epochNumber) w

inductive Action (R : Type) where
  /-- A block starts; the modules before the epoching module run in it. -/
  | startBlock (header : Header)
  | beginBlock
  | deliver (txid : Bytes) (msg : StakingMsg)
  | updateParams (authority : Bytes) (params : Params)
  | slash (valAddr : Address)
  /-- The checkpoint of the epoch after the last finalized one is finalized. -/
  | finalize
  /-- Whatever else happens in a block outside the module. -/
  | other (effect : Effect R)
  | endBlock

def finalizeNext (w : World R) : Result (World R) := do
  let w' ← w.applyMatureUnbonding k (w.lastFinalizedEpoch+1)
  pure { w' with lastFinalizedEpoch := w.lastFinalizedEpoch+1 }

def exec (w : World R) : Action R → Result (World R)
  | .startBlock header => pure { w with header, phase := .started }
  | .beginBlock => do
    let store ← w.store.beginBlocker w.header w.staking.lastValidatorPowers
    pure { w with store, phase := .running }
  | .deliver txid msg => w.deliver k txid msg
  | .updateParams authority params => w.updateParams k authority params
  | .slash valAddr => do
    let store ← w.store.beforeValidatorSlashed valAddr
    pure { w with store }
  | .finalize => w.finalizeNext k
  | .other effect => pure (w.write effect)
  | .endBlock => do
    let w' ← w.endBlocker k
    pure { w' with phase := .idle }

/-- Heights count up by one and times strictly increase; a block has a hash of its own; the chain
has a validator; a checkpoint is finalized after its epoch has ended, at the end of a block. -/
def enabled (w : World R) : Action R → Prop
  | .startBlock header =>
    w.phase = .idle ∧ header.height = w.header.height+1 ∧ w.header.time < header.time ∧
      header.hash ∉ w.store.epochs.map Epoch.sealerBlockHash ∧
      w.staking.lastValidatorPowers.powers.entries ≠ []
  | .beginBlock => w.phase = .started
  | .slash _ => w.phase ≠ .idle
  | .other _ => w.phase ≠ .idle
  | .finalize =>
    w.phase = .idle ∧ ∃ epoch ∈ w.store.epochs, w.lastFinalizedEpoch+1 < epoch.epochNumber
  | _ => w.phase = .running

instance (w : World R) : (a : Action R) → Decidable (w.enabled a)
  | .startBlock _ => inferInstanceAs (Decidable (_ ∧ _ ∧ _ ∧ _ ∧ _))
  | .beginBlock => inferInstanceAs (Decidable (w.phase = .started))
  | .deliver _ _ => inferInstanceAs (Decidable (w.phase = .running))
  | .updateParams _ _ => inferInstanceAs (Decidable (w.phase = .running))
  | .slash _ => inferInstanceAs (Decidable (w.phase ≠ .idle))
  | .finalize => inferInstanceAs (Decidable (_ ∧
      ∃ epoch ∈ w.store.epochs, w.lastFinalizedEpoch+1 < epoch.epochNumber))
  | .other _ => inferInstanceAs (Decidable (w.phase ≠ .idle))
  | .endBlock => inferInstanceAs (Decidable (w.phase = .running))

structure Starts (gs : GenesisState) (w : World R) : Prop where
  fresh : gs.Fresh
  height : w.header.height = 0
  genesis : Store.empty.initGenesis w.header w.staking.lastValidatorPowers gs = .ok w.store
  phase : w.phase = .idle
  ubdQueue : w.staking.ubdQueue = []
  redelegationQueue : w.staking.redelegationQueue = []
  pool : w.pool = fun _ => 0
  finalized : w.lastFinalizedEpoch = 0
  history : w.history = []

def system : System (World R) (Action R) where
  init w := ∃ gs, Starts gs w
  step w a w' := w.enabled a ∧ w.exec k a = .ok w'

end World

end AnonChain.Epoching
