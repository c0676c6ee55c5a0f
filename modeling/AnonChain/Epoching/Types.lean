import AnonChain.Types

/-! Data of the epoching module. -/

namespace AnonChain.Epoching

open Lib

/-- A bech32 text: the prefix it carries and the bytes it encodes. -/
structure Bech32 where
  hrp : String
  bytes : Bytes
deriving DecidableEq

def VerifyAddressFormat (b : Bytes) : Prop := b ≠ [] ∧ b.length ≤ 255

instance (b : Bytes) : Decidable (VerifyAddressFormat b) := inferInstanceAs (Decidable (_ ∧ _))

/-- The bytes of an account or of the operator of a validator. -/
abbrev Address := { b : Bytes // VerifyAddressFormat b }

def Bech32PrefixAccAddr : String := "anc"
def Bech32PrefixValAddr : String := "ancvaloper"

def getFromBech32 (text : Bech32) (hrp : String) : Result Address := do
  ensure (text ≠ ⟨"",[]⟩) (.errorf "empty address string is not allowed")
  ensure (text.hrp = hrp) (.errorf "invalid Bech32 prefix; expected %s, got %s")
  if h : VerifyAddressFormat text.bytes then pure ⟨text.bytes,h⟩
  else .error (.err .ErrUnknownAddress "addresses cannot be empty")

def accAddressFromBech32 (text : Bech32) : Result Address := getFromBech32 text Bech32PrefixAccAddr

def valAddressFromBech32 (text : Bech32) : Result Address := getFromBech32 text Bech32PrefixValAddr

def accString (a : Address) : Bech32 := ⟨Bech32PrefixAccAddr,a.val⟩

def valString (a : Address) : Bech32 := ⟨Bech32PrefixValAddr,a.val⟩

theorem getFromBech32_self (a : Address) {hrp : String} (h : hrp ≠ "") :
    getFromBech32 ⟨hrp,a.val⟩ hrp = .ok a := by
  have ht : (⟨hrp,a.val⟩ : Bech32) ≠ ⟨"",[]⟩ := fun e => h (congrArg Bech32.hrp e)
  simp [getFromBech32,ensure,ht,a.property,bind,Except.bind,pure,Except.pure]

@[simp] theorem accAddressFromBech32_accString (a : Address) :
    accAddressFromBech32 (accString a) = .ok a :=
  getFromBech32_self a (by decide)

@[simp] theorem valAddressFromBech32_valString (a : Address) :
    valAddressFromBech32 (valString a) = .ok a :=
  getFromBech32_self a (by decide)

abbrev Denom := Bytes

structure Coin where
  denom : Denom
  amount : Nat
deriving DecidableEq

/-- The description, the commission rates and the public key are the staking module's to read. -/
structure MsgCreateValidator where
  validatorAddress : Bech32
  value : Coin
  details : Bytes
deriving DecidableEq

structure MsgDelegate where
  delegatorAddress : Bech32
  validatorAddress : Bech32
  amount : Coin
deriving DecidableEq

structure MsgUndelegate where
  delegatorAddress : Bech32
  validatorAddress : Bech32
  amount : Coin
deriving DecidableEq

structure MsgBeginRedelegate where
  delegatorAddress : Bech32
  validatorSrcAddress : Bech32
  validatorDstAddress : Bech32
  amount : Coin
deriving DecidableEq

structure MsgCancelUnbondingDelegation where
  delegatorAddress : Bech32
  validatorAddress : Bech32
  amount : Coin
  creationHeight : Int
deriving DecidableEq

structure MsgEditValidator where
  validatorAddress : Bech32
  details : Bytes
deriving DecidableEq

structure MsgStakingUpdateParams where
  authority : Bytes
  unbondingTime : Nat
  bondDenom : Denom
  details : Bytes
deriving DecidableEq

inductive StakingMsg where
  | createValidator (msg : MsgCreateValidator)
  | delegate (msg : MsgDelegate)
  | undelegate (msg : MsgUndelegate)
  | beginRedelegate (msg : MsgBeginRedelegate)
  | cancelUnbondingDelegation (msg : MsgCancelUnbondingDelegation)
  | editValidator (msg : MsgEditValidator)
  | updateParams (msg : MsgStakingUpdateParams)
deriving DecidableEq

structure QueuedMessage where
  txId : Bytes
  blockHeight : Nat
  blockTime : Nat
  msg : StakingMsg
deriving DecidableEq

structure Header extends HeaderInfo where
  hash : Hash

structure Epoch where
  epochNumber : Nat
  currentEpochInterval : Nat
  firstBlockHeight : Nat
  lastBlockTime : Option Nat
  sealerAppHash : Bytes
  sealerBlockHash : Bytes
deriving DecidableEq

namespace Epoch

def new (epochNumber epochInterval firstBlockHeight : Nat) (lastBlockTime : Option Nat) : Epoch :=
  ⟨epochNumber,epochInterval,firstBlockHeight,lastBlockTime,[],[]⟩

def getLastBlockHeight (e : Epoch) : Nat :=
  if e.epochNumber = 0 then 0 else e.firstBlockHeight+e.currentEpochInterval-1

def isLastBlock (e : Epoch) (height : Nat) : Bool := e.getLastBlockHeight = height

def isFirstBlock (e : Epoch) (height : Nat) : Bool := e.firstBlockHeight = height

def isFirstBlockOfNextEpoch (e : Epoch) (height : Nat) : Bool :=
  if e.epochNumber = 0 then height = 1 else e.firstBlockHeight+e.currentEpochInterval = height

def withinBoundary (e : Epoch) (height : Nat) : Bool :=
  if height < e.firstBlockHeight ∨ height > e.getLastBlockHeight then false else true

def validateBasic (e : Epoch) : Result Unit :=
  ensure (2 ≤ e.currentEpochInterval) (.err .ErrInvalidEpoch "CurrentEpochInterval (%d) < 2")

theorem withinBoundary_iff {e : Epoch} {height : Nat} :
    e.withinBoundary height = true ↔ e.firstBlockHeight ≤ height ∧
      height ≤ e.getLastBlockHeight := by
  unfold withinBoundary
  split <;> rename_i h <;> simp <;> omega

end Epoch

inductive BondState where
  | CREATED
  | BONDED
  | UNBONDING
  | UNBONDED
  | REMOVED
deriving DecidableEq

structure ValStateUpdate where
  state : BondState
  blockHeight : Nat
  blockTime : Nat
deriving DecidableEq

structure ValidatorLifecycle where
  valAddr : Bech32
  valLife : List ValStateUpdate
deriving DecidableEq

structure DelegationStateUpdate where
  state : BondState
  valAddr : Bech32
  amount : Option Coin
  blockHeight : Nat
  blockTime : Nat
deriving DecidableEq

structure DelegationLifecycle where
  delAddr : Bech32
  delLife : List DelegationStateUpdate
deriving DecidableEq

structure ExecuteGas where
  delegate : Nat
  undelegate : Nat
  beginRedelegate : Nat
  cancelUnbondingDelegation : Nat
  editValidator : Nat
  createValidator : Nat
deriving DecidableEq

structure Params where
  epochInterval : Nat
  executeGas : ExecuteGas
  minAmount : Nat
deriving DecidableEq

def DefaultExecuteGas : ExecuteGas := ⟨130000,88000,220000,20500,61000,60000⟩

def DefaultParams : Params := ⟨10,DefaultExecuteGas,1⟩

def validateExecuteGas (gas : ExecuteGas) : Result Unit := do
  ensure (gas.delegate ≠ 0) (.errorf "delegate gas fee must be positive")
  ensure (gas.undelegate ≠ 0) (.errorf "undelegate gas fee must be positive")
  ensure (gas.beginRedelegate ≠ 0) (.errorf "begin redelegate gas fee must be positive")
  ensure (gas.cancelUnbondingDelegation ≠ 0)
    (.errorf "cancel unbonding delegation gas fee must be positive")
  ensure (gas.editValidator ≠ 0) (.errorf "edit validator gas fee must be positive")
  ensure (gas.createValidator ≠ 0) (.errorf "create validator gas fee must be positive")

def Params.validate (p : Params) : Result Unit := do
  ensure (2 ≤ p.epochInterval) (.errorf "epoch interval must be at least 2: %d")
  validateExecuteGas p.executeGas
  ensure (1 ≤ p.minAmount) (.errorf "min amount must be at least 1: %d")

theorem DefaultParams_validate : DefaultParams.validate = .ok () := rfl

theorem Params.interval_of_validate {p : Params} (h : p.validate = .ok ()) :
    2 ≤ p.epochInterval := by
  simp only [Params.validate,bind_eq_ok,ensure_eq_ok,exists_const] at h
  exact h.1

structure Store where
  params : Params
  epochInfo : KVStore Nat Epoch
  /-- The messages of an epoch by their index. -/
  msgQueue : KVStore Nat (KVStore Nat QueuedMessage)
  queueLength : KVStore Nat Nat
  valSet : KVStore Nat (KVStore Address Int)
  votingPower : KVStore Nat Int
  slashedValSet : KVStore Nat (KVStore Address Int)
  slashedVotingPower : KVStore Nat Int
  valLifecycle : KVStore Address ValidatorLifecycle
  delegationLifecycle : KVStore Address DelegationLifecycle

structure ValidatorPowers where
  powers : KVStore Address Int
  nonneg : ∀ a p, powers.get a = some p → 0 ≤ p

end AnonChain.Epoching
