import AnonChain.Epoching.Keeper

/-! The genesis state of the epoching module: import, export and validation. -/

namespace AnonChain.Epoching

open Lib

structure EpochQueue where
  epochNumber : Nat
  msgs : List QueuedMessage
deriving DecidableEq

structure Validator where
  addr : Address
  power : Int
deriving DecidableEq

structure EpochValidatorSet where
  epochNumber : Nat
  validators : List Validator
deriving DecidableEq

structure GenesisState where
  params : Params
  epochs : List Epoch
  queues : List EpochQueue
  validatorSets : List EpochValidatorSet
  slashedValidatorSets : List EpochValidatorSet
  validatorsLifecycle : List ValidatorLifecycle
  delegationsLifecycle : List DelegationLifecycle

section

variable {α κ : Type} [DecidableEq κ] (keyFunc : α → κ) (validate : α → Result Unit)

def validateEntriesFrom (seen : List κ) : List α → Result Unit
  | [] => pure ()
  | entry :: entries => do
    ensure (keyFunc entry ∉ seen) (.errorf "duplicate entry for key: %v")
    validate entry
    validateEntriesFrom (keyFunc entry :: seen) entries

def validateEntries (entries : List α) : Result Unit :=
  validateEntriesFrom keyFunc validate [] entries

end

def EpochQueue.validate (eq : EpochQueue) : Result Unit :=
  ensure (eq.msgs ≠ []) (.errorf "empty Msgs in epoch queue. EpochNum: %d")

def Validator.validate (v : Validator) : Result Unit := do
  ensure (0 ≤ v.power) (.errorf "validator power cannot be negative: got %d")
  let _ ← valAddressFromBech32 (valString v.addr)

def EpochValidatorSet.validate (ev : EpochValidatorSet) : Result Unit := do
  ensure (ev.validators ≠ []) (.errorf "empty validators. Epoch %d")
  validateEntries Validator.addr Validator.validate ev.validators

def ValidatorLifecycle.validate (vl : ValidatorLifecycle) : Result Unit := do
  ensure (vl.valLife ≠ []) (.errorf "validator lyfecycle is empty")
  let _ ← valAddressFromBech32 vl.valAddr

def DelegationStateUpdate.validate (d : DelegationStateUpdate) : Result Unit := do
  let _ ← valAddressFromBech32 d.valAddr

/-- The error of the address is returned after the updates were checked. -/
def DelegationLifecycle.validate (dl : DelegationLifecycle) : Result Unit := do
  ensure (dl.delLife ≠ []) (.errorf "delegation lyfecycle is empty")
  dl.delLife.forM DelegationStateUpdate.validate
  let _ ← accAddressFromBech32 dl.delAddr

def consecutive : List Nat → Result Unit
  | a :: b :: l => do
    ensure (b = a+1) (.errorf "epoch numbers are not consecutive: found gap between %d and %d")
    consecutive (b :: l)
  | _ => pure ()

def validateSequentialEpochs (epochNumbers : List Nat) : Result Unit :=
  consecutive (epochNumbers.insertionSort (· ≤ ·))

structure SeenEpochs where
  numbers : List Nat
  heights : List Nat
  hashes : List Bytes

def validateEpoch (seen : SeenEpochs) (e : Epoch) : Result SeenEpochs := do
  ensure (e.epochNumber ∉ seen.numbers) (.errorf "duplicate EpochNumber: %d")
  ensure (e.firstBlockHeight ∉ seen.heights) (.errorf "duplicate FirstBlockHeight: %d")
  ensure (e.sealerBlockHash = [] ∨
    e.sealerBlockHash ∉ seen.hashes) (.errorf "duplicate SealerBlockHash: %x")
  e.validateBasic
  pure ⟨e.epochNumber :: seen.numbers,e.firstBlockHeight :: seen.heights,
    if e.sealerBlockHash = [] then seen.hashes else e.sealerBlockHash :: seen.hashes⟩

def validateEpochs (epochs : List Epoch) : Result Unit := do
  let _ ← epochs.foldlM validateEpoch ⟨[],[],[]⟩
  validateSequentialEpochs (epochs.map Epoch.epochNumber)

def GenesisState.validate (gs : GenesisState) : Result Unit := do
  validateEpochs gs.epochs
  validateEntries EpochQueue.epochNumber EpochQueue.validate gs.queues
  validateEntries EpochValidatorSet.epochNumber EpochValidatorSet.validate gs.validatorSets
  validateEntries EpochValidatorSet.epochNumber EpochValidatorSet.validate gs.slashedValidatorSets
  validateEntries ValidatorLifecycle.valAddr ValidatorLifecycle.validate gs.validatorsLifecycle
  validateEntries DelegationLifecycle.delAddr DelegationLifecycle.validate gs.delegationsLifecycle
  gs.params.validate

namespace Store

def initEpoch (s : Store) (header : Header) (genEpochs : List Epoch) : Result Store :=
  if genEpochs ≠ [] then pure (genEpochs.foldl (fun s e => s.setEpochInfo e.epochNumber e) s)
  else do
    ensure (header.height = 0) (.errorf "InitEpoch can be invoked only at genesis")
    pure (s.setEpochInfo 0 (Epoch.new 0 1 0 (some header.time)))

def setEpochQueue (s : Store) (eq : EpochQueue) : Store :=
  let queue := eq.msgs.foldl (fun (queue : KVStore Nat (KVStore Nat QueuedMessage) × Nat) m =>
    (queue.1.set₂ eq.epochNumber queue.2 m,queue.2+1)) (s.msgQueue,0)
  { s with msgQueue := queue.1, queueLength := s.queueLength.set eq.epochNumber queue.2 }

def initGenMsgQueue (s : Store) (queues : List EpochQueue) : Result Store :=
  if queues ≠ [] then pure (queues.foldl setEpochQueue s) else s.initMsgQueue

def setEpochValSet (s : Store) (ev : EpochValidatorSet) : Store :=
  { s with
    valSet := ev.validators.foldl (fun sets v => sets.set₂ ev.epochNumber v.addr v.power) s.valSet
    votingPower := s.votingPower.set ev.epochNumber
      (ev.validators.foldl (fun total v => total+v.power) 0) }

def initGenValidatorSet (s : Store) (last : ValidatorPowers) (sets : List EpochValidatorSet) :
    Result Store :=
  if sets ≠ [] then pure (sets.foldl setEpochValSet s) else s.initValidatorSet last

def setEpochSlashedValSet (s : Store) (ev : EpochValidatorSet) : Store :=
  { s with
    slashedValSet := ev.validators.foldl (fun sets v => sets.set₂ ev.epochNumber v.addr
      v.power) s.slashedValSet
    slashedVotingPower := s.slashedVotingPower.set ev.epochNumber
      (ev.validators.foldl (fun total v => total+v.power) 0) }

def initGenSlashedVotingPower (s : Store) (sets : List EpochValidatorSet) : Result Store :=
  if sets ≠ [] then pure (sets.foldl setEpochSlashedValSet s) else s.initSlashedVotingPower

def setGenValLifecycle (s : Store) (vl : ValidatorLifecycle) : Result Store := do
  let valAddr ← valAddressFromBech32 vl.valAddr
  pure { s with valLifecycle := s.valLifecycle.set valAddr vl }

def setGenDelegationLifecycle (s : Store) (dl : DelegationLifecycle) : Result Store := do
  let delAddr ← (accAddressFromBech32 dl.delAddr).orPanic
  pure { s with delegationLifecycle := s.delegationLifecycle.set delAddr dl }

/-- A store nothing was written to; parameters that were never set read as zeros. -/
def empty : Store :=
  ⟨⟨0,⟨0,0,0,0,0,0⟩,0⟩,.empty,.empty,.empty,.empty,.empty,.empty,.empty,.empty,.empty⟩

def initGenesis (s : Store) (header : Header) (last : ValidatorPowers) (gs : GenesisState) :
    Result Store := do
  let s ← s.initEpoch header gs.epochs
  let s ← s.initGenMsgQueue gs.queues
  let s ← s.initGenValidatorSet last gs.validatorSets
  let s ← s.initGenSlashedVotingPower gs.slashedValidatorSets
  let s ← gs.validatorsLifecycle.foldlM setGenValLifecycle s
  let s ← gs.delegationsLifecycle.foldlM setGenDelegationLifecycle s
  s.setParams gs.params

def epochs (s : Store) : List Epoch := s.epochInfo.entries.map Prod.snd

def getEpochQueue (s : Store) (e : Epoch) : Option EpochQueue :=
  let msgs := s.getEpochMsgs e.epochNumber
  if 0 < msgs.length then some ⟨e.epochNumber,msgs⟩ else none

def exportSet (sets : KVStore Nat (KVStore Address Int)) (e : Epoch) : Option EpochValidatorSet :=
  let vs := (sets.sub e.epochNumber).entries.map (fun v => (⟨v.1,v.2⟩ : Validator))
  if 0 < vs.length then some ⟨e.epochNumber,vs⟩ else none

def exportGenesis (s : Store) : GenesisState where
  params := s.params
  epochs := s.epochs
  queues := s.epochs.filterMap s.getEpochQueue
  validatorSets := s.epochs.filterMap (exportSet s.valSet)
  slashedValidatorSets := s.epochs.filterMap (exportSet s.slashedValSet)
  validatorsLifecycle := s.valLifecycle.entries.map Prod.snd
  delegationsLifecycle := s.delegationLifecycle.entries.map Prod.snd

end Store

/-- A chain that starts has no queues, sets and lifecycles in its genesis, at most an epoch 0. -/
def GenesisState.Fresh (gs : GenesisState) : Prop :=
  (gs.epochs = [] ∨ ∃ interval lastBlockTime, gs.epochs =
    [Epoch.new 0 interval 0 (some lastBlockTime)]) ∧
    gs.queues = [] ∧ gs.validatorSets = [] ∧ gs.slashedValidatorSets = [] ∧
    gs.validatorsLifecycle = [] ∧ gs.delegationsLifecycle = []

end AnonChain.Epoching
