import AnonChain.Epoching.Types

/-! The keeper of the epoching module. -/

namespace AnonChain.Epoching

open Lib

namespace Store

def getEpoch (s : Store) : Result Epoch := do
  let entry ← orFail s.epochInfo.last (.panic "iterator is invalid")
  pure entry.2

def setEpochInfo (s : Store) (epochNumber : Nat) (epoch : Epoch) : Store :=
  { s with epochInfo := s.epochInfo.set epochNumber epoch }

def getHistoricalEpoch (s : Store) (epochNumber : Nat) : Result Epoch :=
  orFail (s.epochInfo.get epochNumber) (.err .ErrUnknownEpochNumber "")

def setParams (s : Store) (p : Params) : Result Store := do
  p.validate
  pure { s with params := p }

def incEpoch (s : Store) (header : Header) : Result Store := do
  let epoch ← s.getEpoch
  let epochNumber := epoch.epochNumber+1
  pure (s.setEpochInfo epochNumber (Epoch.new epochNumber s.params.epochInterval
    header.height none))

def recordLastHeaderTime (s : Store) (header : Header) : Result Store := do
  let epoch ← s.getEpoch
  ensure (epoch.isLastBlock header.height = true)
    (.err .ErrInvalidHeight
      "RecordLastBlockHeader can only be invoked at the last block of an epoch")
  pure (s.setEpochInfo epoch.epochNumber { epoch with lastBlockTime := some header.time })

def recordSealerAppHashForPrevEpoch (s : Store) (header : Header) : Result Store := do
  let epoch ← s.getEpoch
  ensure (epoch.isFirstBlock header.height = true)
    (.panic
      "RecordSealerAppHashForPrevEpoch can only be invoked at the first header of a non-zero epoch. ")
  let sealedEpoch ← (s.getHistoricalEpoch (epoch.epochNumber-1)).orPanic
  pure (s.setEpochInfo sealedEpoch.epochNumber { sealedEpoch with sealerAppHash := header.appHash })

def recordSealerBlockHashForEpoch (s : Store) (header : Header) : Result Store := do
  let epoch ← s.getEpoch
  ensure (epoch.isLastBlock header.height = true)
    (.panic
      "RecordSealerBlockHashForEpoch can only be invoked at the last header of a non-zero epoch. ")
  pure (s.setEpochInfo epoch.epochNumber { epoch with sealerBlockHash := header.hash })

def initMsgQueue (s : Store) : Result Store := do
  let epoch ← s.getEpoch
  pure { s with queueLength := s.queueLength.set epoch.epochNumber 0 }

def getQueueLength (s : Store) (epochNumber : Nat) : Nat := s.queueLength.getD epochNumber 0

def enqueueMsg (s : Store) (msg : QueuedMessage) : Result Store := do
  let epoch ← s.getEpoch
  let queueLen := s.getQueueLength epoch.epochNumber
  pure { s with
    msgQueue := s.msgQueue.set₂ epoch.epochNumber queueLen msg
    queueLength := s.queueLength.set epoch.epochNumber (queueLen+1) }

def getEpochMsgs (s : Store) (epochNumber : Nat) : List QueuedMessage :=
  (s.msgQueue.sub epochNumber).entries.map Prod.snd

def getCurrentEpochMsgs (s : Store) : Result (List QueuedMessage) := do
  let epoch ← s.getEpoch
  pure (s.getEpochMsgs epoch.epochNumber)

def initValidatorSet (s : Store) (last : ValidatorPowers) : Result Store := do
  let epoch ← s.getEpoch
  pure { s with
    valSet := last.powers.entries.foldl (fun sets v => sets.set₂ epoch.epochNumber v.1 v.2) s.valSet
    votingPower := s.votingPower.set epoch.epochNumber (last.powers.entries.foldl
      (fun total v => total+v.2) 0) }

def getValidatorVotingPower (s : Store) (epochNumber : Nat) (valAddr : Address) : Result Int :=
  orFail (s.valSet.get₂ epochNumber valAddr) (.err .ErrUnknownValidator "")

def getTotalVotingPower (s : Store) (epochNumber : Nat) : Result Int :=
  orFail (s.votingPower.get epochNumber) (.panic "the total voting power is not known in DB.")

def initSlashedVotingPower (s : Store) : Result Store := do
  let epoch ← s.getEpoch
  pure { s with slashedVotingPower := s.slashedVotingPower.set epoch.epochNumber 0 }

def getSlashedVotingPower (s : Store) (epochNumber : Nat) : Result Int :=
  orFail (s.slashedVotingPower.get epochNumber)
    (.panic "the slashed voting power is not known in DB. Maybe the epoch has been checkpointed?")

def addSlashedValidator (s : Store) (valAddr : Address) : Result Store := do
  let epoch ← s.getEpoch
  let thisVotingPower ← (s.getValidatorVotingPower epoch.epochNumber valAddr).orPanic
  let slashedValSet := s.slashedValSet.set₂ epoch.epochNumber valAddr thisVotingPower
  let slashedVotingPower ← s.getSlashedVotingPower epoch.epochNumber
  pure { s with
    slashedValSet := slashedValSet
    slashedVotingPower := s.slashedVotingPower.set epoch.epochNumber
      (slashedVotingPower+thisVotingPower) }

/-- The events of the slashed thresholds are not part of the store. -/
def beforeValidatorSlashed (s : Store) (valAddr : Address) : Result Store := do
  let epoch ← s.getEpoch
  let _ ← s.getTotalVotingPower epoch.epochNumber
  let _ ← s.getSlashedVotingPower epoch.epochNumber
  let _ ← s.getValidatorVotingPower epoch.epochNumber valAddr
  s.addSlashedValidator valAddr

def recordNewValState (s : Store) (header : Header) (valAddr : Address)
    (state : BondState) : Store :=
  let lc := (s.valLifecycle.get valAddr).getD ⟨valString valAddr,[]⟩
  let update : ValStateUpdate := ⟨state,header.height,header.time⟩
  { s with
    valLifecycle := s.valLifecycle.set valAddr { lc with valLife := lc.valLife ++ [update] } }

def recordNewDelegationState (s : Store) (header : Header) (delAddr valAddr : Address)
    (amount : Option Coin) (state : BondState) : Store :=
  let lc := (s.delegationLifecycle.get delAddr).getD ⟨accString delAddr,[]⟩
  let update : DelegationStateUpdate := ⟨state,valString valAddr,amount,header.height,header.time⟩
  { s with
    delegationLifecycle :=
      s.delegationLifecycle.set delAddr { lc with delLife := lc.delLife ++ [update] } }

def beginBlocker (s : Store) (header : Header) (last : ValidatorPowers) : Result Store := do
  -- The epoch of the block before, also for the second test.
  let epoch ← s.getEpoch
  let s ← if epoch.isFirstBlockOfNextEpoch header.height then do
      let s ← s.incEpoch header
      let s ← s.recordSealerAppHashForPrevEpoch header
      let s ← s.initMsgQueue
      let s ← s.initSlashedVotingPower
      s.initValidatorSet last
    else pure s
  if epoch.isLastBlock header.height then s.recordSealerBlockHashForEpoch header else pure s

end Store

end AnonChain.Epoching
