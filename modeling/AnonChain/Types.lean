import AnonChain.Lib.Checked
import AnonChain.Lib.KVStore

/-! Data shared by the modules of the chain. -/

namespace AnonChain

variable {α : Type}

abbrev Byte := Fin 256

abbrev Bytes := List Byte

instance neZeroByte : NeZero 256 := ⟨by decide⟩

instance lawfulBytes : LawfulBEq Bytes := inferInstance

abbrev Hash := Bytes

/-- The bytes of an x-only public key; the length is checked where the source checks it. -/
abbrev BIP340PubKey := Bytes

/-- The account a bech32 text decodes to. -/
abbrev AccAddress := Bytes

def BIP340PubKeyLen : Nat := 32
def SchnorrPubRandLen : Nat := 32
def SchnorrEOTSSigLen : Nat := 32

structure HeaderInfo where
  height : Nat
  time : Nat
  appHash : Bytes

/-- The registered errors of the modelled modules. -/
inductive ErrCode where
  -- x/finality
  | ErrBlockNotFound
  | ErrVoteNotFound
  | ErrHeightTooHigh
  | ErrPubRandNotFound
  | ErrTooFewPubRand
  | ErrInvalidPubRand
  | ErrEvidenceNotFound
  | ErrInvalidFinalitySig
  | ErrDuplicatedFinalitySig
  | ErrPubRandCommitNotBTCTimestamped
  | ErrJailingPeriodNotPassed
  | ErrBTCStakingNotActivated
  | ErrFinalityNotActivated
  | ErrSigHeightOutdated
  | ErrOverflowInBlockHeight
  | ErrFinalityProviderIsDeleted
  | ErrInvalidSats
  -- x/btcstaking
  | ErrFpNotFound
  | ErrFpRegistered
  | ErrFpAlreadySlashed
  | ErrFpAlreadyJailed
  | ErrFpNotJailed
  | ErrBTCDelegationNotFound
  | ErrDuplicatedFp
  | ErrTooManyFpKeys
  | ErrReusedStakingTx
  | ErrInvalidStakingTx
  | ErrInvalidSlashingTx
  | ErrInvalidUnbondingTx
  | ErrInvalidProofOfPossession
  | ErrInvalidCovenantPK
  | ErrInvalidCovenantSig
  | ErrDuplicatedCovenantSig
  | ErrStakingTxIncludedTooEarly
  | ErrInvalidBTCUndelegateReq
  | ErrCommissionLTMinRate
  | ErrCommissionGTMaxRate
  -- x/btclightclient
  | ErrEmptyMessage
  | ErrHeaderDoesNotExist
  | ErrHeaderParentDoesNotExist
  | ErrForkStartWithKnownHeader
  | ErrInvalidHeader
  | ErrChainWithNotEnoughWork
  -- x/btccheckpoint
  | ErrInvalidCheckpointProof
  | ErrDuplicatedSubmission
  | ErrNoCheckpointsForPreviousEpoch
  /-- The `ErrInvalidHeader` of this module. -/
  | ErrInvalidProofHeader
  | ErrProvidedHeaderDoesNotHaveAncestor
  | ErrEpochAlreadyFinalized
  -- x/checkpointing
  | ErrCkptDoesNotExist
  | ErrCkptAlreadyExist
  | ErrInvalidRawCheckpoint
  | ErrInvalidCkptStatus
  | ErrConflictingCheckpoint
  -- x/epoching
  | ErrUnknownEpochNumber
  | ErrUnknownValidator
  | ErrZeroEpochMsg
  | ErrInvalidEpoch
  | ErrInvalidHeight
  | ErrInsufficientBalance
  -- x/incentive
  | ErrRewardGaugeNotFound
  | ErrNoWithdrawableCoins
  | ErrFPCurrentRewardsNotFound
  | ErrFPHistoricalRewardsNotFound
  | ErrFPCurrentRewardsTrackerNegativeAmount
  | ErrBTCDelegationRewardsTrackerNotFound
  | ErrBTCDelegationRewardsTrackerNegativeAmount
  | ErrInvalidAmount
  -- x/costaking
  | ErrInvalidPercentage
  | ErrPercentageTooHigh
  | ErrScoreRatioTooLow
  | ErrInvalidPeriod
  | ErrNegativeRewards
  | ErrInvalidCostakerRwdTracker
  -- cosmos-sdk
  | ErrNotFound
  | ErrInvalidCoins
  | ErrInsufficientFunds
  | ErrUnauthorized
  | ErrInvalidAddress
  | ErrUnknownAddress
  | ErrInvalidRequest
  | ErrNoValidatorFound
  | ErrMaxUnbondingDelegationEntries
  | ErrTransitiveRedelegation
  | ErrMaxRedelegationEntries
  | ErrInvalidSigner
  | ErrInvalidProposalMsg

/-- A registered error and the text it is wrapped in, a plain formatted error, or a panic. The
formatted arguments of a text are left out. -/
inductive Failure where
  | err (code : ErrCode) (wrap : String)
  | errorf (text : String)
  | panic (text : String)

abbrev Failure.nilPointer : Failure := .panic "invalid memory address or nil pointer dereference"

abbrev Failure.outOfRange : Failure := .panic "index out of range"

abbrev Failure.notAuthority : Failure :=
  .err .ErrInvalidSigner "invalid authority; expected %s, got %s"

def Failure.isPanic : Failure → Bool
  | .panic _ => true
  | _ => false

abbrev Result := Except Failure

/-- Replaces a returned error; a panic passes through. -/
def Result.wrap {α : Type} (x : Result α) (e : Failure) : Result α :=
  match x with
  | .ok a => .ok a
  | .error (.panic t) => .error (.panic t)
  | .error _ => .error e

theorem Result.wrap_eq_ok {x : Result α} {e : Failure} {a : α} :
    x.wrap e = .ok a ↔ x = .ok a := by rcases x with (_ | _ | _) | _ <;> simp [Result.wrap]

/-- The caller goes on after a returned error; a panic passes through. -/
def Result.attempt {α : Type} (x : Result α) : Result (Option α) :=
  match x with
  | .ok a => .ok (some a)
  | .error (.panic t) => .error (.panic t)
  | .error _ => .ok none

theorem Result.attempt_eq_some {x : Result α} {a : α} :
    x.attempt = .ok (some a) ↔ x = .ok a := by
  rcases x with (_ | _ | _) | _ <;> simp [Result.attempt]

theorem Result.attempt_eq_none {x : Result α} (h : x.attempt = .ok none) (a : α) :
    x ≠ .ok a := by rcases x with (_ | _ | _) | _ <;> simp [Result.attempt] at h ⊢

/-- A returned error is raised as a panic by the caller. -/
def Result.orPanic {α : Type} (x : Result α) : Result α :=
  match x with
  | .ok a => .ok a
  | .error (.panic t) => .error (.panic t)
  | .error (.err _ t) => .error (.panic t)
  | .error (.errorf t) => .error (.panic t)

theorem Result.orPanic_eq_ok {x : Result α} {a : α} :
    x.orPanic = .ok a ↔ x = .ok a := by rcases x with (_ | _ | _) | _ <;> simp [Result.orPanic]

open Lib in
/-- The rules that read the steps of a computation off its success, as one rule for `simp`. -/
theorem ok_iff :
    (∀ {ε α β : Type} {x : Except ε α} {k : α → Except ε β} {r : β},
      (x >>= k) = .ok r ↔ ∃ a, x = .ok a ∧ k a = .ok r) ∧
    (∀ {ε : Type} {c : Prop} [Decidable c] {e : ε} {r : Unit}, ensure c e = .ok r ↔ c) ∧
    (∀ {ε α : Type} {o : Option α} {e : ε} {r : α}, orFail o e = .ok r ↔ o = some r) ∧
    (∀ {ε α : Type} {a r : α}, (pure a : Except ε α) = .ok r ↔ a = r) ∧
    (∀ {α : Type} {x : Result α} {e : Failure} {a : α}, x.wrap e = .ok a ↔ x = .ok a) ∧
    (∀ {α : Type} {x : Result α} {a : α}, x.orPanic = .ok a ↔ x = .ok a) ∧
    ∀ {p : Prop}, (∃ _ : Unit, p) ↔ p :=
  ⟨bind_eq_ok,ensure_eq_ok,orFail_eq_ok,pure_eq_ok,Result.wrap_eq_ok,
    Result.orPanic_eq_ok,exists_const _⟩

/-- The computation returns, with a value or with an error, and does not panic. -/
def Result.NoPanic {α : Type} (x : Result α) : Prop := ∀ t, x ≠ .error (.panic t)

theorem Result.noPanic_pure (a : α) : Result.NoPanic (pure a) := by
  simp [Result.NoPanic,pure,Except.pure]

theorem Result.NoPanic.bind {α β : Type} {x : Result α} {k : α → Result β} (hx : x.NoPanic)
    (hk : ∀ a, x = .ok a → (k a).NoPanic) : (x >>= k).NoPanic := by
  cases x with
  | error e =>
    intro t h
    exact hx t (by simpa [Bind.bind,Except.bind] using h)
  | ok a => exact hk a rfl

theorem Result.noPanic_ensure {c : Prop} [Decidable c] {e : Failure} (h : c ∨ ∀ t, e ≠ .panic t) :
    Result.NoPanic (Lib.ensure c e) := by
  intro t
  by_cases hc : c
  · simp [Lib.ensure,hc]
  · simpa [Lib.ensure,hc] using h.resolve_left hc t

theorem Result.noPanic_orFail {o : Option α} {e : Failure}
    (h : (∃ a, o = some a) ∨ ∀ t, e ≠ .panic t) : Result.NoPanic (Lib.orFail o e) := by
  intro t
  cases o with
  | none => simpa [Lib.orFail] using h.resolve_left (by simp) t
  | some a => simp [Lib.orFail]

theorem Result.NoPanic.wrap {x : Result α} {e : Failure} (hx : x.NoPanic) (he : ∀ t, e ≠ .panic t) :
    (x.wrap e).NoPanic := by
  intro t
  rcases x with (_ | _ | t') | _
  · simpa [Result.wrap] using he t
  · simpa [Result.wrap] using he t
  · exact absurd rfl (hx t')
  · simp [Result.wrap]

end AnonChain
