import AnonChain.Types

/-! The votes of a batch are sent again without those rejected, for a limited number of rounds. -/

namespace AnonChain.ConsumerController

open List

/-- What the chain answers to a transaction of `n` messages. A failure may name one of them, and its
error may be an expected one. -/
inductive Answer (n : Nat) where
  | success
  | failure (failedIndex : Option (Fin n)) (expected : Bool)

variable {Msg : Type}

/-- The messages of the transaction that succeeded, if any did, and those that were rejected with an
expected error. -/
structure Outcome (Msg : Type) where
  sent : Result (Option (List Msg))
  rejected : List Msg

def batchRetries (msgs : List Msg) (maxRetriesBatchRemovingMsgs : Nat) : Nat :=
  if maxRetriesBatchRemovingMsgs = 0 then msgs.length
  else if msgs.length < maxRetriesBatchRemovingMsgs then msgs.length
  else maxRetriesBatchRemovingMsgs

def sendRounds (answers : Nat → (msgs : List Msg) → Answer msgs.length) :
    Nat → Nat → List Msg → List Msg → Outcome Msg
  | 0, _, _, rejected =>
    -- every error that was joined is an expected one
    ⟨if rejected.isEmpty then .error (.errorf "failed to send batch of msgs: %w") else .ok none,
      rejected⟩
  | rounds+1, i, msgs, rejected =>
    match answers i msgs with
    | .success => ⟨.ok (some msgs),rejected⟩
    | .failure (some index) true =>
      sendRounds answers rounds (i+1) (msgs.eraseIdx index) (rejected ++ [msgs[index]])
    | .failure _ _ => ⟨.error (.errorf "failed to send batch of msgs: %w"),rejected⟩

def reliablySendMsgsResendingOnMsgErr (maxRetriesBatchRemovingMsgs : Nat)
    (answers : Nat → (msgs : List Msg) → Answer msgs.length) (msgs : List Msg) : Outcome Msg :=
  sendRounds answers (batchRetries msgs maxRetriesBatchRemovingMsgs) 0 msgs []

/-- `msgs` are the messages built from the request. -/
def submitBatchFinalitySigs (maxRetriesBatchRemovingMsgs : Nat)
    (answers : Nat → (msgs : List Msg) → Answer msgs.length) (msgs : Result (List Msg)) :
    Outcome Msg :=
  match msgs with
  | .error e => ⟨.error e,[]⟩
  | .ok msgs => reliablySendMsgsResendingOnMsgErr maxRetriesBatchRemovingMsgs answers msgs

/-- Without an error, every message was sent in the transaction that succeeded or was rejected. -/
def Accounted (msgs : List Msg) (o : Outcome Msg) : Prop :=
  ∀ sent, o.sent = .ok sent → (sent.getD [] ++ o.rejected).Perm msgs

theorem sendRounds_accounted (answers : Nat → (msgs : List Msg) → Answer msgs.length)
    {rounds i : Nat} {msgs rejected : List Msg} (h : msgs.length ≤ rounds) :
    Accounted (msgs ++ rejected) (sendRounds answers rounds i msgs rejected) := by
  induction rounds generalizing i msgs rejected with
  | zero =>
    obtain rfl := length_eq_zero_iff.mp (Nat.le_zero.mp h)
    intro sent hs
    simp only [sendRounds] at hs ⊢
    split at hs <;> cases hs
    simp
  | succ _ ih =>
    simp only [sendRounds]
    split
    case h_1 =>
      intro sent hs
      cases hs
      exact .refl _
    case h_2 index _ =>
      have hl := length_eraseIdx_of_lt index.isLt
      have hm : (msgs.eraseIdx index ++ (rejected ++ [msgs[index]])).Perm (msgs ++ rejected) := by
        rw [← append_assoc]
        refine (perm_append_singleton _ _).trans ?_
        exact (getElem_cons_eraseIdx_perm index.isLt).append_right rejected
      exact fun sent hs => (ih (by omega) sent hs).trans hm
    case h_3 =>
      intro sent hs
      cases hs

/-- A chain that rejects the first message of every transaction. -/
def rejectFirst (_ : Nat) : (msgs : List Msg) → Answer msgs.length
  | [] => .success
  | _ :: _ => .failure (some 0) true

theorem sendRounds_rejectFirst {rounds i : Nat} {msgs rejected : List Msg}
    (h : rounds ≤ msgs.length) : sendRounds rejectFirst rounds i msgs rejected =
      sendRounds rejectFirst 0 i (msgs.drop rounds) (rejected ++ msgs.take rounds) := by
  induction rounds generalizing i msgs rejected with
  | zero => simp [sendRounds]
  | succ _ ih =>
    cases msgs with
    | nil => simp at h
    | cons m msgs =>
      have hr := @ih (i+1) msgs (rejected ++ [m]) (by simpa using h)
      simpa [sendRounds,rejectFirst] using hr

/-- No vote is lost, whatever the chain answers, exactly when the limit leaves a round for every
message. -/
theorem batch_accounted_iff (maxRetriesBatchRemovingMsgs : Nat) (msgs : List Msg) :
    (∀ answers, Accounted msgs (submitBatchFinalitySigs maxRetriesBatchRemovingMsgs
      answers (.ok msgs))) ↔
      maxRetriesBatchRemovingMsgs = 0 ∨ msgs.length ≤ maxRetriesBatchRemovingMsgs := by
  simp only [submitBatchFinalitySigs,reliablySendMsgsResendingOnMsgErr]
  constructor
  · intro h
    by_contra! hl
    have hr : batchRetries msgs maxRetriesBatchRemovingMsgs = maxRetriesBatchRemovingMsgs := by
      simp only [batchRetries,if_neg hl.1]
      split <;> omega
    have ha := h rejectFirst
    rw [hr,sendRounds_rejectFirst hl.2.le] at ha
    have hn : msgs ≠ [] := ne_nil_of_length_pos (by omega)
    have hln := (ha none (by simp [sendRounds,hl.1,hn])).length_eq
    simp [sendRounds] at hln
    omega
  · intro hl answers
    have hr : msgs.length ≤ batchRetries msgs maxRetriesBatchRemovingMsgs := by
      unfold batchRetries
      split
      · exact Nat.le_refl _
      · split <;> omega
    simpa using @sendRounds_accounted _ answers _ 0 _ [] hr

/-- With one round for two votes, the second is neither sent nor rejected, and no error returned. -/
theorem second_vote_lost :
    ∃ answers, ¬ Accounted [1,2] (submitBatchFinalitySigs 1 answers (.ok [1,2])) := by
  refine ⟨rejectFirst,fun h => ?_⟩
  have hl := (h none rfl).length_eq
  exact absurd hl (by decide)

end AnonChain.ConsumerController
