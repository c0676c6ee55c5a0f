import AnonChain.Lib.Run

/-! Infinite executions of a transition system. -/

namespace AnonChain.Lib

structure System.Execution {σ α : Type} (S : System σ α) where
  state : Nat → σ
  starts : S.init (state 0)
  moves : ∀ i, (∃ a, S.step (state i) a (state (i+1))) ∨ state (i+1) = state i

namespace System.Execution

variable {σ α : Type} {S : System σ α}

theorem reachable (e : S.Execution) (i : Nat) : S.Reachable (e.state i) := by
  induction i with
  | zero => exact .init e.starts
  | succ i ih =>
    rcases e.moves i with ⟨a,hst⟩ | hs
    · exact ih.step hst
    · rw [hs]
      exact ih

/-- What every step from a reachable state keeps holds forever once it holds. -/
theorem stays {P : σ → Prop} (hP : ∀ s a s', S.Reachable s → P s → S.step s a s' → P s')
    (e : S.Execution) {i j : Nat} (hi : i ≤ j) (h : P (e.state i)) : P (e.state j) := by
  induction hi with
  | refl => exact h
  | @step j hi ih =>
    rcases e.moves j with ⟨a,hst⟩ | hs
    · exact hP _ a _ (e.reachable j) ih hst
    · rw [hs]
      exact ih

variable {next : σ → α → Option σ} {moves : List α} {s : σ}

/-- The states along a list of moves; a move that cannot be made is left out. -/
def follow (next : σ → α → Option σ) (moves : List α) (s : σ) : Nat → σ
  | 0 => s
  | i+1 => (moves[i]?.bind (next (follow next moves s i))).getD (follow next moves s i)

theorem follow_past_end {i : Nat} (hi : moves.length ≤ i) :
    follow next moves s i = follow next moves s moves.length := by
  induction hi with
  | refl => rfl
  | @step i hi ih =>
    rw [follow,List.getElem?_eq_none hi]
    exact ih

def ofMoves (hnext : ∀ s a s', next s a = some s' → S.step s a s') (moves : List α)
    (hs : S.init s) : S.Execution where
  state := follow next moves s
  starts := hs
  moves i := by
    cases hmove : moves[i]?.bind (next (follow next moves s i)) with
    | none =>
      refine .inr ?_
      rw [follow,hmove]
      rfl
    | some t =>
      obtain ⟨a, -,ha⟩ := Option.bind_eq_some_iff.mp hmove
      refine .inl ⟨a,?_⟩
      rw [follow,hmove]
      exact hnext _ a t ha

end System.Execution

end AnonChain.Lib
