import Mathlib

/-! Bounded first-in first-out channels. -/

namespace AnonChain.Lib

structure Channel (α : Type) where
  capacity : Nat
  queue : List α
  bounded : queue.length ≤ capacity

namespace Channel

variable {α : Type} {c c' : Channel α} {a : α}

def make (α : Type) (capacity : Nat) : Channel α := ⟨capacity,[],Nat.zero_le capacity⟩

def send (c : Channel α) (a : α) : Option (Channel α) :=
  if h : c.queue.length < c.capacity then
    some ⟨c.capacity,c.queue ++ [a],by rw [List.length_append]; exact h⟩
  else none

def receive (c : Channel α) : Option (α × Channel α) :=
  match h : c.queue with
  | [] => none
  | a :: queue =>
    some (a,⟨c.capacity,queue,by
      have hle := c.bounded
      rw [h] at hle
      exact Nat.le_of_succ_le hle⟩)

theorem send_eq_some (h : c.send a = some c') :
    c'.queue = c.queue ++ [a] ∧ c'.capacity = c.capacity := by
  unfold send at h
  split at h
  · cases h
    exact ⟨rfl,rfl⟩
  · cases h

theorem receive_eq_some (h : c.receive = some (a,c')) :
    c.queue = a :: c'.queue ∧ c'.capacity = c.capacity := by
  unfold receive at h
  split at h
  · cases h
  · rename_i queue hq
    cases h
    exact ⟨hq,rfl⟩

end Channel

end AnonChain.Lib
