import AnonChain.Epoching.Regtest

/-! The stored epochs tile the chain's heights; the interval in force numbers a height. -/

namespace AnonChain.Epoching.World

open Lib

variable {R : Type} {k : StakingKeeper R} {w w' : World R} {n : Nat} {e : Epoch} {a : Action R}

/-- All epochs but epoch 0 have a first height and an interval that fit the interval in force. -/
def Intervals (P : Nat → Nat → Nat → Prop) (s : Store) : Prop :=
  ∀ i ep, s.epochInfo.get i = some ep → i ≠ 0 →
    P ep.firstBlockHeight ep.currentEpochInterval s.params.epochInterval

variable {P : Nat → Nat → Nat → Prop}

theorem Intervals.setEpochInfo {s : Store} (h : Intervals P s) {i : Nat} {ep ep' : Epoch}
    (hg : s.epochInfo.get i = some ep) (hf : ep'.firstBlockHeight = ep.firstBlockHeight)
    (hin : ep'.currentEpochInterval = ep.currentEpochInterval) :
    Intervals P (s.setEpochInfo i ep') :=
  KVStore.forall_set (fun hi => by rw [hf,hin]; exact h i ep hg hi) h

theorem Intervals.congr {s t : Store} (h : Intervals P s) (hi : t.epochInfo = s.epochInfo)
    (hp : t.params = s.params) : Intervals P t := by
  unfold Intervals
  rw [hi,hp]
  exact h

theorem Intervals.agree {s t : Store} (h : Intervals P s) (ha : Store.Agree s t) : Intervals P t :=
  h.congr ha.epochInfo ha.params

open Epoching.Regtest

end AnonChain.Epoching.World
