import AnonChain.Epoching.Queue
import AnonChain.Epoching.Regtest

/-! The delegate pool holds the coins of the messages that wait for the end of the epoch. A
create-validator message is reported as failed after its coins were taken. -/

namespace AnonChain.Epoching.World

open Lib List Store

variable {R : Type} {k : StakingKeeper R} {w w' : World R} {n n' : Nat}
  {e e' : Epoch} {a : Action R}

/-- What a record says about the funds and about the block it was made in. -/
def Accounted (s : Store) : Event → Prop
  | .enqueued _ msg before after => ∀ addr d, before addr d = after addr d+lockedOf msg.msg addr d
  | .unlockFundsFailed _ _ => False
  | .handled m height msg error before after =>
    (∃ ep, s.epochInfo.get m = some ep ∧ ep.getLastBlockHeight = height) ∧
      (error ≠ none → (∀ c, msg.msg ≠ .createValidator c) →
        ∀ addr d, after addr d = before addr d+lockedOf msg.msg addr d)
  | .completedUnbonding _ _ => True
  | .completedRedelegation _ _ => True

def KeepsLastBlocks (s t : Store) : Prop :=
  ∀ m ep, s.epochInfo.get m = some ep → ∃ ep', t.epochInfo.get m = some ep' ∧
    ep'.getLastBlockHeight = ep.getLastBlockHeight

theorem KeepsLastBlocks.of_eq {s t : Store} (h : t.epochInfo = s.epochInfo) :
    KeepsLastBlocks s t := by
  intro m ep he
  exact ⟨ep,by rw [h,he],rfl⟩

theorem KeepsLastBlocks.trans {s t u : Store} (h : KeepsLastBlocks s t) (h' : KeepsLastBlocks t u) :
    KeepsLastBlocks s u := by
  intro m ep he
  obtain ⟨ep',he',hl'⟩ := h m ep he
  obtain ⟨ep'',he'',hl''⟩ := h' m ep' he'
  exact ⟨ep'',he'',hl''.trans hl'⟩

theorem Accounted.mono {s t : Store} (h : KeepsLastBlocks s t) {ev : Event} (hev : Accounted s ev) :
    Accounted t ev := by
  cases ev with
  | enqueued => exact hev
  | unlockFundsFailed => exact hev
  | handled m _ _ _ _ _ =>
    obtain ⟨⟨ep,he,hl⟩,hr⟩ := hev
    obtain ⟨ep',he',hl'⟩ := h m ep he
    exact ⟨⟨ep',he',hl'.trans hl⟩,hr⟩
  | completedUnbonding => trivial
  | completedRedelegation => trivial

open Epoching.Regtest

def delegation : StakingMsg := .delegate ⟨accString staker,valString operator,⟨denom,5⟩⟩

end AnonChain.Epoching.World
