import AnonChain.Epoching.Export
import AnonChain.Epoching.Regtest

/-! A chain that is exported and imported again goes on as it would have without the export. -/

namespace AnonChain.Epoching.World

open Lib Bool

variable {R : Type} {k : StakingKeeper R} {w : World R} {n : Nat} {e : Epoch}

/-- The exported genesis is valid; its import restores the store, and the chain on the restored
store takes every sequence of actions to the same results. -/
structure RoundTrips (k : StakingKeeper R) (w : World R) : Prop where
  valid : w.store.exportGenesis.validate = .ok ()
  restored : ∀ header last, ∃ epoch t, w.store.getEpoch = .ok epoch ∧
    Store.empty.initGenesis header last w.store.exportGenesis = .ok t ∧
    w.store.Restored epoch.epochNumber t ∧
    ∀ actions : List (Action R), Matches Resumed (actions.foldlM (act k) w) (actions.foldlM (act k)
      { w with store := t })

/-- The epoch 0 of the genesis has an interval of at least two blocks. -/
def ZeroInterval (s : Store) : Prop := ∀ ep, s.epochInfo.get 0 = some ep →
    2 ≤ ep.currentEpochInterval

/-- A validator was slashed in the current epoch, or none in any epoch. -/
def SlashedNowOrNever (s : Store) : Prop :=
  ∀ epoch, s.getEpoch = .ok epoch →
    (s.slashedValSet.sub epoch.epochNumber).entries ≠ [] ∨ ∀ m, (s.slashedValSet.sub m).entries = []

theorem queued_of_queues (h : Queues w n e) : w.store.Queued n := by
  refine ⟨?_,?_,?_⟩
  · intro m
    rw [h.epochMsgs]
    exact h.indexed m
  · intro m
    rw [h.epochMsgs]
    exact h.length m
  · intro m hm
    rw [h.epochMsgs]
    exact h.future m hm

theorem reachable_exportable (h : ((system k).restrict SlashedOnce).Reachable w) :
    ∃ n e, OnCalendar w n e ∧ Queues w n e ∧ Recorded w n := by
  refine reachable_invariant (P := fun w n e => Queues w n e ∧ Recorded w n) ?_ ?_ h
  · intro gs w e hs _
    exact ⟨starts_queues hs e,starts_recorded hs⟩
  · intro w n e a n' e' w' hc hp hm hg
    exact ⟨moves_queues hc hp.1 hm,moves_recorded hc hp.2 hm hg⟩

/-- In every run in which no validator is slashed twice in an epoch. -/
theorem genesis_round_trip (h : ((system k).restrict SlashedOnce).Reachable w)
    (hheight : 1 ≤ w.header.height)
    (hzero : ZeroInterval w.store) (hnow : SlashedNowOrNever w.store) : RoundTrips k w := by
  obtain ⟨n,e,hc,hq,hr⟩ := reachable_exportable h
  have he := hc.calendar.getEpoch
  have hm := hr.members (.inl (by omega))
  have hs := hnow e he
  rw [hc.calendar.number] at hs
  refine ⟨Store.exportGenesis_valid hc.calendar hr.records hr.hashes hzero,?_⟩
  intro header last
  obtain ⟨t,ht,hrs⟩ :=
    Store.initGenesis_export hc.calendar hr.records (queued_of_queues hq) hm hs header last
  refine ⟨e,t,he,ht,?_,?_⟩
  · rw [hc.calendar.number]
    exact hrs
  · exact fun actions => Matches.foldlM (fun a _ _ hw => resumed_act hw a) actions ⟨n,e,hc,rfl,hrs⟩

open Epoching.Regtest

variable {w : World Unit}

def slashedOnce (w : World Unit) : Action Unit → Bool
  | .slash v =>
    match w.store.getEpoch with
    | .ok epoch => w.store.slashedValSet.get₂ epoch.epochNumber v = none
    | .error _ => true
  | _ => true

theorem slashedOnce_spec (w : World Unit) (a : Action Unit) (w' : World Unit)
    (h : slashedOnce w a = true) : SlashedOnce w a w' := by
  rintro v epoch rfl he
  simp only [slashedOnce,he] at h
  exact of_decide_eq_true h

def exportable (w : World Unit) : Bool :=
  decide (1 ≤ w.header.height) &&
    (match w.store.epochInfo.get 0 with
      | some ep => decide (2 ≤ ep.currentEpochInterval)
      | none => true) &&
    match w.store.getEpoch with
      | .ok epoch => decide ((w.store.slashedValSet.sub epoch.epochNumber).entries ≠ [])
      | .error _ => true

theorem exportable_spec (h : exportable w = true) :
    1 ≤ w.header.height ∧ ZeroInterval w.store ∧ SlashedNowOrNever w.store := by
  simp only [exportable,and_eq_true,decide_eq_true_eq] at h
  obtain ⟨⟨hh,hz⟩,hn⟩ := h
  refine ⟨hh,?_,?_⟩
  · intro ep hep
    rw [hep] at hz
    exact of_decide_eq_true hz
  · intro epoch he
    rw [he] at hn
    exact .inl (of_decide_eq_true hn)

def bond : StakingMsg := .delegate ⟨accString staker,valString operator,⟨denom,5⟩⟩

/-- A delegation is queued and the validator is slashed in block 1. -/
theorem round_trip_after_slash :
    ∃ w, ((system keeper).restrict SlashedOnce).Reachable w ∧
      w.store.slashedVotingPower.get 1 = some 10 ∧
      (w.store.getEpochMsgs 1).length = 1 ∧ RoundTrips keeper w := by
  have hrn : holds ((block 1 [.deliver [1] bond,.slash operator]).foldlM (next slashedOnce)
      (genesis 2 (Epoch.new 0 2 0 (some 0)))) (fun w => exportable w &&
        decide (w.store.slashedVotingPower.get 1 = some 10 ∧
          (w.store.getEpochMsgs 1).length = 1)) = true := by
    decide +kernel
  obtain ⟨w,hr,ht⟩ := reachable_run slashedOnce_spec (by decide) hrn
  rw [and_eq_true] at ht
  obtain ⟨hh,hz,hn⟩ := exportable_spec ht.1
  obtain ⟨hs,hq⟩ := of_decide_eq_true ht.2
  exact ⟨w,hr,hs,hq,genesis_round_trip hr hh hz hn⟩

def BetweenBlocks (w : World R) : Prop := w.phase = .idle ∧ 1 ≤ w.header.height

instance (w : World R) : Decidable (BetweenBlocks w) := inferInstanceAs (Decidable (_ ∧ _))

/-- The import of the export reads another slashed power. -/
def losesPower (m : Nat) (w : World Unit) : Bool :=
  decide (BetweenBlocks w) &&
    holds (Store.empty.initGenesis (Regtest.header 0) powers w.store.exportGenesis)
      (fun t => decide (t.slashedVotingPower.get m ≠ w.store.slashedVotingPower.get m))

theorem not_roundTrips_of_losesPower {m : Nat} (h : losesPower m w = true)
    (hm : ∀ epoch, w.store.getEpoch = .ok epoch → epoch.epochNumber = m) :
    BetweenBlocks w ∧ ¬ RoundTrips keeper w := by
  rw [losesPower,and_eq_true] at h
  refine ⟨of_decide_eq_true h.1,?_⟩
  intro htr
  obtain ⟨t,ht,hl⟩ := holds_iff.mp h.2
  obtain ⟨epoch,t',he,ht',hr, -⟩ := htr.restored (Regtest.header 0) powers
  rw [ht] at ht'
  cases ht'
  have hn := hr.slashedNow
  rw [hm epoch he] at hn
  exact of_decide_eq_true hl hn

def inEpoch (m : Nat) (w : World Unit) : Bool :=
  match w.store.getEpoch with
  | .ok epoch => epoch.epochNumber = m
  | .error _ => false

theorem inEpoch_spec {m : Nat} (h : inEpoch m w = true) (epoch : Epoch)
    (he : w.store.getEpoch = .ok epoch) : epoch.epochNumber = m := by
  rw [inEpoch,he] at h
  exact of_decide_eq_true h

/-- The round trip fails after the first block with the default epoch 0, after a validator was
slashed twice, and in an epoch without a slash after one with a slash. -/
theorem genesis_round_trip_fails :
    (∃ w, (system keeper).Reachable w ∧ BetweenBlocks w ∧ ¬ RoundTrips keeper w) ∧
    (∃ w, (system keeper).Reachable w ∧ ZeroInterval w.store ∧ SlashedNowOrNever w.store ∧
      BetweenBlocks w ∧ ¬ RoundTrips keeper w) ∧
    (∃ w, ((system keeper).restrict SlashedOnce).Reachable w ∧ ZeroInterval w.store ∧
      BetweenBlocks w ∧ ¬ RoundTrips keeper w) := by
  refine ⟨?_,?_,?_⟩
  · have hrn : holds ((block 1 []).foldlM (next fun _ _ => true)
        (genesis 2 (Epoch.new 0 1 0 (some 0))))
        (fun w => decide (BetweenBlocks w) &&
          !holds (w.store.exportGenesis.validate) (fun _ => true)) = true := by decide +kernel
    obtain ⟨w,hr,ht⟩ := reachable_run (G := fun _ _ _ => True)
      (fun _ _ _ _ => trivial) (by decide) hrn
    rw [and_eq_true] at ht
    refine ⟨w,hr.of_restrict,of_decide_eq_true ht.1,?_⟩
    intro htr
    rw [htr.valid] at ht
    exact absurd ht.2 (by decide)
  · have hrn : holds ((block 1 [.slash operator,.slash operator]).foldlM (next fun _ _ => true)
        (genesis 2 (Epoch.new 0 2 0 (some 0)))) (fun w => exportable w &&
          (inEpoch 1 w && losesPower 1 w)) = true := by
      decide +kernel
    obtain ⟨w,hr,ht⟩ := reachable_run (G := fun _ _ _ => True)
      (fun _ _ _ _ => trivial) (by decide) hrn
    rw [and_eq_true,and_eq_true] at ht
    obtain ⟨-,hz,hn⟩ := exportable_spec ht.1
    exact ⟨w,hr.of_restrict,hz,hn,not_roundTrips_of_losesPower ht.2.2 (inEpoch_spec ht.2.1)⟩
  · have hrn : holds ((block 1 [.slash operator] ++ block 2 [] ++ block 3 []).foldlM
        (next slashedOnce)
        (genesis 2 (Epoch.new 0 2 0 (some 0)))) (fun w =>
          decide ((w.store.epochInfo.get 0).map Epoch.currentEpochInterval = some 2) &&
            (inEpoch 2 w && losesPower 2 w)) = true := by decide +kernel
    obtain ⟨w,hr,ht⟩ := reachable_run slashedOnce_spec (by decide) hrn
    rw [and_eq_true,and_eq_true] at ht
    refine ⟨w,hr,?_,not_roundTrips_of_losesPower ht.2.2 (inEpoch_spec ht.2.1)⟩
    intro ep he
    have hi := of_decide_eq_true ht.1
    rw [he,Option.map_some,Option.some.injEq] at hi
    omega

end AnonChain.Epoching.World
