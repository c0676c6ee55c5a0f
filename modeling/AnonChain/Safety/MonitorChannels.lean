import AnonChain.Monitor.Loops

/-! The loops of the monitor share a channel, and nothing receives the headers the scanner sends. -/

namespace AnonChain.Monitor.Loops

open Lib List Option

variable {N : Network} {X : Extractor N} {cfg : BufferSizes}

/-- The scanner waits for room in the channel of the headers. -/
def Blocked (s : State X) : Prop :=
  ∃ b, s.scanner = .sendHeader b ∧ s.blockHeaderChan.send b.header = none

def ScannerPhase.held : ScannerPhase X → List (IndexedBlock N)
  | .sendHeader b => [b]
  | .extract b => [b]
  | _ => []

theorem held_found (found : Option X.CheckpointRecord) : (ScannerPhase.found found).held = [] := by
  cases found <;> rfl

theorem confirmed_step {s s' : State X} {a : Action N} {b : IndexedBlock N} (h : b ∈ s.confirmed)
    (hs : s.next a = some s') : b ∈ s'.confirmed := by
  cases a <;> simp only [State.next] at hs <;> grind [map_eq_some_iff]

variable [DecidableEq N.Header]

/-- How often a block is in one of the places a confirmed block can be in. -/
def places (s : State X) (b : IndexedBlock N) : Nat :=
  s.checked.count b+s.scanned.count b+s.scanner.held.count b+s.confirmedBlocksChan.queue.count b +
    s.sending.count b

def Placed (s : State X) : Prop := ∀ b, s.confirmed.count b = places s b

theorem placed_step {s s' : State X} {a : Action N} (h : Placed s) (hs : s.next a = some s') :
    Placed s' := by
  intro x
  have hx := h x
  unfold places at hx ⊢
  cases a with
  | confirm _ =>
    rw [State.next] at hs
    split at hs
    case h_1 hsn =>
      cases hs
      simp only [hsn,count_append,count_nil] at hx ⊢
      omega
    case h_2 => cases hs
  | sendBlock =>
    rw [State.next] at hs
    split at hs
    case h_1 => cases hs
    case h_2 b rest hsn =>
      obtain ⟨c,hc,rfl⟩ := map_eq_some_iff.mp hs
      obtain ⟨hq, -⟩ := Channel.send_eq_some hc
      simp only [hsn,hq,count_append,count_cons,count_nil] at hx ⊢
      omega
  | passToScanner =>
    rw [State.next] at hs
    split at hs
    case h_1 b rest hsn hsl hq =>
      cases hs
      simp only [hsn,hq,hsl,ScannerPhase.held,count_cons,count_nil] at hx ⊢
      omega
    case h_2 => cases hs
  | passToMonitor =>
    rw [State.next] at hs
    split at hs
    case h_1 b rest hsn hq =>
      cases hs
      simp only [hsn,hq,count_append,count_cons,count_nil] at hx ⊢
      omega
    case h_2 => cases hs
  | receiveBlock =>
    rw [State.next] at hs
    split at hs
    case h_1 hsl =>
      obtain ⟨⟨b,c⟩,hc,rfl⟩ := map_eq_some_iff.mp hs
      obtain ⟨hq, -⟩ := Channel.receive_eq_some hc
      simp only [hsl,hq,ScannerPhase.held,count_cons,count_nil] at hx ⊢
      omega
    case h_2 => cases hs
  | sendHeader =>
    rw [State.next] at hs
    split at hs
    case h_1 b hh =>
      obtain ⟨c, -,rfl⟩ := map_eq_some_iff.mp hs
      simp only [hh,ScannerPhase.held] at hx ⊢
      exact hx
    case h_2 => cases hs
  | extract =>
    rw [State.next] at hs
    split at hs
    case h_1 b hh =>
      cases hs
      rw [hh,ScannerPhase.held] at hx
      simp only [held_found,count_append,count_cons,count_nil] at hx ⊢
      omega
    case h_2 => cases hs
  | sendCheckpoint =>
    rw [State.next] at hs
    split at hs
    case h_1 ckpt hh =>
      obtain ⟨c, -,rfl⟩ := map_eq_some_iff.mp hs
      simp only [hh,ScannerPhase.held] at hx ⊢
      exact hx
    case h_2 => cases hs
  | passCheckpoint =>
    rw [State.next] at hs
    split at hs
    case h_1 ckpt hh hq =>
      cases hs
      simp only [hh,ScannerPhase.held] at hx ⊢
      exact hx
    case h_2 => cases hs
  | checkHeader =>
    obtain ⟨⟨b,c⟩,hc,rfl⟩ := map_eq_some_iff.mp hs
    obtain ⟨hq, -⟩ := Channel.receive_eq_some hc
    simp only [hq,count_append,count_cons,count_nil] at hx ⊢
    omega
  | verifyCheckpoint =>
    obtain ⟨r, -,rfl⟩ := map_eq_some_iff.mp hs
    exact hx

theorem reachable_placed {s : State X} (h : (system X cfg).Reachable s) : Placed s := by
  refine h.invariant (P := Placed) (fun s hs => ?_) fun s a s' _ hp hs => placed_step hp hs
  cases hs
  exact fun b => rfl

/-- Every confirmed block is at some time checked and scanned as often as it was confirmed, and the
scanner does not wait forever. -/
def Serves (e : (system X cfg).Execution) : Prop :=
  (∀ i, ∀ b ∈ (e.state i).confirmed, ∃ j, i ≤ j ∧
    (e.state j).checked.count b = (e.state j).confirmed.count b ∧
    (e.state j).scanned.count b = (e.state j).confirmed.count b) ∧
  ∀ i, ¬ ∀ j, i ≤ j → Blocked (e.state j)

/-- No execution in which a block is confirmed serves it. -/
theorem served_iff_nothing_confirmed (X : Extractor N) (cfg : BufferSizes)
    (e : (system X cfg).Execution) : Serves e ↔ ∀ i, (e.state i).confirmed = [] := by
  constructor
  · intro hsr i
    refine eq_nil_iff_forall_not_mem.mpr fun b hb => ?_
    obtain ⟨j,hi,hc,hsc⟩ := hsr.1 i b hb
    have hm : b ∈ (e.state j).confirmed :=
      e.stays (P := fun s => b ∈ s.confirmed) (fun _ _ _ _ hb hs => confirmed_step hb hs) hi hb
    have hps := count_pos_iff.mpr hm
    have hp := reachable_placed (e.reachable j) b
    unfold places at hp
    omega
  · intro hn
    refine ⟨fun i b hb => ?_,fun i hbl => ?_⟩
    · rw [hn i] at hb
      cases hb
    · obtain ⟨b,hh, -⟩ := hbl i (Nat.le_refl i)
      have hp := reachable_placed (e.reachable i) b
      simp only [places,hn i,hh,ScannerPhase.held,count_nil,count_singleton_self] at hp
      omega

namespace Devnet

def network : Network := ⟨Unit,fun _ => [],fun _ => [],fun _ _ _ => rfl⟩

def genesis : IndexedBlock network := ⟨0,()⟩

def extractor : Extractor network := ⟨Unit,fun _ _ => none⟩

def monitor : System (State extractor) (Action network) := system extractor ⟨1,1⟩

/-- The block is confirmed and the loop of the monitor receives it. -/
def execution : monitor.Execution :=
  .ofMoves (fun _ _ _ h => h) [.confirm [genesis],.sendBlock,.checkHeader] rfl

end Devnet

open Loops.Devnet

/-- The block is checked and never scanned, although every goroutine has done what it can. -/
theorem block_never_scanned :
    (∃ i, genesis ∈ (execution.state i).confirmed) ∧
      ∀ i, genesis ∉ (execution.state i).scanned := by
  refine ⟨⟨1,mem_singleton_self genesis⟩,fun i => ?_⟩
  have hn : (execution.state i).scanned = [] := by
    match i with
    | 0 => rfl
    | 1 => rfl
    | 2 => rfl
    | i+3 =>
      have he : execution.state (i+3) = execution.state 3 :=
        System.Execution.follow_past_end (by simp)
      rw [he]
      rfl
  rw [hn]
  exact not_mem_nil

end AnonChain.Monitor.Loops
