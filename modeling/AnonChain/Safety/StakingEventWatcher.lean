import AnonChain.Lib.Run
import AnonChain.Types

/-! The watcher goes over the tracked delegations in chunks; others add and remove in between. -/

namespace AnonChain.StakingEventWatcher

open Lib List KVStore

structure TrackedDelegation where
  delegationStartHeight : Nat
  inProgress : Bool
  deriving DecidableEq

abbrev Mapping := KVStore Hash TrackedDelegation

/-- The clones of a chunk with room for `room` delegations, of a map iterated in the given order. -/
def collect (processed : List Hash) :
    Nat → List (Hash × TrackedDelegation) → List (Hash × TrackedDelegation)
  | _, [] => []
  | room, (k,v) :: order =>
    if k ∈ processed then collect processed room order
    else if room ≤ 1 then [(k,v)]
    else (k,v) :: collect (k :: processed) (room-1) order

/-- Tracks the delegation anew, also when it is tracked already and may be updated. -/
def addDelegation (m : Mapping) (k : Hash) (startHeight : Nat) (shouldUpdate : Bool) : Mapping :=
  if m.has k && !shouldUpdate then m else m.set k ⟨startHeight,false⟩

def updateActivation (m : Mapping) (k : Hash) (inProgress : Bool) : Option Mapping :=
  (m.get k).map fun d => m.set k { d with inProgress }

/-- The tracked delegations, the iteration of the current round and the goroutines that handle a
spend; `yielded` and `kept`, for the statements, are what the round has yielded and what is tracked
since it began. -/
structure State where
  mapping : Mapping
  processed : List Hash
  buffer : List (Hash × TrackedDelegation)
  ended : Bool
  running : List Hash
  yielded : List Hash
  kept : List Hash

inductive Action where
  | round
  | chunk (order : List (Hash × TrackedDelegation))
  | check (spent : Bool)
  | finish (k : Hash)
  | add (k : Hash) (startHeight : Nat) (shouldUpdate : Bool)
  | remove (k : Hash)

def State.next (chunkSize : Int) (s : State) : Action → Option State
  | .round =>
    if s.ended = true ∧ s.buffer = [] then
      some { s with processed := [], ended := false, yielded := [], kept := s.mapping.keys }
    else none
  | .chunk order =>
    if s.ended = false ∧ s.buffer = [] ∧ order.Perm s.mapping.entries then
      let buffer := collect s.processed (if chunkSize ≤ 0 then 100 else chunkSize.toNat) order
      let processed := s.processed ++ buffer.map Prod.fst
      some { s with processed, buffer, ended := s.mapping.keys.length ≤ processed.length }
    else none
  | .check spent =>
    match s.buffer with
    | [] => none
    | (k,del) :: buffer =>
      let s := { s with buffer, yielded := s.yielded ++ [k] }
      if del.inProgress || !spent then some s
      else
        match updateActivation s.mapping k true with
        -- the round is given up
        | none =>
          some { s with processed := [], buffer := [], ended := true, yielded := [], kept := [] }
        | some mapping => some { s with mapping, running := k :: s.running }
  | .finish k =>
    if k ∈ s.running then
      some { s with
        mapping := (updateActivation s.mapping k false).getD s.mapping
        running := s.running.erase k }
    else none
  | .add k startHeight shouldUpdate =>
    some { s with mapping := addDelegation s.mapping k startHeight shouldUpdate }
  | .remove k => some { s with mapping := s.mapping.delete k, kept := s.kept.filter (· ≠ k) }

def start : State := ⟨.empty,[],[],true,[],[],[]⟩

def watcher (chunkSize : Int) : System State Action where
  init s := s = start
  step s a s' := s.next chunkSize a = some s'

/-- A run of given actions that all pass a test. -/
def State.run (chunkSize : Int) (test : State → Action → Bool) (actions : List Action) :
    Option State :=
  actions.foldlM (fun s a => if test s a then s.next chunkSize a else none) start

theorem reachable_run {chunkSize : Int} {test : State → Action → Bool}
    {G : State → Action → State → Prop}
    (ht : ∀ s a s', test s a = true → G s a s') {actions : List Action} {P : State → Bool}
    (h : (State.run chunkSize test actions).any P = true) :
    ∃ s, ((watcher chunkSize).restrict G).Reachable s ∧ P s = true := by
  refine System.Reachable.follow (fun s a s' hs' => ?_) (.init rfl) h
  obtain ⟨ho,hs'⟩ := Option.ite_none_right_eq_some.mp hs'
  exact ⟨a,hs',ht s a s' ho⟩

section

variable {processed : List Hash} {order : List (Hash × TrackedDelegation)} {s : State}
  {chunkSize : Int}

theorem collect_sublist (processed : List Hash) (room : Nat)
    (order : List (Hash × TrackedDelegation)) : (collect processed room order).Sublist order := by
  induction order generalizing processed room with
  | nil => exact .slnil
  | cons e order ih =>
    simp only [collect]
    split
    · exact (ih processed room).cons e
    · split
      · exact (nil_sublist order).cons_cons e
      · exact (ih _ _).cons_cons e

theorem collect_fresh {room : Nat} {e : Hash × TrackedDelegation}
    (h : e ∈ collect processed room order) : e.1 ∉ processed := by
  induction order generalizing processed room with
  | nil => cases h
  | cons d _ ih =>
    simp only [collect] at h
    split at h
    · exact ih h
    · rename_i hd
      split at h
      · rw [mem_singleton.mp h]
        exact hd
      · obtain rfl | h := mem_cons.mp h
        · exact hd
        · exact fun hm => ih h (mem_cons_of_mem _ hm)

/-- While the iteration goes on, only delegations it has not reached are removed. -/
def Spares (s : State) (a : Action) (_ : State) : Prop :=
  ∀ k, a = .remove k → s.ended = false → k ∉ s.processed

structure Iterated (s : State) : Prop where
  nodup : s.processed.Nodup
  split : s.yielded ++ s.buffer.map Prod.fst = s.processed
  tracked : s.ended = false → ∀ k ∈ s.processed, k ∈ s.mapping.keys
  kept : ∀ k ∈ s.kept, k ∈ s.mapping.keys
  complete : s.ended = true → ∀ k ∈ s.kept, k ∈ s.processed

/-- A chunk adds delegations that are tracked and were not processed, and is the last one exactly if
none is left. -/
theorem Iterated.chunk (hi : Iterated s) (hg : s.ended = false)
    (ho : order.Perm s.mapping.entries) (room : Nat) :
    (s.processed ++ (collect s.processed room order).map Prod.fst).Nodup ∧
    (∀ k ∈ s.processed ++ (collect s.processed room order).map Prod.fst, k ∈ s.mapping.keys) ∧
    (s.mapping.keys.length ≤ (s.processed ++ (collect s.processed room order).map Prod.fst).length ↔
      ∀ k ∈ s.mapping.keys, k ∈ s.processed ++ (collect s.processed room order).map Prod.fst) := by
  have hky : (order.map Prod.fst).Perm s.mapping.keys := ho.map _
  have hs : ((collect s.processed room order).map Prod.fst).Sublist (order.map Prod.fst) :=
    (collect_sublist s.processed room order).map _
  have hn : (s.processed ++ (collect s.processed room order).map Prod.fst).Nodup := by
    refine hi.nodup.append (hs.nodup (hky.nodup_iff.mpr (keys_nodup _))) ?_
    intro k hk hk'
    obtain ⟨e,he,rfl⟩ := mem_map.mp hk'
    exact collect_fresh he hk
  have ht : ∀ k ∈ s.processed ++ (collect s.processed room order).map Prod.fst,
      k ∈ s.mapping.keys := by
    intro k hk
    obtain hk | hk := mem_append.mp hk
    · exact hi.tracked hg k hk
    · exact hky.subset (hs.subset hk)
  refine ⟨hn,ht,?_,fun h => (subperm_of_subset (keys_nodup _) h).length_le⟩
  intro hl k hk
  exact ((subperm_of_subset hn ht).perm_of_length_le hl).mem_iff.mpr hk

theorem mem_keys_set {m : Mapping} {k k' : Hash} (d : TrackedDelegation) (h : k ∈ m.keys) :
    k ∈ (m.set k' d).keys := by
  obtain ⟨v,hv⟩ := KVStore.mem_keys.mp h
  rw [KVStore.mem_keys,get_set]
  split
  · exact ⟨d,rfl⟩
  · exact ⟨v,hv⟩

theorem mem_keys_updateActivation {m m' : Mapping} {k k' : Hash} {b : Bool}
    (hu : updateActivation m k' b = some m') (h : k ∈ m.keys) : k ∈ m'.keys := by
  obtain ⟨d,_,rfl⟩ := Option.map_eq_some_iff.mp hu
  exact mem_keys_set _ h

theorem Iterated.mono (hi : Iterated s) {m : Mapping} (hm : ∀ k ∈ s.mapping.keys, k ∈ m.keys)
    (running : List Hash) : Iterated { s with mapping := m, running } :=
  ⟨hi.nodup,hi.split,fun hg k hk => hm k (hi.tracked hg k hk),
    fun k hk => hm k (hi.kept k hk),hi.complete⟩

theorem Iterated.step {a : Action} {s' : State} (hi : Iterated s) (h : s.next chunkSize a = some s')
    (hsr : Spares s a s') : Iterated s' := by
  cases a with
  | round =>
    obtain ⟨⟨_,hb⟩,⟨⟩⟩ := Option.ite_none_right_eq_some.mp h
    exact ⟨nodup_nil,by simp [hb],nofun,fun _ hk => hk,nofun⟩
  | chunk _ =>
    obtain ⟨⟨hg,hb,ho⟩,⟨⟩⟩ := Option.ite_none_right_eq_some.mp h
    obtain ⟨hnd,ht,he⟩ := hi.chunk hg ho (if chunkSize ≤ 0 then 100 else chunkSize.toNat)
    refine ⟨hnd,?_,fun _ => ht,hi.kept,fun h k hk => he.mp (of_decide_eq_true h) k (hi.kept k hk)⟩
    have hs := hi.split
    rw [hb,map_nil,append_nil] at hs
    rw [hs]
  | check _ =>
    simp only [State.next] at h
    split at h
    · cases h
    · rename_i k del buffer hb
      have hs := hi.split
      rw [hb] at hs
      have hp : Iterated { s with buffer, yielded := s.yielded ++ [k] } :=
        ⟨hi.nodup,by simpa using hs,hi.tracked,hi.kept,hi.complete⟩
      split at h
      · cases h
        exact hp
      · split at h <;> cases h
        · exact ⟨nodup_nil,rfl,nofun,nofun,nofun⟩
        · rename_i hu
          exact hp.mono (fun _ => mem_keys_updateActivation hu) _
  | finish k =>
    obtain ⟨_,⟨⟩⟩ := Option.ite_none_right_eq_some.mp h
    refine hi.mono (fun k' hk' => ?_) _
    cases hu : updateActivation s.mapping k false with
    | none => exact hk'
    | some m => exact mem_keys_updateActivation hu hk'
  | add k _ _ =>
    cases h
    refine hi.mono (fun k' hk' => ?_) _
    unfold addDelegation
    split
    · exact hk'
    · exact mem_keys_set _ hk'
  | remove k =>
    cases h
    have hky : ∀ k' ∈ s.mapping.keys, k' ≠ k → k' ∈ (s.mapping.delete k).keys := by
      intro k' hk' hn
      rw [KVStore.mem_keys] at hk' ⊢
      rwa [get_delete,if_neg hn]
    refine ⟨hi.nodup,hi.split,?_,?_,?_⟩
    · intro hg k' hk'
      exact hky k' (hi.tracked hg k' hk') (fun heq => hsr k rfl hg (heq ▸ hk'))
    · intro k' hk'
      obtain ⟨hk',hn⟩ := mem_filter.mp hk'
      exact hky k' (hi.kept k' hk') (of_decide_eq_true hn)
    · intro he k' hk'
      exact hi.complete he k' (mem_of_mem_filter hk')

/-- Where the removals spare what an iteration has reached, it yields nothing twice and all that is
tracked since its beginning, and ends with the chunk that leaves no tracked delegation out. -/
theorem iteration_complete (h : ((watcher chunkSize).restrict Spares).Reachable s) :
    s.yielded.Nodup ∧ (s.ended = true → s.buffer = [] → ∀ k ∈ s.kept, k ∈ s.yielded) ∧
    ∀ order s', s.next chunkSize (.chunk order) = some s' →
      (s'.ended = true ↔ ∀ k ∈ s'.mapping.keys, k ∈ s'.processed) := by
  have hi : Iterated s := by
    refine h.invariant ?_ (fun s a s' _ hi hst => hi.step hst.1 hst.2)
    rintro s rfl
    exact ⟨nodup_nil,rfl,nofun,nofun,nofun⟩
  refine ⟨?_,?_,?_⟩
  · have hn := hi.nodup
    rw [← hi.split] at hn
    exact hn.of_append_left
  · intro he hb k hk
    have hsp := hi.split
    rw [hb,map_nil,append_nil] at hsp
    rw [hsp]
    exact hi.complete he k hk
  · intro order s' hs'
    obtain ⟨⟨hg,_,ho⟩,⟨⟩⟩ := Option.ite_none_right_eq_some.mp hs'
    rw [decide_eq_true_eq]
    exact (hi.chunk hg ho _).2.2

end

/-- The first delegation is removed after it was yielded; the second chunk then counts two processed
and two tracked ones, and the third is left out. -/
theorem delegation_left_out : ∃ s, (watcher 1).Reachable s ∧ s.ended = true ∧ s.buffer = [] ∧
    [3] ∈ s.kept ∧ [3] ∉ s.yielded := by
  have hr : (State.run 1 (fun _ _ => true) [.add [1] 5 true,.add [2] 5 true,.add [3] 5 true,.round,
      .chunk [([1],⟨5,false⟩),([2],⟨5,false⟩),([3],⟨5,false⟩)],.check false,.remove [1],
      .chunk [([2],⟨5,false⟩),([3],⟨5,false⟩)],.check false]).any
      (fun s => s.ended = true ∧ s.buffer = [] ∧ [3] ∈ s.kept ∧ [3] ∉ s.yielded) = true :=
        by decide +kernel
  obtain ⟨s,hs,ht⟩ := reachable_run (G := fun _ _ _ => True) (fun _ _ _ _ => trivial) hr
  exact ⟨s,hs.of_restrict,of_decide_eq_true ht⟩

theorem iteration_complete_removed : ∃ s, ((watcher 1).restrict Spares).Reachable s ∧
    s.kept = [[2]] ∧ [2] ∈ s.yielded := by
  have hr : (State.run 1 (fun s a => match a with | .remove k => k ∉ s.processed | _ => true)
      [.add [1] 5 true,.add [2] 5 true,.round,.remove [1],.chunk [([2],⟨5,false⟩)],
        .check false]).any
      (fun s => s.ended = true ∧ s.buffer = [] ∧ s.kept = [[2]]) = true := by decide +kernel
  obtain ⟨s,hs,ht⟩ := reachable_run (G := Spares)
    (by rintro s _ s' h k rfl _; exact of_decide_eq_true h) hr
  obtain ⟨he,hb,hk⟩ := of_decide_eq_true ht
  exact ⟨s,hs,hk,(iteration_complete hs).2.1 he hb [2] (by simp [hk])⟩

section

variable {s : State} {chunkSize : Int}

/-- No delegation arrives while a goroutine handles its spend. -/
def Undisturbed (s : State) (a : Action) (_ : State) : Prop :=
  ∀ k startHeight shouldUpdate, a = .add k startHeight shouldUpdate → k ∉ s.running

structure Exclusive (s : State) : Prop where
  nodup : s.running.Nodup
  flagged : ∀ k ∈ s.running, ∀ d, s.mapping.get k = some d → d.inProgress = true
  fresh : ∀ e ∈ s.buffer, e.2.inProgress = false → e.1 ∉ s.running
  once : (s.buffer.map Prod.fst).Nodup

theorem Exclusive.step {a : Action} {s' : State} (hi : Exclusive s)
    (h : s.next chunkSize a = some s') (hq : Undisturbed s a s') : Exclusive s' := by
  cases a with
  | round =>
    obtain ⟨_,⟨⟩⟩ := Option.ite_none_right_eq_some.mp h
    exact ⟨hi.nodup,hi.flagged,hi.fresh,hi.once⟩
  | chunk order =>
    obtain ⟨⟨hgo,hb,hor⟩,⟨⟩⟩ := Option.ite_none_right_eq_some.mp h
    have hs := collect_sublist s.processed (if chunkSize ≤ 0 then 100 else chunkSize.toNat) order
    refine ⟨hi.nodup,hi.flagged,?_,?_⟩
    · intro e he hf hr
      have hg := mem_entries.mp (hor.subset (hs.subset he))
      rw [hi.flagged e.1 hr e.2 hg] at hf
      cases hf
    · exact (hs.map _).nodup ((hor.map Prod.fst).nodup_iff.mpr (keys_nodup _))
  | check _ =>
    simp only [State.next] at h
    split at h
    · cases h
    · rename_i k del buffer hb
      have ho := hi.once
      rw [hb,map_cons,nodup_cons] at ho
      have hfr : ∀ e ∈ buffer, e.2.inProgress = false → e.1 ∉ s.running :=
        fun e he => hi.fresh e (hb ▸ mem_cons_of_mem _ he)
      split at h
      · cases h
        exact ⟨hi.nodup,hi.flagged,hfr,ho.2⟩
      · rename_i hdl
        have hf : k ∉ s.running := hi.fresh (k,del) (hb ▸ mem_cons_self) (by simp_all)
        split at h <;> cases h
        · exact ⟨hi.nodup,hi.flagged,nofun,nodup_nil⟩
        · rename_i m hu
          obtain ⟨d,_,rfl⟩ := Option.map_eq_some_iff.mp hu
          refine ⟨nodup_cons.mpr ⟨hf,hi.nodup⟩,?_,?_,ho.2⟩
          · intro k' hk' d' hd'
            obtain ⟨rfl,rfl⟩ | ⟨hn,hd'⟩ := get_set_cases hd'
            · rfl
            · exact hi.flagged k' ((mem_cons.mp hk').resolve_left hn) d' hd'
          · intro e he hf' hr
            obtain heq | hr := mem_cons.mp hr
            · exact ho.1 (mem_map.mpr ⟨e,he,heq⟩)
            · exact hfr e he hf' hr
  | finish k =>
    obtain ⟨_,⟨⟩⟩ := Option.ite_none_right_eq_some.mp h
    refine ⟨hi.nodup.erase k,?_,fun e he hf hr => hi.fresh e he hf (mem_of_mem_erase hr),hi.once⟩
    intro k' hk' d' hd'
    obtain ⟨hn,hk'⟩ := (hi.nodup.mem_erase_iff).mp hk'
    refine hi.flagged k' hk' d' ?_
    cases hg : s.mapping.get k with
    | none => simpa [updateActivation,hg] using hd'
    | some d => simpa [updateActivation,hg,get_set_ne _ _ hn] using hd'
  | add k _ _ =>
    cases h
    refine ⟨hi.nodup,?_,hi.fresh,hi.once⟩
    intro k' hk' d' hd'
    have hn : k' ≠ k := fun heq => hq k _ _ rfl (heq ▸ hk')
    refine hi.flagged k' hk' d' ?_
    unfold addDelegation at hd'
    split at hd'
    · exact hd'
    · rwa [get_set_ne _ _ hn] at hd'
  | remove k =>
    cases h
    refine ⟨hi.nodup,?_,hi.fresh,hi.once⟩
    intro k' hk' d' hd'
    rw [get_delete] at hd'
    split at hd'
    · cases hd'
    · exact hi.flagged k' hk' d' hd'

theorem one_handler (h : ((watcher chunkSize).restrict Undisturbed).Reachable s) :
    s.running.Nodup := by
  have hi : Exclusive s := by
    refine h.invariant ?_ (fun s a s' _ hi hs => hi.step hs.1 hs.2)
    rintro s rfl
    exact ⟨nodup_nil,nofun,nofun,nodup_nil⟩
  exact hi.nodup

end

/-- The entry of a delegation is replaced while its spend is handled, and the flag with it. -/
theorem two_handlers : ∃ s, (watcher 1000).Reachable s ∧ s.running = [[1],[1]] := by
  have hr : (State.run 1000 (fun _ _ => true) [.add [1] 5 true,.round,
      .chunk [([1],⟨5,false⟩)],.check true,
      .add [1] 6 true,.round,.chunk [([1],⟨6,false⟩)],.check true]).any
      (fun s => s.running = [[1],[1]]) = true := by decide +kernel
  obtain ⟨s,hs,ht⟩ := reachable_run (G := fun _ _ _ => True) (fun _ _ _ _ => trivial) hr
  exact ⟨s,hs.of_restrict,of_decide_eq_true ht⟩

theorem one_handler_skipped : ∃ s, ((watcher 1000).restrict Undisturbed).Reachable s ∧
    [1] ∈ s.running ∧ s.running.Nodup := by
  have hr : (State.run 1000 (fun s a => match a with | .add k _ _ => k ∉ s.running | _ => true)
      [.add [1] 5 true,.round,.chunk [([1],⟨5,false⟩)],.check true,.round,.chunk [([1],⟨5,true⟩)],
        .check true]).any (fun s => [1] ∈ s.running) = true := by decide +kernel
  obtain ⟨s,hs,ht⟩ := reachable_run (G := Undisturbed)
    (by rintro s _ s' h k _ _ rfl; exact of_decide_eq_true h) hr
  exact ⟨s,hs,of_decide_eq_true ht,one_handler hs⟩

end AnonChain.StakingEventWatcher
