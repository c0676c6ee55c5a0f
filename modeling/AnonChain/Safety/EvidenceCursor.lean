import AnonChain.Safety.SlashedEvidence

/-! The height cursor of the slasher moves past evidence for older blocks that appears later. -/

namespace AnonChain

namespace BtcSlasher

open Lib List Option
open Finality (Evidence Env State)

variable {E : Env} {s s' : Slasher} {fin : State} {r : Round}

def Slasher.cursor (s : Slasher) : Nat := if s.running then s.height else s.stored.getD 0

/-- An evidence comes at the cursor or above. While a round runs, the round has fetched its last
page and none of its evidences is as high. -/
def Slasher.Awaits (s : Slasher) (e : Evidence) : Prop :=
  s.cursor ≤ e.blockHeight ∧ ∀ r ∈ s.round,
    r.page = none ∧ r.lastSlashedHeight < e.blockHeight ∧
    ∀ f ∈ r.pending, f.blockHeight < e.blockHeight

/-- Evidences appear in the order of the slasher, which starts from the first block when it has
stored no height. -/
def InOrder (E : Env) (w : World) (a : Act) (w' : World) : Prop :=
  match a with
  | .chain _ =>
    ∀ e, SlashableIn E w'.chain.stores.fin e → ¬ SlashableIn E w.chain.stores.fin e →
      w.slasher.Awaits e
  | .slasher (.start startHeight) => w.slasher.stored = none → startHeight = 0
  | .slasher _ => True

def Evidence.key (e : Evidence) : EvidenceKey := toLex (e.fpBtcPk,e.blockHeight)

/-- The evidence was handled, will be handled, or is on a page that was not fetched yet; unless the
round has failed. -/
def Covered (processed : List Evidence) (r : Round) (e : Evidence) : Prop :=
  r.failed = true ∨ e ∈ processed ∨ e ∈ r.pending ∨ ∃ key, r.page = some key ∧
    ∀ start ∈ key, start ≤ Evidence.key e

/-- The evidence has appeared after the last page was fetched and is left to a later round. -/
def Later (r : Round) (e : Evidence) : Prop :=
  r.page = none ∧ r.lastSlashedHeight < e.blockHeight ∧
    ∀ f ∈ r.pending, f.blockHeight < e.blockHeight

structure RoundInv (E : Env) (fin : State) (s : Slasher) (r : Round) : Prop where
  running : s.running = true
  start : r.startHeight = s.height
  pending : ∀ f ∈ r.pending, r.startHeight ≤ f.blockHeight
  last : r.lastSlashedHeight = 0 ∨ r.startHeight ≤ r.lastSlashedHeight
  scope : ∀ e, SlashableIn E fin e → Covered s.processed r e ∨ Later r e
  visible : ∀ e ∈ r.visible, SlashableIn E fin e ∧ Covered s.processed r e

structure Tracked (E : Env) (fin : State) (s : Slasher) : Prop where
  seen : ∀ e, SlashableIn E fin e → e ∈ s.processed ∨ s.cursor ≤ e.blockHeight
  stored : s.running = true → s.stored.getD 0 ≤ s.height
  round : ∀ r ∈ s.round, RoundInv E fin s r
  completed : ∀ visible ∈ s.completed, ∀ e ∈ visible, e ∈ s.processed

theorem Tracked.halt (h : Tracked E fin s) :
    Tracked E fin { s with running := false, round := none } := by
  refine ⟨?_,?_,?_,h.completed⟩
  · intro e he
    refine (h.seen e he).imp id fun hl => ?_
    unfold Slasher.cursor at hl
    split at hl
    case isTrue hrn => exact (h.stored hrn).trans hl
    case isFalse => exact hl
  · intro hrn
    cases hrn
  · intro r hr
    cases hr

theorem Tracked.dropRound (h : Tracked E fin s) : Tracked E fin { s with round := none } :=
  ⟨h.seen,h.stored,fun _ hr => (by cases hr),h.completed⟩

theorem Tracked.abort (h : Tracked E fin s) (hr : s.round = some r) :
    Tracked E fin (s.abort r) := by
  have hrn := (h.round r hr).running
  unfold Slasher.abort
  cases r.bootstrap with
  | true => exact h.halt
  | false =>
    have hs : { s with running := !false, round := none } = { s with round := none } := by
      rw [Bool.not_false,← hrn]
    rw [hs]
    exact h.dropRound

theorem roundInv_start {bootstrap : Bool} {startHeight : Nat} (hr : s.running = true)
    (hs : startHeight = s.height) : RoundInv E fin s (.start E bootstrap startHeight fin) := by
  have hc : ∀ e, Covered s.processed (.start E bootstrap startHeight fin) e :=
    fun e => .inr (.inr (.inr ⟨none,rfl,fun _ hs => (by cases hs)⟩))
  refine ⟨hr,hs,fun _ hf => (by cases hf),.inl rfl,fun e _ => .inl (hc e),fun e he => ?_⟩
  exact ⟨mem_slashableEvidences.mp he,hc e⟩

/-- What the chain guarantees of a slashable evidence: its key finds it, the query returns it. -/
def Listed (E : Env) (fin : State) : Prop :=
  ∀ e, SlashableIn E fin e → fin.evidences.get₂ e.fpBtcPk e.blockHeight = some e ∧
    fin.getFirstSlashableEvidence E e.fpBtcPk = some e

def Round.fetched (E : Env) (fin : State) (r : Round) (key : Option EvidenceKey) : Round :=
  { r with
    pending := (fin.listEvidences E r.startHeight key defaultPaginationLimit).1
    page := (fin.listEvidences E r.startHeight key defaultPaginationLimit).2.map some }

theorem covered_fetched {key : Option EvidenceKey} {e : Evidence} (hl : Listed E fin)
    (h : Tracked E fin s) (hr : RoundInv E fin s r) (hk : r.page = some key) (hnl : r.pending = [])
    (he : SlashableIn E fin e) (hcv : Covered s.processed r e) :
    Covered s.processed (r.fetched E fin key) e := by
  rcases hcv with hf | hd | hpn | ⟨key',hk',hs⟩
  · exact .inl hf
  · exact .inr (.inl hd)
  · rw [hnl] at hpn
    cases hpn
  · rw [hk] at hk'
    cases hk'
    rcases h.seen e he with hd | hc
    · exact .inr (.inl hd)
    · -- the query does not filter the evidence out
      obtain ⟨hg,hfr⟩ := hl e he
      have hh : r.startHeight ≤ e.blockHeight := by
        rw [Slasher.cursor,if_pos hr.running] at hc
        rw [hr.start]
        exact hc
      have hht : (fin.getFirstSlashableEvidence E (ofLex (Evidence.key e)).1).filter
          (r.startHeight ≤ ·.blockHeight) = some e := by
        rw [filter_eq_some_iff]
        exact ⟨hfr,decide_eq_true hh⟩
      have hp : e ∈ (fin.listEvidences E r.startHeight key defaultPaginationLimit).1 ∨
          ∃ next, (fin.listEvidences E r.startHeight key defaultPaginationLimit).2 = some next ∧
            next ≤ Evidence.key e :=
        E.filteredPaginate.covers (KVStore.keys₂_sorted _) (KVStore.mem_keys₂ hg) hs hht
      rcases hp with hp | ⟨next,hn,hle⟩
      · exact .inr (.inr (.inl hp))
      · refine .inr (.inr (.inr ⟨some next,?_,?_⟩))
        · change (fin.listEvidences E r.startHeight key defaultPaginationLimit).2.map some = _
          rw [hn]
          rfl
        · intro start hs
          cases hs
          exact hle

theorem Tracked.listEvidences {key : Option EvidenceKey} (hl : Listed E fin) (h : Tracked E fin s)
    (hrn : s.round = some r) (hk : r.page = some key) (hn : r.pending = []) :
    Tracked E fin { s with round := some (r.fetched E fin key) } := by
  have hr := h.round r hrn
  have hc : ∀ e, SlashableIn E fin e → Covered s.processed r e →
      Covered s.processed (r.fetched E fin key) e :=
    fun e => covered_fetched hl h hr hk hn
  refine ⟨h.seen,h.stored,?_,h.completed⟩
  intro r' hr'
  cases hr'
  refine ⟨hr.running,hr.start,?_,hr.last,?_,?_⟩
  · intro f hf
    obtain ⟨k, -,hh⟩ := E.filteredPaginate.mem_page hf
    exact of_decide_eq_true (filter_eq_some_iff.mp hh).2
  · intro e he
    rcases hr.scope e he with hcv | hlt
    · exact .inl (hc e he hcv)
    · have hls := hlt.1
      rw [hk] at hls
      cases hls
  · intro e he
    obtain ⟨hs,hcv⟩ := hr.visible e he
    exact ⟨hs,hc e hs hcv⟩

theorem Tracked.handled {f : Evidence} {pending : List Evidence} (h : Tracked E fin s)
    (hrn : s.round = some r) (hp : r.pending = f :: pending) :
    Tracked E fin { s with
      processed := s.processed ++ [f]
      round := some { r with
        pending := pending, lastSlashedHeight := max r.lastSlashedHeight f.blockHeight } } := by
  have hr := h.round r hrn
  have hf := hr.pending f (by rw [hp]; exact mem_cons_self)
  have hrs : ∀ e ∈ pending, e ∈ r.pending := fun e he => by
    rw [hp]
    exact mem_cons_of_mem f he
  have hc : ∀ e, Covered s.processed r e → Covered (s.processed ++ [f]) { r with
      pending := pending, lastSlashedHeight := max r.lastSlashedHeight f.blockHeight } e := by
    intro e hcv
    rcases hcv with hfl | hd | hi | hpg
    · exact .inl hfl
    · exact .inr (.inl (mem_append_left _ hd))
    · rw [hp] at hi
      rcases mem_cons.mp hi with rfl | hi
      · exact .inr (.inl (mem_append_right _ (mem_singleton_self e)))
      · exact .inr (.inr (.inl hi))
    · exact .inr (.inr (.inr hpg))
  refine ⟨fun e he => (h.seen e he).imp (mem_append_left _) id,h.stored,?_,?_⟩
  · intro r' hr'
    cases hr'
    refine ⟨hr.running,hr.start,fun e he => hr.pending e (hrs e he),?_,?_,?_⟩
    · dsimp only
      omega
    · intro e he
      rcases hr.scope e he with hcv | ⟨hpg,hl,ha⟩
      · exact .inl (hc e hcv)
      · have hfe := ha f (by rw [hp]; exact mem_cons_self)
        exact .inr ⟨hpg,max_lt hl hfe,fun g hg => ha g (hrs g hg)⟩
    · intro e he
      obtain ⟨hs,hcv⟩ := hr.visible e he
      exact ⟨hs,hc e hcv⟩
  · intro visible hv e he
    exact mem_append_left _ (h.completed visible hv e he)

theorem Tracked.refused {f : Evidence} {pending : List Evidence} (h : Tracked E fin s)
    (hrn : s.round = some r) (hp : r.pending = f :: pending) :
    Tracked E fin { s with round := some { r with pending := pending, failed := true } } := by
  have hr := h.round r hrn
  refine ⟨h.seen,h.stored,?_,h.completed⟩
  intro r' hr'
  cases hr'
  refine ⟨hr.running,hr.start,?_,hr.last,fun _ _ => .inl (.inl rfl),
    fun e he => ⟨(hr.visible e he).1,.inl rfl⟩⟩
  intro e he
  refine hr.pending e ?_
  rw [hp]
  exact mem_cons_of_mem f he

theorem Tracked.finish {putHeight : Bool} (h : Tracked E fin s) (hrn : s.round = some r)
    (hp : r.page = none) (hn : r.pending = []) : Tracked E fin (s.finish r putHeight) := by
  have hr := h.round r hrn
  unfold Slasher.finish
  split
  case isTrue => exact h.abort hrn
  case isFalse ho =>
    have hcv : ∀ e, Covered s.processed r e → e ∈ s.processed := by
      intro e hco
      rcases hco with hf | hd | hi | ⟨key,hk, -⟩
      · exact absurd hf ho
      · exact hd
      · rw [hn] at hi
        cases hi
      · rw [hp] at hk
        cases hk
    have hc : ∀ visible ∈ s.completed ++ [r.visible], ∀ e ∈ visible, e ∈ s.processed := by
      intro visible hv e he
      rcases mem_append.mp hv with hv | hv
      · exact h.completed visible hv e he
      · rw [mem_singleton.mp hv] at he
        exact hcv e (hr.visible e he).2
    have hsn : ∀ e, SlashableIn E fin e → e ∈ s.processed ∨
        r.lastSlashedHeight < e.blockHeight := by
      intro e he
      rcases hr.scope e he with hco | hl
      · exact .inl (hcv e hco)
      · exact .inr hl.2.1
    split
    case isTrue hps =>
      have hs : s.height ≤ r.lastSlashedHeight := by
        have hls := hr.last
        rw [← hr.start]
        omega
      have hst : (if putHeight then some r.lastSlashedHeight else s.stored).getD 0 ≤
          r.lastSlashedHeight := by
        cases putHeight with
        | true => exact Nat.le_refl _
        | false => exact (h.stored hr.running).trans hs
      refine ⟨?_,fun _ => hst.trans (Nat.le_succ _),fun _ hr => (by cases hr),hc⟩
      intro e he
      refine (hsn e he).imp id fun hlt => ?_
      rw [Slasher.cursor]
      dsimp only
      split
      · exact hlt
      · exact hst.trans (Nat.le_of_lt hlt)
    case isFalse => exact ⟨h.seen,h.stored,fun _ hr => (by cases hr),hc⟩

theorem Tracked.next {m : Move} (hl : Listed E fin) (h : Tracked E fin s)
    (hsta : ∀ startHeight, m = .start startHeight → s.stored = none → startHeight = 0)
    (hs : s.next E fin m = some s') : Tracked E fin s' := by
  cases m with
  | start startHeight =>
    simp only [Slasher.next,ite_none_left_eq_some,some.injEq,Bool.not_eq_true] at hs
    obtain ⟨hst,rfl⟩ := hs
    have hh : s.stored.getD startHeight = s.stored.getD 0 := by
      cases hsr : s.stored with
      | none => exact hsta startHeight rfl hsr
      | some _ => rfl
    refine ⟨?_,fun _ => hh.ge,?_,h.completed⟩
    · intro e he
      refine (h.seen e he).imp id fun hle => ?_
      rw [Slasher.cursor,hst] at hle
      rw [hh]
      exact hle
    · intro r hr
      cases hr
      exact roundInv_start rfl rfl
  | tick =>
    rw [Slasher.next] at hs
    split at hs
    case h_1 hru hrn =>
      cases hs
      refine ⟨h.seen,h.stored,?_,h.completed⟩
      intro r hr
      cases hr
      exact roundInv_start hru rfl
    case h_2 => cases hs
  | listEvidences _ =>
    obtain ⟨r,hrn,hs⟩ := bind_eq_some_iff.mp hs
    split at hs
    case h_1 key hk hn =>
      split at hs
      case isTrue =>
        cases hs
        exact h.listEvidences hl hrn hk hn
      case isFalse =>
        cases hs
        exact h.abort hrn
    case h_2 => cases hs
  | handle _ =>
    obtain ⟨r,hrn,hs⟩ := bind_eq_some_iff.mp hs
    split at hs
    case h_1 => cases hs
    case h_2 f pending hp =>
      split at hs
      case h_1 =>
        cases hs
        exact h.handled hrn hp
      case h_2 =>
        cases hs
        exact h.refused hrn hp
  | finish _ =>
    obtain ⟨r,hrn,hs⟩ := bind_eq_some_iff.mp hs
    split at hs
    case h_1 hpg hn =>
      cases hs
      exact h.finish hrn hpg hn
    case h_2 => cases hs
  | stop =>
    cases hs
    exact h.halt

theorem Tracked.appears {fin' : State} (h : Tracked E fin s)
    (hk : ∀ e, SlashableIn E fin e → SlashableIn E fin' e)
    (hn : ∀ e, SlashableIn E fin' e → ¬ SlashableIn E fin e → s.Awaits e) : Tracked E fin' s := by
  refine ⟨?_,h.stored,?_,h.completed⟩
  · intro e he
    by_cases hold : SlashableIn E fin e
    · exact h.seen e hold
    · exact .inr (hn e he hold).1
  · intro r hrn
    have hr := h.round r hrn
    refine ⟨hr.running,hr.start,hr.pending,hr.last,?_,fun e he => (hr.visible e he).imp (hk e) id⟩
    intro e he
    by_cases hold : SlashableIn E fin e
    · exact hr.scope e hold
    · exact .inr ((hn e he hold).2 r hrn)

theorem world_chain {w : World} (h : (world E).Reachable w) : (chain E).Reachable w.chain := by
  refine h.invariant (P := fun w => (chain E).Reachable w.chain) (fun w hw => ?_) fun w a
    w' _ hc hs => ?_
  · obtain ⟨hg, -⟩ := hw
    exact .init hg
  · cases a with
    | chain a => exact hc.step hs.1
    | slasher m =>
      rw [hs.2.1]
      exact hc

/-- When evidences appear in the order of the slasher, a round without an error processes every
evidence that was visible at its beginning. -/
theorem no_evidence_skipped (E : Finality.Env) {w : World}
    (h : ((world E).restrict (InOrder E)).Reachable w) :
    ∀ visible ∈ w.slasher.completed, ∀ e ∈ visible, e ∈ w.slasher.processed := by
  have htr : Tracked E w.chain.stores.fin w.slasher := by
    refine h.invariant (P := fun w => Tracked E w.chain.stores.fin w.slasher) (fun w hw => ?_) fun w
      a w' hw ht hs => ?_
    · obtain ⟨hg,hnw⟩ := hw
      rw [hnw]
      refine ⟨?_,fun hrn => (by cases hrn),fun r hr => (by cases hr),fun v hv => (by cases hv)⟩
      intro e he
      exact .inr (Nat.zero_le _)
    · obtain ⟨hst,ho⟩ := hs
      have hc := world_chain hw.of_restrict
      cases a with
      | chain a =>
        obtain ⟨hst,hsm⟩ := hst
        rw [hsm]
        exact ht.appears (fun e he => he.step hc hst) ho
      | slasher m =>
        obtain ⟨-,hsm,hn⟩ := hst
        rw [hsm]
        refine ht.next (fun e he => he.first hc) ?_ hn
        intro startHeight hm
        rw [hm] at ho
        exact ho
  exact htr.completed

def World.next (E : Env) (w : World) : Act → Option World
  | .chain a => (deliver E w.chain a).toOption.map fun c => { w with chain := c }
  | .slasher m =>
    if w.chain.inBlock then none
    else (w.slasher.next E w.chain.stores.fin m).map fun s => { w with slasher := s }

theorem next_step {w w' : World} {a : Act} (h : w.next E a = some w') : (world E).step w a w' := by
  cases a with
  | chain a =>
    obtain ⟨c,hc,rfl⟩ := map_eq_some_iff.mp h
    cases hd : deliver E w.chain a with
    | error e =>
      rw [hd] at hc
      cases hc
    | ok c' =>
      rw [hd] at hc
      cases hc
      exact ⟨.inl hd,rfl⟩
  | slasher m =>
    simp only [World.next,ite_none_left_eq_some,map_eq_some_iff,Bool.not_eq_true] at h
    obtain ⟨hi,s,hs,rfl⟩ := h
    exact ⟨hi,rfl,hs⟩

/-- The chain moves only while the slasher has not started. -/
def World.nextBeforeStart (E : Env) (w : World) (a : Act) : Option World :=
  match a with
  | .chain _ =>
    if w.slasher.running || w.slasher.stored.isSome ||
      w.slasher.round.isSome then none else w.next E a
  | .slasher (.start startHeight) => if startHeight = 0 then w.next E a else none
  | .slasher _ => w.next E a

theorem nextBeforeStart_step {w w' : World} {a : Act} (h : w.nextBeforeStart E a = some w') :
    ((world E).restrict (InOrder E)).step w a w' := by
  cases a with
  | chain a =>
    simp only [World.nextBeforeStart,ite_none_left_eq_some,Bool.or_eq_true,not_or,Bool.not_eq_true,
      isSome_eq_false_iff,isNone_iff_eq_none] at h
    obtain ⟨⟨⟨hru,hst⟩,hrn⟩,hs⟩ := h
    refine ⟨next_step hs,fun e _ _ => ⟨?_,?_⟩⟩
    · rw [Slasher.cursor,hru,hst]
      exact Nat.zero_le _
    · rw [hrn]
      exact fun r hr => by cases hr
  | slasher m =>
    cases m with
    | start _ =>
      rw [World.nextBeforeStart,ite_none_right_eq_some] at h
      exact ⟨next_step h.2,fun _ => h.1⟩
    | tick => exact ⟨next_step h,trivial⟩
    | listEvidences _ => exact ⟨next_step h,trivial⟩
    | handle _ => exact ⟨next_step h,trivial⟩
    | finish _ => exact ⟨next_step h,trivial⟩
    | stop => exact ⟨next_step h,trivial⟩

end BtcSlasher

namespace Regtest

open BtcSlasher (Act Move)

def twoProviders : List Act :=
  ([beginBlock 1] ++ join 1 10 ++ join 2 10 ++
    [.endBlock,beginBlock 2,.endBlock,beginBlock 3,.endBlock]).map .chain

def equivocate (n k : Nat) (height : UInt64) : List Act :=
  [beginBlock n,vote k 0 height,vote k 3 height,.endBlock].map .chain

def fetch (first : Move) (evidences : Nat) : List Act :=
  ([first,.listEvidences true] ++ List.replicate evidences (Move.handle true) ++
    [Move.finish true]).map .slasher

def initial : BtcSlasher.World := ⟨genesis 2,.new⟩

def processedHeights (w : BtcSlasher.World) : List Nat := w.slasher.processed.map (·.blockHeight)

def completedHeights (w : BtcSlasher.World) : List (List Nat) :=
  w.slasher.completed.map fun v => v.map (·.blockHeight)

end Regtest

namespace BtcSlasher

open Lib Regtest

/-- Evidence that is there when the slasher starts is processed. -/
theorem first_round_processes :
    ∃ w, ((world env).restrict (InOrder env)).Reachable w ∧
      completedHeights w = [[3]] ∧ ∀ visible ∈ w.slasher.completed, ∀ e ∈ visible,
      e ∈ w.slasher.processed := by
  have hrn : ((twoProviders ++ equivocate 4 2 3 ++ fetch (.start 0) 1).foldlM
      (World.nextBeforeStart env) initial).any (fun w => completedHeights w == [[3]]) = true := by
    decide +kernel
  obtain ⟨w,hr,ht⟩ :=
    System.Reachable.follow (fun _ _ _ hn => ⟨_,nextBeforeStart_step hn⟩)
      (.init ⟨genesis_init,rfl⟩) hrn
  exact ⟨w,hr,beq_iff_eq.mp ht,no_evidence_skipped env hr⟩

/-- The second provider is slashed for height 3, then the first one equivocates at height 2, and the
next round has not processed that evidence. -/
theorem older_evidence_skipped :
    ∃ w, (world env).Reachable w ∧
      ∃ visible ∈ w.slasher.completed, ∃ e ∈ visible, e ∉ w.slasher.processed := by
  have hrn : ((twoProviders ++ equivocate 4 2 3 ++ fetch (.start 0) 1 ++ equivocate 5 1 2 ++
      fetch .tick 0).foldlM
      (World.next env) initial).any (fun w => completedHeights w == [[3],[2,3]] &&
        processedHeights w == [3]) = true := by decide +kernel
  obtain ⟨w,hr,hts⟩ :=
    System.Reachable.follow (fun _ _ _ hn => ⟨_,next_step hn⟩) (.init ⟨genesis_init,rfl⟩) hrn
  rw [Bool.and_eq_true,beq_iff_eq,beq_iff_eq] at hts
  obtain ⟨hc,hp⟩ := hts
  have hm : [2,3] ∈ completedHeights w := by
    rw [hc]
    decide
  obtain ⟨visible,hv,hh⟩ := List.mem_map.mp hm
  have htw : 2 ∈ visible.map (·.blockHeight) := by
    rw [hh]
    decide
  obtain ⟨e,he,hhg⟩ := List.mem_map.mp htw
  refine ⟨w,hr,visible,hv,e,he,fun hi => ?_⟩
  have ht : e.blockHeight ∈ processedHeights w := List.mem_map_of_mem hi
  rw [hp,hhg] at ht
  cases ht with
  | tail _ hnl => cases hnl

end BtcSlasher

end AnonChain
