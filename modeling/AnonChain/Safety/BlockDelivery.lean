import AnonChain.ChainPoller
import AnonChain.Safety.VoteRandomness

/-! The heights that leave the poller. The cursor moves only after a whole range was sent. -/

namespace AnonChain.ChainPoller

open Lib EotsManager FinalitySubmitter List State

def heightOf (b : BlockDescription) : Nat := b.height.val

namespace State

/-- The blocks that have passed through the channel, with those still in it. -/
def delivered (s : State) : List BlockDescription := s.received ++ s.blockChan.queue

def sentOfRange (s : State) : List BlockDescription :=
  match s.phase with
  | .sending sent _ _ => sent
  | _ => []

def position (s : State) : Nat := s.nextHeight.val+s.sentOfRange.length

end State

/-- No send is given up after another block of its range was sent, and the heights of the chain
stay below the largest machine word. -/
def Unbroken (s : State) : Action → Prop
  | .timeOut => s.sentOfRange = []
  | .abandon => s.sentOfRange = []
  | .queryLatest (some latest) => latest.val+1 < 2^64
  | _ => True

structure Delivery (s : State) : Prop where
  unactivated : s.phase = .waitForActivation → s.delivered = []
  line : s.delivered = [] ∨
    ∃ first, ConsecutiveFrom heightOf first s.delivered ∧ first+s.delivered.length = s.position
  range : ∀ sent rest full, s.phase = .sending sent rest full →
    ConsecutiveFrom heightOf s.nextHeight.val (sent ++ rest) ∧ ∀ b ∈ rest, b.height.val+1 < 2^64
  bounded : s.latest.val+1 < 2^64

variable {cfg : Config} {s s' : State} {a : Action} {height : Uint64}

theorem Delivery.congr (h : Delivery s) (hd : s'.delivered = s.delivered)
    (hp : s'.position = s.position) (hw : s'.phase ≠ .waitForActivation)
    (hr : ∀ sent rest full, s'.phase = .sending sent rest full →
      ConsecutiveFrom heightOf s'.nextHeight.val (sent ++ rest) ∧ ∀ b ∈ rest, b.height.val+1 < 2^64)
    (hb : s'.latest.val+1 < 2^64) : Delivery s' where
  unactivated hph := absurd hph hw
  line := by
    rw [hd,hp]
    exact h.line
  range := hr
  bounded := hb

theorem phase_cycleFailed (s : State) :
    s.cycleFailed.phase = .exited ∨ s.cycleFailed.phase = .waitForTick := by
  simp only [cycleFailed]
  split
  · exact .inl rfl
  · exact .inr rfl

theorem sentOfRange_of_phase {p : Phase} (hp : s.phase = p)
    (hn : ∀ sent rest full, p ≠ .sending sent rest full) : s.sentOfRange = [] := by
  unfold sentOfRange
  rw [hp]
  cases p with
  | sending sent rest full => exact absurd rfl (hn sent rest full)
  | _ => rfl

/-- A move to a phase in which nothing is sent, when nothing of a range was sent. -/
theorem Delivery.still {p : Phase} (h : Delivery s) (hsn : s.sentOfRange = []) (hp : s'.phase = p)
    (hne : ∀ sent rest full, p ≠ .sending sent rest full) (hw : p ≠ .waitForActivation)
    (hd : s'.delivered = s.delivered) (hn : s'.nextHeight = s.nextHeight)
    (hb : s'.latest.val+1 < 2^64) : Delivery s' := by
  refine h.congr hd ?_ (hp ▸ hw) (fun sent rest full hs => absurd (hp.symm.trans hs)
    (hne sent rest full)) hb
  rw [position,position,hn,hsn,sentOfRange_of_phase hp hne]

theorem Delivery.cycleFailed (h : Delivery s) (hs : s.sentOfRange = []) :
    Delivery s.cycleFailed := by
  rcases phase_cycleFailed s with hp | hp
  · exact h.still hs hp (by simp) (by simp) rfl rfl h.bounded
  · exact h.still hs hp (by simp) (by simp) rfl rfl h.bounded

theorem Delivery.send (h : Delivery s) (hs : s.poll .send = some s') : Delivery s' := by
  simp only [poll] at hs
  split at hs
  case h_2 => cases hs
  case h_1 sent b rest full hph =>
    rw [Option.map_eq_some_iff] at hs
    obtain ⟨blockChan,hsn,rfl⟩ := hs
    obtain ⟨hq, -⟩ := Channel.send_eq_some hsn
    obtain ⟨hr,hbn⟩ := h.range sent (b :: rest) full hph
    have hst : s.sentOfRange = sent := by simp only [sentOfRange,hph]
    have hps : s.position = s.nextHeight.val+sent.length := by rw [position,hst]
    -- the block is the one at the position
    have hb : heightOf b = s.position := by
      rw [hps]
      exact (consecutiveFrom_append.mp hr).2.1
    have hg : ∃ first, ConsecutiveFrom heightOf first (s.received ++ blockChan.queue) ∧
        first+(s.received ++ blockChan.queue).length = s.position+1 := by
      rw [hq,← append_assoc]
      change ∃ first, ConsecutiveFrom heightOf first (s.delivered ++ [b]) ∧
        first+(s.delivered ++ [b]).length = s.position+1
      rcases h.line with hn | ⟨first,hl,he⟩
      · rw [hn]
        exact ⟨s.position,⟨hb,trivial⟩,rfl⟩
      · refine ⟨first,consecutiveFrom_append.mpr ⟨hl,?_,trivial⟩,?_⟩
        · rw [hb,he]
        · rw [length_append,length_singleton]
          omega
    split
    · -- the whole range was sent
      have hv : (b.height+1).val = s.position+1 := by
        have hlt := hbn b mem_cons_self
        rw [← hb,heightOf,Fin.val_add]
        exact Nat.mod_eq_of_lt hlt
      refine ⟨fun hw => (by cases hw),.inr ?_,fun _ _ _ hp => (by cases hp),h.bounded⟩
      obtain ⟨first,hl,he⟩ := hg
      refine ⟨first,hl,?_⟩
      simp only [position,sentOfRange,cycleDone,length_nil,hv]
      exact he
    · refine ⟨fun hw => (by cases hw),.inr ?_,?_,h.bounded⟩
      · obtain ⟨first,hl,he⟩ := hg
        refine ⟨first,hl,?_⟩
        simp only [position,sentOfRange,length_append,length_singleton]
        rw [hps] at he
        exact he
      · intro sent' rest' full' hp
        cases hp
        rw [append_assoc,singleton_append]
        exact ⟨hr,fun c hc => hbn c (mem_cons_of_mem b hc)⟩

theorem Delivery.poll (h : Delivery s) (ha : Answers s a) (hu : Unbroken s a)
    (hs : s.poll a = some s') : Delivery s' := by
  cases a with
  | queryActivation _ =>
    simp only [poll] at hs
    split at hs
    case h_1 => exact Option.some.inj hs ▸ h
    case h_2 hph =>
      -- nothing was delivered before the activation
      cases hs
      refine ⟨fun hw => (by cases hw),.inl (h.unactivated hph),
        fun _ _ _ hp => (by cases hp),h.bounded⟩
    case h_3 => cases hs
  | queryLatest _ =>
    simp only [poll] at hs
    split at hs
    case h_1 hph =>
      cases hs
      exact h.cycleFailed (sentOfRange_of_phase hph (by simp))
    case h_2 latest hph =>
      have hsn := sentOfRange_of_phase hph (by simp)
      split at hs
      · cases hs
        exact h.still (p := .waitForTick) hsn rfl (by simp) (by simp) rfl rfl hu
      · cases hs
        exact h.still hsn rfl (by simp) (by simp) rfl rfl hu
    case h_3 => cases hs
  | queryBlocks _ =>
    simp only [poll] at hs
    split at hs
    case h_1 hph =>
      cases hs
      exact h.cycleFailed (sentOfRange_of_phase hph (by simp))
    case h_2 hph =>
      cases hs
      exact h.still (p := .waitForTick) (sentOfRange_of_phase hph (by simp)) rfl (by simp)
        (by simp) rfl rfl h.bounded
    case h_3 b blocks hph =>
      cases hs
      obtain ⟨hcn,hle, -⟩ := ha
      have hsn := sentOfRange_of_phase hph (by simp)
      refine h.congr rfl ?_ (by simp) ?_ h.bounded
      · rw [position,position,hsn]
        rfl
      · intro sent rest full hp
        cases hp
        refine ⟨hcn,fun c hc => ?_⟩
        have hc : c.height.val ≤ s.latest.val := hle c hc
        have hb := h.bounded
        omega
    case h_4 => cases hs
  | send => exact h.send hs
  | findFull =>
    simp only [poll] at hs
    split at hs
    case h_1 sent rest hph =>
      split at hs
      · cases hs
        refine h.congr rfl ?_ (by simp) ?_ h.bounded
        · simp only [position,sentOfRange,hph]
        · intro sent' rest' full' hp
          cases hp
          exact h.range sent rest false hph
      · cases hs
    case h_2 => cases hs
  | timeOut =>
    simp only [poll] at hs
    split at hs
    · exact Option.some.inj hs ▸ h.cycleFailed hu
    · cases hs
  | abandon =>
    simp only [poll] at hs
    split at hs
    · split at hs
      · exact Option.some.inj hs ▸ h.cycleFailed hu
      · cases hs
    · cases hs
  | leave =>
    simp only [poll] at hs
    have hl : s.sentOfRange = [] → Delivery { s with phase := .returned } :=
      fun hsn => h.still hsn rfl (by simp) (by simp) rfl rfl h.bounded
    split at hs
    case h_1 hph =>
      split at hs
      · exact Option.some.inj hs ▸ hl (sentOfRange_of_phase hph (by simp))
      · cases hs
    case h_2 hph =>
      split at hs
      · exact Option.some.inj hs ▸ hl (sentOfRange_of_phase hph (by simp))
      · cases hs
    case h_3 => cases hs
  | _ => cases hs

/-- The batches hold what was received, in the order in which it was received. -/
structure Collected (s : State) : Prop where
  batches : ∀ l ∈ s.batches, l.Sublist s.received
  current : ∀ l, s.pollerBlocks = some l → l.Sublist s.received

/-- What a user can change: a block moves from the channel to those received. -/
structure Used (s s' : State) : Prop where
  delivered : s'.delivered = s.delivered
  nextHeight : s'.nextHeight = s.nextHeight
  phase : s'.phase = s.phase
  latest : s'.latest = s.latest

theorem Delivery.used (h : Delivery s) (hu : Used s s') : Delivery s' where
  unactivated hp := by
    rw [hu.delivered]
    exact h.unactivated (hu.phase ▸ hp)
  line := by
    have hps : s'.position = s.position := by
      simp only [position,sentOfRange,hu.nextHeight,hu.phase]
    rw [hu.delivered,hps]
    exact h.line
  range sent rest full hp := by
    rw [hu.nextHeight]
    exact h.range sent rest full (hu.phase ▸ hp)
  bounded := by
    rw [hu.latest]
    exact h.bounded

theorem delivered_receive {b : BlockDescription} {blockChan : Channel BlockDescription}
    (h : s.blockChan.receive = some (b,blockChan)) :
    s.received ++ [b] ++ blockChan.queue = s.delivered := by
  rw [delivered,(Channel.receive_eq_some h).1,append_assoc,singleton_append]

theorem use_spec (hs : s.use cfg a = some s') : Used s s' ∧ (Collected s → Collected s') := by
  cases a with
  | receive =>
    simp only [use] at hs
    split at hs
    · cases hs
    · rw [Option.map_eq_some_iff] at hs
      obtain ⟨⟨b,blockChan⟩,hr,rfl⟩ := hs
      refine ⟨⟨delivered_receive hr,rfl,rfl,rfl⟩,fun hc => ⟨?_,?_⟩⟩
      · exact fun l hl => (hc.batches l hl).trans (sublist_append_left _ _)
      · exact fun l hl => (hc.current l hl).trans (sublist_append_left _ _)
  | collect =>
    simp only [use] at hs
    split at hs
    case h_2 => cases hs
    case h_1 pollerBlocks hb _ =>
      rw [Option.map_eq_some_iff] at hs
      obtain ⟨⟨b,blockChan⟩,hr,rfl⟩ := hs
      have hd := delivered_receive hr
      have hold : Collected s → ∀ l ∈ s.batches, l.Sublist (s.received ++ [b]) :=
        fun hc l hl => (hc.batches l hl).trans (sublist_append_left _ _)
      have hn : Collected s → (pollerBlocks ++ [b]).Sublist (s.received ++ [b]) :=
        fun hc => (hc.current pollerBlocks hb).append (List.Sublist.refl [b])
      dsimp only
      split
      · refine ⟨⟨hd,rfl,rfl,rfl⟩,fun hc => ⟨?_,fun l hl => by cases hl⟩⟩
        intro l hl
        rcases mem_append.mp hl with hl | hl
        · exact hold hc l hl
        · rw [mem_singleton.mp hl]
          exact hn hc
      · refine ⟨⟨hd,rfl,rfl,rfl⟩,fun hc => ⟨hold hc,?_⟩⟩
        intro l hl
        cases hl
        exact hn hc
  | endBatch =>
    simp only [use] at hs
    split at hs
    case h_2 => cases hs
    case h_1 pollerBlocks hb =>
      rw [Option.ite_none_right_eq_some,Option.some.injEq] at hs
      obtain ⟨-,rfl⟩ := hs
      refine ⟨⟨rfl,rfl,rfl,rfl⟩,fun hc => ⟨?_,fun l hl => by cases hl⟩⟩
      intro l hl
      rcases mem_append.mp hl with hl | hl
      · exact hc.batches l hl
      · rw [mem_singleton.mp hl]
        exact hc.current pollerBlocks hb
  | getBatch =>
    simp only [use] at hs
    split at hs
    · cases hs
      refine ⟨⟨rfl,rfl,rfl,rfl⟩,fun hc => ⟨hc.batches,?_⟩⟩
      intro l hl
      cases hl
      exact nil_sublist s.received
    · cases hs
  | cancelContext =>
    cases hs
    exact ⟨⟨rfl,rfl,rfl,rfl⟩,fun hc => ⟨hc.batches,hc.current⟩⟩
  | giveUp =>
    simp only [use,Option.ite_none_left_eq_some,Option.some.injEq] at hs
    obtain ⟨-,rfl⟩ := hs
    exact ⟨⟨rfl,rfl,rfl,rfl⟩,fun hc => ⟨hc.batches,hc.current⟩⟩
  | stop | call | tryNextBlock =>
    simp only [use,Option.ite_none_right_eq_some,Option.some.injEq] at hs
    obtain ⟨-,rfl⟩ := hs
    exact ⟨⟨rfl,rfl,rfl,rfl⟩,fun hc => ⟨hc.batches,hc.current⟩⟩
  | _ => cases hs

theorem poll_frame (hs : s.poll a = some s') :
    s'.received = s.received ∧ s'.batches = s.batches ∧ s'.pollerBlocks = s.pollerBlocks := by
  unfold poll at hs
  grind [cycleFailed,cycleDone,Option.map_eq_some_iff]

abbrev unbroken (cfg : Config) (height : Uint64) : System State Action :=
  (system cfg height).restrict fun s a _ => Unbroken s a

theorem unbroken_delivery (h : (unbroken cfg height).Reachable s) : Delivery s ∧ Collected s := by
  refine System.Reachable.invariant (P := fun s => Delivery s ∧ Collected s) ?_ ?_ h
  · rintro s rfl
    refine ⟨⟨fun _ => rfl,.inl rfl,fun _ _ _ hp => (by cases hp),by simp [started]⟩,⟨?_,?_⟩⟩
    · intro l hl
      cases hl
    · intro l hl
      cases hl
  · intro s a s' _ ⟨hd,hc⟩ ⟨⟨ha,hs⟩,hu⟩
    simp only [State.next] at hs
    split at hs
    · cases hs
    · rcases Option.or_eq_some_iff.mp hs with hs | ⟨-,hs⟩
      · obtain ⟨hr,hb,hbl⟩ := poll_frame hs
        refine ⟨hd.poll ha hu hs,⟨?_,?_⟩⟩
        · rw [hb,hr]
          exact hc.batches
        · rw [hbl,hr]
          exact hc.current
      · obtain ⟨hus,hcl⟩ := use_spec hs
        exact ⟨hd.used hus,hcl hc⟩

theorem Delivery.received (h : Delivery s) :
    ∃ first, ConsecutiveFrom heightOf first s.received := by
  rcases h.line with hn | ⟨first,hl, -⟩
  · rw [delivered,append_eq_nil_iff] at hn
    rw [hn.1]
    exact ⟨0,trivial⟩
  · exact ⟨first,(consecutiveFrom_append.mp hl).1⟩

def requestHeights (blocks : List BlockDescription) : List Uint64 :=
  (blocks.map fun b => (⟨b.msgToSign,b.height⟩ : SignDataRequest)).map (·.height)

theorem requestHeights_nodup {blocks : List BlockDescription}
    (h : blocks.Pairwise (fun b c => heightOf b < heightOf c)) : (requestHeights blocks).Nodup := by
  rw [requestHeights,map_map,List.Nodup,pairwise_map]
  refine h.imp fun hl he => ?_
  have hv : heightOf _ = heightOf _ := congrArg Fin.val he
  omega

theorem blocks_delivered_once {height : Uint64} (h : (unbroken cfg height).Reachable s) :
    (∃ first, ConsecutiveFrom heightOf first s.received) ∧
      ∀ l ∈ s.batches, l.Pairwise (fun b c => heightOf b < heightOf c) ∧
        ∀ (E : Env) (ds : Submitter E) (st st' : FinalityProviderState)
          (kept : List BlockDescription),
          filterBlocksForVoting ds st l = .ok (kept,st') →
          hasDuplicateHeights [] (requestHeights kept) = none := by
  obtain ⟨hd,hc⟩ := unbroken_delivery h
  obtain ⟨first,hln⟩ := hd.received
  refine ⟨⟨first,hln⟩,fun l hl => ?_⟩
  have hlt : l.Pairwise (fun b c => heightOf b < heightOf c) :=
    hln.pairwise_lt.sublist (hc.batches l hl)
  refine ⟨hlt,fun E ds st st' kept hf => ?_⟩
  simp only [filterBlocksForVoting,ok_iff,Prod.exists,Prod.mk.injEq] at hf
  obtain ⟨processed,power,hlp,rfl, -⟩ := hf
  have hk := hlt.sublist (filterLoop_spec hlp).1
  exact hasDuplicateHeights_eq_none.mpr ⟨requestHeights_nodup hk,by simp⟩

instance (s : State) : (a : Action) → Decidable (Answers s a)
  | .queryLatest (some latest) => inferInstanceAs (Decidable (s.latest ≤ latest))
  | .queryBlocks (some blocks) =>
    inferInstanceAs (Decidable (ConsecutiveFrom (fun b : BlockDescription => b.height.val)
      s.nextHeight.val blocks ∧
      (∀ b ∈ blocks, b.height ≤ s.latest) ∧ (s.nextHeight = s.latest → blocks.length = 1)))
  | .queryLatest none => .isTrue trivial
  | .queryBlocks none => .isTrue trivial
  | .queryActivation _ | .send | .findFull | .timeOut | .abandon | .leave | .cancelContext | .stop
  | .call | .receive | .giveUp | .getBatch | .tryNextBlock | .collect | .endBatch => .isTrue trivial

instance (s : State) : (a : Action) → Decidable (Unbroken s a)
  | .timeOut => inferInstanceAs (Decidable (s.sentOfRange = []))
  | .abandon => inferInstanceAs (Decidable (s.sentOfRange = []))
  | .queryLatest (some latest) => inferInstanceAs (Decidable (latest.val+1 < 2^64))
  | .queryLatest none => .isTrue trivial
  | .queryBlocks _ | .queryActivation
      _ | .send | .findFull | .leave | .cancelContext | .stop | .call
  | .receive | .giveUp | .getBatch | .tryNextBlock | .collect | .endBatch => .isTrue trivial

def checkedNext (cfg : Config) (s : State) (a : Action) : Option State :=
  if Answers s a then s.next cfg a else none

def unbrokenNext (cfg : Config) (s : State) (a : Action) : Option State :=
  if Unbroken s a then checkedNext cfg s a else none

theorem checkedNext_step (h : checkedNext cfg s a = some s') : (system cfg height).step s a s' := by
  rw [checkedNext,Option.ite_none_right_eq_some] at h
  exact h

theorem unbrokenNext_step (h : unbrokenNext cfg s a = some s') :
    (unbroken cfg height).step s a s' := by
  rw [unbrokenNext,Option.ite_none_right_eq_some] at h
  exact ⟨checkedNext_step h.2,h.1⟩

def blockAt (height : Uint64) : BlockDescription := ⟨height,[]⟩

def steadyRun : List Action :=
  [.queryActivation none,.queryActivation (some 7),.queryLatest (some 8),
    .queryBlocks (some [blockAt 7,blockAt 8]),
    .send,.getBatch,.tryNextBlock,.collect,.send,.tryNextBlock,.collect,.tryNextBlock,.endBatch]

theorem steady_run_delivers :
    ∃ s, (unbroken ⟨1,5⟩ 5).Reachable s ∧ s.batches.map requestHeights = [[7,8]] ∧
      ∃ first, ConsecutiveFrom heightOf first s.received := by
  have hrn : (steadyRun.foldlM (unbrokenNext ⟨1,5⟩) (.started ⟨1,5⟩ 5)).any
      (fun s => s.batches.map requestHeights == [[7,8]]) = true := by decide +kernel
  obtain ⟨s,hr,ht⟩ :=
    System.Reachable.follow (fun _ _ _ hn => ⟨_,unbrokenNext_step hn⟩) (.init rfl) hrn
  exact ⟨s,hr,beq_iff_eq.mp ht,(blocks_delivered_once hr).1⟩

/-- The channel holds one block. The second block of the range waits too long, and the next cycle
sends the first one again. -/
def slowConsumerRun : List Action :=
  [.queryActivation (some 1),.queryLatest (some 2),.queryBlocks (some [blockAt 1,blockAt 2]),
    .send,.findFull,
    .timeOut,.getBatch,.tryNextBlock,.collect,.queryLatest (some 2),.queryBlocks
      (some [blockAt 1,blockAt 2]),
    .send,.tryNextBlock,.collect,.tryNextBlock,.endBatch]

theorem slow_consumer_receives_twice :
    ∃ s, (system ⟨1,5⟩ 1).Reachable s ∧ (¬ ∃ first, ConsecutiveFrom heightOf first s.received) ∧
      ∃ l ∈ s.batches, hasDuplicateHeights [] (requestHeights l) = some 1 := by
  have hrn : (slowConsumerRun.foldlM (checkedNext ⟨1,5⟩) (.started ⟨1,5⟩ 1)).any
      (fun s => s.received.map heightOf == [1,1] &&
        s.batches.any (fun l => hasDuplicateHeights [] (requestHeights l) == some 1)) =
          true := by decide +kernel
  obtain ⟨s,hrh,ht⟩ :=
    System.Reachable.follow (fun _ _ _ hn => ⟨_,checkedNext_step hn⟩) (.init rfl) hrn
  simp only [Bool.and_eq_true,beq_iff_eq,any_eq_true] at ht
  obtain ⟨hr,hb⟩ := ht
  refine ⟨s,hrh,?_,hb⟩
  rintro ⟨first,hl⟩
  have hlt := pairwise_map.mpr hl.pairwise_lt
  rw [hr] at hlt
  exact absurd hlt (by decide)

end AnonChain.ChainPoller
