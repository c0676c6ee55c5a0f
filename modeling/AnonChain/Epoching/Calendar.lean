import AnonChain.Epoching.Steps
import AnonChain.Lib.Tiling

/-! The epochs of a chain tile the heights, and the block at hand is in the current one or right
after it. -/

namespace AnonChain.Epoching

open Lib List Store
open KVStore (get_set mem_entries forall_set get_set_ne get_set_self)

/-- The stored epochs are `0, …, n`, one after the other, and `e` is epoch `n`. -/
structure Store.Calendar (s : Store) (n : Nat) (e : Epoch) : Prop where
  tiles : Tiles Epoch.firstBlockHeight Epoch.getLastBlockHeight s.epochInfo n
  numbered : ∀ i ep, s.epochInfo.get i = some ep → ep.epochNumber = i
  intervals : ∀ i ep, s.epochInfo.get i = some ep → i ≠ 0 → 2 ≤ ep.currentEpochInterval
  params : s.params.validate = .ok ()
  current : s.epochInfo.get n = some e

namespace Store.Calendar

variable {s t : Store} {n : Nat} {e : Epoch}

theorem last (h : s.Calendar n e) : s.epochInfo.last = some (n,e) := h.tiles.last_eq h.current

theorem getEpoch (h : s.Calendar n e) : s.getEpoch = .ok e := getEpoch_eq_ok.mpr ⟨n,h.last⟩

theorem number (h : s.Calendar n e) : e.epochNumber = n := h.numbered n e h.current

theorem eq_of_getEpoch (h : s.Calendar n e) {e' : Epoch} (he : s.getEpoch = .ok e') : e' = e := by
  rw [h.getEpoch] at he
  cases he
  rfl

theorem congr (h : s.Calendar n e) (hi : t.epochInfo = s.epochInfo) (hp : t.params = s.params) :
    t.Calendar n e := by
  refine ⟨?_,?_,?_,?_,?_⟩
  · rw [hi]
    exact h.tiles
  · rw [hi]
    exact h.numbered
  · rw [hi]
    exact h.intervals
  · rw [hp]
    exact h.params
  · rw [hi]
    exact h.current

theorem agree (h : s.Calendar n e) (ha : Agree s t) : t.Calendar n e :=
  h.congr ha.epochInfo ha.params

theorem setParams (h : s.Calendar n e) {p : Params} (hp : p.validate = .ok ()) :
    { s with params := p }.Calendar n e :=
  ⟨h.tiles,h.numbered,h.intervals,hp,h.current⟩

theorem setEpochInfo (h : s.Calendar n e) {i : Nat} {ep : Epoch} (ep' : Epoch)
    (hg : s.epochInfo.get i = some ep)
    (hn : ep'.epochNumber = ep.epochNumber) (hf : ep'.firstBlockHeight = ep.firstBlockHeight)
    (hin : ep'.currentEpochInterval = ep.currentEpochInterval) :
    (s.setEpochInfo i ep').Calendar n (if i = n then ep' else e) := by
  have hl : ep'.getLastBlockHeight = ep.getLastBlockHeight := by
    simp only [Epoch.getLastBlockHeight,hn,hf,hin]
  refine ⟨h.tiles.set_same hg hf hl,forall_set (hn.trans (h.numbered i ep hg)) h.numbered,
    forall_set (fun hi => hin ▸ h.intervals i ep hg hi) h.intervals,h.params,?_⟩
  rw [Store.setEpochInfo,get_set]
  by_cases hi : i = n
  · simp [hi]
  · simp [hi,Ne.symm hi,h.current]

theorem isFirstBlockOfNextEpoch_iff (h : s.Calendar n e) {height : Nat} :
    e.isFirstBlockOfNextEpoch height = true ↔ height = e.getLastBlockHeight+1 := by
  unfold Epoch.isFirstBlockOfNextEpoch Epoch.getLastBlockHeight
  rw [h.number]
  split
  · simp
  · rename_i hn
    have hi := h.intervals n e h.current hn
    simp
    omega

theorem isLastBlock_iff {height : Nat} :
    e.isLastBlock height = true ↔ e.getLastBlockHeight = height := by
  simp [Epoch.isLastBlock]

theorem extend (h : s.Calendar n e) {header : Header}
    (hh : header.height = e.getLastBlockHeight+1) :
    (s.setEpochInfo (n+1) (Epoch.new (n+1) s.params.epochInterval header.height none)).Calendar
      (n+1) (Epoch.new (n+1) s.params.epochInterval header.height none) := by
  have hp := Params.interval_of_validate h.params
  have hl : (Epoch.new (n+1) s.params.epochInterval header.height none).getLastBlockHeight =
      header.height+s.params.epochInterval-1 := by simp [Epoch.getLastBlockHeight,Epoch.new]
  have hn : header.height ≤ header.height+s.params.epochInterval-1 := by omega
  exact ⟨h.tiles.extend h.current hh (hl ▸ hn),forall_set rfl h.numbered,
    forall_set (fun _ => hp) h.intervals,h.params,get_set_self ..⟩

end Store.Calendar

namespace Store

def nextEpoch (s : Store) (n : Nat) (e : Epoch) (header : Header) (last : ValidatorPowers) :
    Store :=
  { s with
    epochInfo := (s.epochInfo.set (n+1)
      (Epoch.new (n+1) s.params.epochInterval header.height none)).set n
      { e with sealerAppHash := header.appHash }
    queueLength := s.queueLength.set (n+1) 0
    slashedVotingPower := s.slashedVotingPower.set (n+1) 0
    valSet := last.powers.entries.foldl (fun sets v => sets.set₂ (n+1) v.1 v.2) s.valSet
    votingPower := s.votingPower.set (n+1) (last.powers.entries.foldl
      (fun total v => total+v.2) 0) }

variable {s : Store} {n : Nat} {e : Epoch} {header : Header} {last : ValidatorPowers}

variable (last) in
theorem calendar_nextEpoch (h : s.Calendar n e) (hh : header.height = e.getLastBlockHeight+1) :
    (s.nextEpoch n e header last).Calendar (n+1)
      (Epoch.new (n+1) s.params.epochInterval header.height none) := by
  have hn : (s.epochInfo.set (n+1) (Epoch.new (n+1) s.params.epochInterval header.height none)).get
      n = some e := by
    rw [get_set_ne _ _ (by omega)]
    exact h.current
  have hs := (h.extend hh).setEpochInfo { e with sealerAppHash := header.appHash } hn rfl rfl rfl
  rw [if_neg (by omega)] at hs
  exact hs.congr rfl rfl

theorem beginBlocker_next (h : s.Calendar n e) (hh : header.height = e.getLastBlockHeight+1) :
    s.beginBlocker header last = .ok (s.nextEpoch n e header last) := by
  have hf := h.isFirstBlockOfNextEpoch_iff.mpr hh
  have hl : e.isLastBlock header.height = false := by simp [Epoch.isLastBlock,hh]
  let new := Epoch.new (n+1) s.params.epochInterval header.height none
  have hi : s.incEpoch header = .ok (s.setEpochInfo (n+1) new) := by
    simp [incEpoch,h.getEpoch,h.number,bind,Except.bind,pure,Except.pure,new]
  have he := h.extend hh
  have hold : (s.setEpochInfo (n+1) new).getHistoricalEpoch n = .ok e := by
    rw [getHistoricalEpoch,orFail_eq_ok,setEpochInfo,get_set_ne _ _ (by omega)]
    exact h.current
  have hs : (s.setEpochInfo (n+1) new).recordSealerAppHashForPrevEpoch header =
      .ok ((s.setEpochInfo (n+1) new).setEpochInfo n
        { e with sealerAppHash := header.appHash }) := by
    have hn : new.isFirstBlock header.height = true := by simp [Epoch.isFirstBlock,Epoch.new,new]
    simp only [recordSealerAppHashForPrevEpoch,ok_iff]
    exact ⟨new,he.getEpoch,hn,e,hold,by rw [h.number]⟩
  -- The rest of the block reads the new epoch only.
  have hg : ∀ t : Store, t.epochInfo = (s.nextEpoch n e header last).epochInfo →
      t.getEpoch = .ok new := by
    intro t ht
    have hc := (calendar_nextEpoch last h hh).getEpoch
    unfold getEpoch at hc ⊢
    rw [ht]
    exact hc
  rw [beginBlocker,bind_eq_ok]
  refine ⟨e,h.getEpoch,?_⟩
  simp only [hf,if_true,hl,Bool.false_eq_true,if_false,initMsgQueue,initSlashedVotingPower,
    initValidatorSet,ok_iff]
  refine ⟨_,hi,_,hs,?_⟩
  exact ⟨_,⟨new,hg _ rfl,rfl⟩,_,⟨new,hg _ rfl,rfl⟩,_,⟨new,hg _ rfl,rfl⟩,rfl⟩

theorem beginBlocker_within (h : s.Calendar n e) (hh : header.height ≤ e.getLastBlockHeight) :
    s.beginBlocker header last = .ok (if e.getLastBlockHeight = header.height then
      s.setEpochInfo n { e with sealerBlockHash := header.hash } else s) := by
  have hfr : e.isFirstBlockOfNextEpoch header.height = false := by
    rw [Bool.eq_false_iff]
    intro hf
    have := h.isFirstBlockOfNextEpoch_iff.mp hf
    omega
  simp only [beginBlocker,h.getEpoch,hfr,Bool.false_eq_true,if_false,recordSealerBlockHashForEpoch,
    Epoch.isLastBlock,h.number,bind,Except.bind,pure,Except.pure,decide_eq_true_eq,ensure]
  split <;> rfl

theorem recordLastHeaderTime_eq_ok (h : s.Calendar n e)
    (hl : e.getLastBlockHeight = header.height) :
    s.recordLastHeaderTime header =
      .ok (s.setEpochInfo n { e with lastBlockTime := some header.time }) := by
  simp only [recordLastHeaderTime,ok_iff]
  exact ⟨e,h.getEpoch,Calendar.isLastBlock_iff.mpr hl,by rw [h.number]⟩

theorem calendar_setLastBlockTime (h : s.Calendar n e) (time : Nat) :
    (s.setEpochInfo n { e with lastBlockTime := some time }).Calendar n
      { e with lastBlockTime := some time } := by
  simpa using h.setEpochInfo { e with lastBlockTime := some time } h.current rfl rfl rfl

theorem calendar_setSealerBlockHash (h : s.Calendar n e) (hash : Bytes) :
    (s.setEpochInfo n { e with sealerBlockHash := hash }).Calendar n
      { e with sealerBlockHash := hash } := by
  simpa using h.setEpochInfo { e with sealerBlockHash := hash } h.current rfl rfl rfl

end Store

namespace Store

def atGenesis (params : Params) (e : Epoch) (last : ValidatorPowers) : Store where
  params := params
  epochInfo := KVStore.empty.set 0 e
  msgQueue := .empty
  queueLength := KVStore.empty.set 0 0
  valSet := last.powers.entries.foldl (fun sets v => sets.set₂ 0 v.1 v.2) .empty
  votingPower := KVStore.empty.set 0 (last.powers.entries.foldl (fun total v => total+v.2) 0)
  slashedValSet := .empty
  slashedVotingPower := KVStore.empty.set 0 0
  valLifecycle := .empty
  delegationLifecycle := .empty

theorem initEpoch_fresh {gs : GenesisState} {s' : Store} {header : Header} (hf : gs.Fresh)
    (h : Store.empty.initEpoch header gs.epochs = .ok s') :
    ∃ interval time, s' = Store.empty.setEpochInfo 0 (Epoch.new 0 interval 0 (some time)) := by
  rcases hf.1 with he | ⟨interval,time,he⟩
  · simp only [he,initEpoch,ne_eq,not_true_eq_false,if_false,ok_iff] at h
    obtain ⟨-, -,rfl⟩ := h
    exact ⟨1,header.time,rfl⟩
  · simp only [he,initEpoch,ne_eq,cons_ne_nil,not_false_eq_true,if_true,pure_eq_ok] at h
    exact ⟨interval,time,h.symm⟩

theorem initGenesis_fresh {gs : GenesisState} {s' : Store} {header : Header}
    {last : ValidatorPowers} (hf : gs.Fresh) (h : Store.empty.initGenesis header last gs = .ok s') :
    ∃ interval time, gs.params.validate = .ok () ∧
      s' = atGenesis gs.params (Epoch.new 0 interval 0 (some time)) last := by
  have hfr := hf
  obtain ⟨-,hq,hv,hs,hvl,hd⟩ := hf
  simp only [initGenesis,ok_iff,hq,hv,hs,hvl,hd,initGenMsgQueue,initGenValidatorSet,
    initGenSlashedVotingPower,
    initMsgQueue,initValidatorSet,initSlashedVotingPower,setParams,ne_eq,not_true_eq_false,if_false,
    foldlM_nil] at h
  obtain ⟨s₁,h₁,s₂,⟨e₂,he₂,rfl⟩,s₃,⟨e₃,he₃,rfl⟩,s₄,⟨e₄,he₄,rfl⟩, -,rfl, -,rfl,⟨⟩,hvd,rfl⟩ := h
  obtain ⟨interval,time,rfl⟩ := initEpoch_fresh hfr h₁
  cases he₂
  cases he₃
  cases he₄
  exact ⟨interval,time,hvd,rfl⟩

end Store

namespace World

variable {R : Type} {k : StakingKeeper R} {w w' : World R} {n : Nat} {e : Epoch} {a : Action R}

/-- The current epoch is epoch `n` of the calendar; a block that has only started may be the one
after its last block. -/
structure OnCalendar (w : World R) (n : Nat) (e : Epoch) : Prop where
  calendar : w.store.Calendar n e
  first_le : e.firstBlockHeight ≤ w.header.height
  le_last : w.phase ≠ .started → w.header.height ≤ e.getLastBlockHeight
  le_next : w.header.height ≤ e.getLastBlockHeight+1
  positive : w.phase ≠ .idle → 0 < w.header.height

def queued (w : World R) (n : Nat) (before : Balances) (msg : QueuedMessage) : World R :=
  { w with
    store := { w.store with
      msgQueue := w.store.msgQueue.set₂ n (w.store.getQueueLength n) msg
      queueLength := w.store.queueLength.set n (w.store.getQueueLength n+1) }
    history := w.history ++ [.enqueued n msg before w.outside.balances] }

abbrev closed (w : World R) (n : Nat) (e : Epoch) : World R :=
  { w with store := w.store.setEpochInfo n { e with lastBlockTime := some w.header.time } }

/-- The steps of a world in epoch `n`, each with what it found and what it leaves: the epoch it
leads to and the world. -/
inductive Moves (k : StakingKeeper R) (n : Nat) (e : Epoch) (w : World R) :
    Action R → Nat → Epoch → World R → Prop
  | startBlock {header : Header} (idle : w.phase = .idle)
      (height : header.height = w.header.height+1)
      (time : w.header.time < header.time)
      (hash : header.hash ∉ w.store.epochs.map Epoch.sealerBlockHash)
      (powers : w.staking.lastValidatorPowers.powers.entries ≠ []) :
      Moves k n e w (.startBlock header) n e { w with header, phase := .started }
  | nextEpoch (started : w.phase = .started) (height : w.header.height = e.getLastBlockHeight+1) :
      Moves k n e w .beginBlock (n+1) (Epoch.new (n+1) w.store.params.epochInterval
        w.header.height none)
        { w with
          store := w.store.nextEpoch n e w.header w.staking.lastValidatorPowers
          phase := .running }
  | lastBlock (started : w.phase = .started) (height : e.getLastBlockHeight = w.header.height) :
      Moves k n e w .beginBlock n { e with sealerBlockHash := w.header.hash }
        { w with
          store := w.store.setEpochInfo n { e with sealerBlockHash := w.header.hash }
          phase := .running }
  | innerBlock (started : w.phase = .started) (height : w.header.height < e.getLastBlockHeight) :
      Moves k n e w .beginBlock n e { w with phase := .running }
  | deliver {txid : Bytes} {msg : StakingMsg} {rest : R} {locked : World R}
      (running : w.phase = .running) (addressed : WellAddressed msg)
      (lock : ({ w with outside := { w.outside with rest } } : World R).lockFundsForDelegateMsgs
        msg = .ok locked) :
      Moves k n e w (.deliver txid msg) n e (locked.queued n w.outside.balances
        (w.newQueuedMessage txid msg))
  | updateParams {authority : Bytes} {params : Params} (running : w.phase = .running)
      (valid : params.validate = .ok ()) :
      Moves k n e w (.updateParams authority params) n e { w with store := { w.store with params } }
  | slash {valAddr : Address} {total slashed power : Int} (block : w.phase ≠ .idle)
      (hasTotal : w.store.votingPower.get n = some total)
      (hasSlashed : w.store.slashedVotingPower.get n = some slashed)
      (hasPower : w.store.valSet.get₂ n valAddr = some power) :
      Moves k n e w (.slash valAddr) n e
        { w with store := { w.store with
            slashedValSet := w.store.slashedValSet.set₂ n valAddr power
            slashedVotingPower := w.store.slashedVotingPower.set n (slashed+power) } }
  | finalize {epoch : Epoch} {time : Nat} {unbonded : World R} (idle : w.phase = .idle)
      (ended : w.lastFinalizedEpoch+1 < n) (stored : w.store.epochInfo.get
        (w.lastFinalizedEpoch+1) = some epoch)
      (recorded : epoch.lastBlockTime = some time) (unbonding : Unbonded (w.lastFinalizedEpoch+1)
        time w unbonded) :
      Moves k n e w .finalize n e { unbonded with lastFinalizedEpoch := w.lastFinalizedEpoch+1 }
  | other {effect : Effect R} (block : w.phase ≠ .idle) :
      Moves k n e w (.other effect) n e (w.write effect)
  | endBlock (running : w.phase = .running) (height : w.header.height < e.getLastBlockHeight) :
      Moves k n e w .endBlock n e { w with phase := .idle }
  | endEpoch (running : w.phase = .running) (height : e.getLastBlockHeight = w.header.height) :
      Moves k n e w .endBlock n { e with lastBlockTime := some w.header.time }
        { updateValidatorSet k ((w.store.getEpochMsgs n).foldl (handleQueuedMsg k n)
            (w.closed n e)) with
          phase := .idle }

theorem moves_of_step (hc : OnCalendar w n e) (h : (system k).step w a w') :
    ∃ n' e', Moves k n e w a n' e' w' := by
  obtain ⟨hen,hex⟩ := h
  cases a with
  | startBlock _ =>
    obtain ⟨idle,height,time,hash,powers⟩ := hen
    cases hex
    exact ⟨_,_,.startBlock idle height time hash powers⟩
  | beginBlock =>
    simp only [exec,ok_iff] at hex
    obtain ⟨store,hs,rfl⟩ := hex
    rcases Nat.lt_trichotomy w.header.height e.getLastBlockHeight with hlt | heq | hgt
    · rw [beginBlocker_within hc.calendar hlt.le,if_neg (by omega)] at hs
      cases hs
      exact ⟨_,_,.innerBlock hen hlt⟩
    · rw [beginBlocker_within hc.calendar heq.le,if_pos heq.symm] at hs
      cases hs
      exact ⟨_,_,.lastBlock hen heq.symm⟩
    · have hnx : w.header.height = e.getLastBlockHeight+1 := by
        have := hc.le_next
        omega
      rw [beginBlocker_next hc.calendar hnx] at hs
      cases hs
      exact ⟨_,_,.nextEpoch hen hnx⟩
  | deliver _ _ =>
    have hr : w.phase = .running := hen
    have hps := hc.positive (by simp [hr])
    obtain ⟨rest,locked,hlc,henq⟩ := deliver_eq_ok (by omega) hex
    obtain ⟨epoch,he,rfl⟩ := enqueue_eq_ok henq
    rw [(frame_lock hlc).store.getEpoch] at he
    have hn : epoch.epochNumber = n := by
      rw [hc.calendar.eq_of_getEpoch he]
      exact hc.calendar.number
    rw [hn]
    exact ⟨_,_,.deliver hr (deliver_addressed hex) hlc⟩
  | updateParams _ _ =>
    obtain ⟨hv,rfl⟩ := updateParams_eq_ok hex
    exact ⟨_,_,.updateParams hen hv⟩
  | slash _ =>
    simp only [exec,ok_iff] at hex
    obtain ⟨store,hs,rfl⟩ := hex
    obtain ⟨epoch,total,slashed,power,he,ht,hsl,hp,rfl⟩ := beforeValidatorSlashed_eq_ok hs
    have hn : epoch.epochNumber = n := by
      rw [hc.calendar.eq_of_getEpoch he]
      exact hc.calendar.number
    rw [hn] at ht hsl hp ⊢
    exact ⟨_,_,.slash hen ht hsl hp⟩
  | finalize =>
    simp only [exec,finalizeNext,ok_iff] at hex
    obtain ⟨unbonded,hun,rfl⟩ := hex
    obtain ⟨epoch,time,hst,htm,hu⟩ := applyMatureUnbonding_eq_ok hun
    obtain ⟨hr,ep,hep,hlt⟩ := hen
    have hle : ep.epochNumber ≤ n := by
      obtain ⟨⟨i,ep'⟩,hi,rfl⟩ := mem_map.mp hep
      have hg := mem_entries.mp hi
      rw [hc.calendar.numbered i ep' hg]
      exact (hc.calendar.tiles.stored i).mp ⟨ep',hg⟩
    exact ⟨_,_,.finalize hr (by omega) hst htm hu⟩
  | other _ =>
    cases hex
    exact ⟨_,_,.other hen⟩
  | endBlock =>
    simp only [exec,ok_iff] at hex
    obtain ⟨ended,hed,rfl⟩ := hex
    have hr : w.phase = .running := hen
    have hle := hc.le_last (by simp [hr])
    obtain ⟨epoch,he,⟨hl,rfl⟩ | ⟨hl,store,msgs,hs,hm,rfl⟩⟩ := endBlocker_eq_ok hed
    · have heq := hc.calendar.eq_of_getEpoch he
      subst heq
      have hne : epoch.getLastBlockHeight ≠ ended.header.height := by
        simpa [Epoch.isLastBlock] using hl
      exact ⟨_,_,.endBlock hr (by omega)⟩
    · have heq := hc.calendar.eq_of_getEpoch he
      subst heq
      have hh := Store.Calendar.isLastBlock_iff.mp hl
      rw [recordLastHeaderTime_eq_ok hc.calendar hh] at hs
      cases hs
      simp only [getCurrentEpochMsgs,ok_iff] at hm
      obtain ⟨epoch',he',rfl⟩ := hm
      have hcl := calendar_setLastBlockTime hc.calendar w.header.time
      rw [hcl.eq_of_getEpoch he']
      have hn := hc.calendar.number
      subst hn
      exact ⟨_,_,.endEpoch hr hh⟩

theorem OnCalendar.agree (hc : OnCalendar w n e) (hh : w'.header = w.header)
    (hp : w'.phase = w.phase) (hcl : w'.store.Calendar n e) : OnCalendar w' n e := by
  refine ⟨hcl,?_,?_,?_,?_⟩
  · rw [hh]
    exact hc.first_le
  · rw [hh,hp]
    exact hc.le_last
  · rw [hh]
    exact hc.le_next
  · rw [hh,hp]
    exact hc.positive

theorem OnCalendar.frame (hc : OnCalendar w n e) (hf : Frame w w') : OnCalendar w' n e :=
  hc.agree hf.header hf.phase (hc.calendar.agree hf.store)

theorem frame_endEpoch (msgs : List QueuedMessage) (w : World R) :
    Frame w (updateValidatorSet k (msgs.foldl (handleQueuedMsg k n) w)) :=
  (frame_foldl (frame_handleQueuedMsg n) msgs w).trans (frame_updateValidatorSet _)

theorem moves_calendar {n' : Nat} {e' : Epoch} (hc : OnCalendar w n e)
    (h : Moves k n e w a n' e' w') : OnCalendar w' n' e' := by
  cases h with
  | startBlock idle height _ _ _ =>
    have hle := hc.le_last (by simp [idle])
    have hfr := hc.first_le
    refine ⟨hc.calendar,?_,by simp,?_,?_⟩ <;> simp only [height]
    · omega
    · omega
    · omega
  | nextEpoch _ height =>
    have hcl := calendar_nextEpoch w.staking.lastValidatorPowers hc.calendar height
    have hp := Params.interval_of_validate hc.calendar.params
    have hl : (Epoch.new (n+1) w.store.params.epochInterval w.header.height
        none).getLastBlockHeight =
        w.header.height+w.store.params.epochInterval-1 := by
      simp [Epoch.getLastBlockHeight,Epoch.new]
    refine ⟨hcl,Nat.le_refl _,?_,?_,?_⟩ <;> simp only [hl]
    · omega
    · omega
    · omega
  | lastBlock started height =>
    have hcl := calendar_setSealerBlockHash hc.calendar w.header.hash
    exact ⟨hcl,hc.first_le,fun _ => height.ge,hc.le_next,fun _ => hc.positive (by simp [started])⟩
  | innerBlock started height =>
    exact ⟨hc.calendar,hc.first_le,fun _ => height.le,hc.le_next,
      fun _ => hc.positive (by simp [started])⟩
  | deliver _ _ lock =>
    have hf := frame_lock lock
    exact hc.agree hf.header hf.phase (hc.calendar.congr hf.store.epochInfo hf.store.params)
  | updateParams _ valid => exact hc.agree rfl rfl (hc.calendar.setParams valid)
  | slash _ _ _ _ => exact hc.agree rfl rfl (hc.calendar.congr rfl rfl)
  | finalize _ _ _ _ unbonding =>
    exact hc.agree unbonding.header unbonding.phase (hc.calendar.agree unbonding.store)
  | other _ => exact hc.frame (frame_write w _)
  | endBlock _ height => exact ⟨hc.calendar,hc.first_le,fun _ => height.le,hc.le_next,by simp⟩
  | endEpoch _ height =>
    have hf := frame_endEpoch (k := k) (n := n) (w.store.getEpochMsgs n) (w.closed n e)
    have hcl := (calendar_setLastBlockTime hc.calendar w.header.time).agree hf.store
    refine ⟨hcl,?_,?_,?_,by simp⟩ <;> simp only [hf.header]
    · exact hc.first_le
    · exact fun _ => height.ge
    · exact hc.le_next

theorem starts_calendar {gs : GenesisState} (h : Starts gs w) : ∃ e, OnCalendar w 0 e := by
  obtain ⟨interval,time,hv,hs⟩ := initGenesis_fresh h.fresh h.genesis
  have hg : ∀ i ep, w.store.epochInfo.get i = some ep → i = 0 ∧
      ep = Epoch.new 0 interval 0 (some time) := by
    rw [hs]
    exact forall_set ⟨rfl,rfl⟩ nofun
  have hc : w.store.Calendar 0 (Epoch.new 0 interval 0 (some time)) := by
    refine ⟨?_,?_,?_,?_,?_⟩
    · rw [hs]
      exact Tiles.single rfl (Nat.le_refl 0)
    · intro i ep hi
      obtain ⟨rfl,rfl⟩ := hg i ep hi
      rfl
    · intro i ep hi hi0
      exact absurd (hg i ep hi).1 hi0
    · rw [hs]
      exact hv
    · rw [hs,atGenesis,get_set_self]
  have hh := h.height
  refine ⟨_,hc,?_,?_,?_,?_⟩
  · simp [hh,Epoch.new]
  · simp [hh]
  · simp [hh]
  · simp [h.phase]

theorem mem_epochs {s : Store} {e : Epoch} : e ∈ s.epochs ↔ ∃ i, s.epochInfo.get i = some e := by
  unfold epochs
  rw [mem_map]
  constructor
  · rintro ⟨⟨i,e'⟩,hm,rfl⟩
    exact ⟨i,mem_entries.mp hm⟩
  · rintro ⟨i,hi⟩
    exact ⟨(i,e),mem_entries.mpr hi,rfl⟩

theorem keys_eq_range {s : Store} (h : s.Calendar n e) : s.epochInfo.keys = List.range (n+1) := by
  refine (perm_ext_iff_of_nodup s.epochInfo.keys_nodup nodup_range).mpr ?_ |>.eq_of_pairwise
    (fun a b _ _ ha hb => absurd ha hb.asymm) s.epochInfo.keys_sorted pairwise_lt_range
  intro i
  rw [KVStore.mem_keys,h.tiles.stored,mem_range]
  omega

theorem epochNumbers_eq_range {s : Store} (h : s.Calendar n e) :
    s.epochs.map Epoch.epochNumber = List.range (n+1) := by
  rw [← keys_eq_range h,KVStore.keys,epochs,map_map]
  refine map_congr_left ?_
  rintro ⟨i,ep⟩ hm
  exact h.numbered i ep (mem_entries.mp hm)

theorem reachable_invariant {G : World R → Action R → World R → Prop}
    {P : World R → Nat → Epoch → Prop} (hsr : ∀ gs w e, Starts gs w → OnCalendar w 0 e → P w 0 e)
    (hmv : ∀ w n e a n' e' w', OnCalendar w n e → P w n e → Moves k n e w a n' e' w' →
      G w a w' → P w' n' e')
    (h : ((system k).restrict G).Reachable w) : ∃ n e, OnCalendar w n e ∧ P w n e := by
  refine h.invariant (P := fun w => ∃ n e, OnCalendar w n e ∧ P w n e) ?_ ?_
  · rintro w ⟨gs,hs⟩
    obtain ⟨e,hc⟩ := starts_calendar hs
    exact ⟨0,e,hc,hsr gs w e hs hc⟩
  · rintro w a w' - ⟨n,e,hc,hp⟩ ⟨hst,hg⟩
    obtain ⟨n',e',hm⟩ := moves_of_step hc hst
    exact ⟨n',e',moves_calendar hc hm,hmv w n e a n' e' w' hc hp hm hg⟩

end World

end AnonChain.Epoching
