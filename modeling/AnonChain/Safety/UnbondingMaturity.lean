import AnonChain.Safety.EpochTiling

/-! An unbonding is completed with the checkpoint of the epoch it was started in, or of a later one,
when the unbonding time never grew. -/

namespace AnonChain.Epoching.World

open Lib List
open KVStore (get_set)

variable {R : Type} {k : StakingKeeper R} {w w' : World R} {n n' : Nat}
  {e e' : Epoch} {a : Action R} {i time height : Nat} {msg : StakingMsg} {staking : Staking}

/-- Epoch `i` has ended with the block at `height` and `time`. -/
def Ended (s : Store) (i time height : Nat) : Prop :=
  i ≠ 0 ∧ ∃ ep, s.epochInfo.get i = some ep ∧ ep.lastBlockTime = some time ∧
    ep.getLastBlockHeight = height

def newUnbondingTime (msg : QueuedMessage) : Option Nat :=
  match msg.msg with
  | .updateParams msg => some msg.unbondingTime
  | _ => none

/-- The unbonding times the queue of the current epoch asks for never increase, from the one in
force on. -/
def NeverRaises (w : World R) (_ : Action R) (_ : World R) : Prop :=
  ∀ epoch, w.store.getEpoch = .ok epoch →
    (w.staking.unbondingTime :: (w.store.getEpochMsgs epoch.epochNumber).filterMap
      newUnbondingTime).Pairwise (· ≥ ·)

theorem Ended.congr {s t : Store} (h : t.epochInfo = s.epochInfo) :
    Ended t i time height ↔ Ended s i time height := by
  unfold Ended
  rw [h]

theorem ended_setEpochInfo {s : Store} {j : Nat} {ep : Epoch} (ep' : Epoch)
    (hg : s.epochInfo.get j = some ep)
    (ht : ep'.lastBlockTime = ep.lastBlockTime)
    (hl : ep'.getLastBlockHeight = ep.getLastBlockHeight)
    : Ended (s.setEpochInfo j ep') i time height ↔ Ended s i time height := by
  unfold Ended Store.setEpochInfo
  simp only [get_set]
  by_cases hi : i = j
  · subst hi
    simp [hg,ht,hl]
  · simp [hi]

theorem ended_nextEpoch {s : Store} (hc : s.Calendar n e) (header : Header)
    (last : ValidatorPowers) :
    Ended (s.nextEpoch n e header last) i time height ↔ Ended s i time height := by
  unfold Ended Store.nextEpoch
  simp only [get_set]
  by_cases hn : i = n
  · subst hn
    simp [hc.current,Epoch.getLastBlockHeight]
  · by_cases hi : i = n+1
    · have hnn : s.epochInfo.get (n+1) = none := by
        cases hg : s.epochInfo.get (n+1) with
        | none => rfl
        | some ep =>
          have := (hc.tiles.stored (n+1)).mp ⟨ep,hg⟩
          omega
      simp [hi,hnn,Epoch.new]
    · simp [hn,hi]

theorem ended_setLastBlockTime {s : Store} (hc : s.Calendar n e) (hn : n ≠ 0) (now : Nat) :
    Ended (s.setEpochInfo n { e with lastBlockTime := some now }) i time height ↔
      (i = n ∧ time = now ∧ height = e.getLastBlockHeight) ∨ (i ≠ n ∧ Ended s i time height) := by
  unfold Ended Store.setEpochInfo
  simp only [get_set]
  by_cases hi : i = n
  · subst hi
    simp [hn,Epoch.getLastBlockHeight,eq_comm]
  · simp [hi]

/-- Epochs end in the order of their numbers, and before a block that is at work. -/
structure Ends (w : World R) : Prop where
  ordered : ∀ i j t u h h', Ended w.store i t h → Ended w.store j u h' → i < j → t < u
  time : ∀ i t h, Ended w.store i t h → t ≤ w.header.time ∧ (w.phase ≠ .idle → t < w.header.time)
  height : ∀ i t h, Ended w.store i t h → h ≤ w.header.height ∧
    (w.phase ≠ .idle → h < w.header.height)

theorem Ends.mono (h : Ends w) (he : ∀ i t h, Ended w'.store i t h → Ended w.store i t h)
    (hh : w'.header = w.header) (hph : w'.phase ≠ .idle → w.phase ≠ .idle) : Ends w' := by
  refine ⟨?_,?_,?_⟩
  · intro i j t u h₁ h₂ hi hj
    exact h.ordered i j t u h₁ h₂ (he i t h₁ hi) (he j u h₂ hj)
  · intro i t h₁ hi
    have hps := h.time i t h₁ (he i t h₁ hi)
    rw [hh]
    exact ⟨hps.1,fun hp => hps.2 (hph hp)⟩
  · intro i t h₁ hi
    have hps := h.height i t h₁ (he i t h₁ hi)
    rw [hh]
    exact ⟨hps.1,fun hp => hps.2 (hph hp)⟩

theorem Ends.not_ended (h : Ends w) (hc : OnCalendar w n e) (hr : w.phase = .running)
    {t height : Nat} : ¬ Ended w.store n t height := by
  intro he
  have hlt := (h.height n t height he).2 (by simp [hr])
  have hle := hc.le_last (by simp [hr])
  obtain ⟨-,ep,hep, -,hl⟩ := he
  rw [hc.calendar.current] at hep
  cases hep
  omega

theorem OnCalendar.number_pos (hc : OnCalendar w n e) (hr : w.phase = .running) : n ≠ 0 := by
  intro hn
  have hp := hc.positive (by simp [hr])
  have hl := hc.le_last (by simp [hr])
  have hnm := hc.calendar.number
  simp [Epoch.getLastBlockHeight,hnm,hn] at hl
  omega

theorem moves_ended (hc : OnCalendar w n e) (hm : Moves k n e w a n' e' w') :
    (∀ i t h, Ended w'.store i t h ↔ Ended w.store i t h) ∨
      (w.phase = .running ∧ e.getLastBlockHeight = w.header.height ∧ w'.header = w.header ∧
        w'.phase = .idle ∧ ∀ i t h, Ended w'.store i t h ↔
          (i = n ∧ t = w.header.time ∧ h = w.header.height) ∨ (i ≠ n ∧ Ended w.store i t h)) := by
  cases hm with
  | startBlock => exact .inl (fun i t h => Iff.rfl)
  | nextEpoch _ _ => exact .inl (fun i t h => ended_nextEpoch hc.calendar _ _)
  | lastBlock _ _ =>
    exact .inl (fun i t h =>
      ended_setEpochInfo { e with sealerBlockHash := w.header.hash } hc.calendar.current rfl rfl)
  | innerBlock => exact .inl (fun i t h => Iff.rfl)
  | deliver _ _ lock => exact .inl (fun i t h => Ended.congr (frame_lock lock).store.epochInfo)
  | updateParams => exact .inl (fun i t h => Ended.congr rfl)
  | slash => exact .inl (fun i t h => Ended.congr rfl)
  | finalize _ _ _ _ unbonding =>
    exact .inl (fun i t h => Ended.congr unbonding.store.epochInfo)
  | other _ => exact .inl (fun i t h => Ended.congr (frame_write w _).store.epochInfo)
  | endBlock => exact .inl (fun i t h => Iff.rfl)
  | endEpoch running height =>
    have hf := frame_endEpoch (k := k) (n := n) (w.store.getEpochMsgs n) (w.closed n e)
    refine .inr ⟨running,height,hf.header,rfl,fun i t h => ?_⟩
    rw [← height]
    exact (Ended.congr hf.store.epochInfo).trans
      (ended_setLastBlockTime hc.calendar (hc.number_pos running) w.header.time)

theorem moves_ends (hc : OnCalendar w n e) (h : Ends w) (hm : Moves k n e w a n' e' w') :
    Ends w' := by
  rcases moves_ended hc hm with hs | ⟨running,height,hh,hph,he⟩
  · cases hm with
    | startBlock _ height time _ _ =>
      refine ⟨h.ordered,?_,?_⟩
      · intro i t h₁ hi
        have hp := (h.time i t h₁ hi).1
        exact ⟨Nat.le_trans hp time.le,fun _ => Nat.lt_of_le_of_lt hp time⟩
      · intro i t h₁ hi
        have hp := (h.height i t h₁ hi).1
        simp only [height]
        exact ⟨by omega,fun _ => by omega⟩
    | nextEpoch started => exact h.mono (fun i t h => (hs i t h).mp) rfl (by simp [started])
    | lastBlock started => exact h.mono (fun i t h => (hs i t h).mp) rfl (by simp [started])
    | innerBlock started => exact h.mono (fun i t h => (hs i t h).mp) rfl (by simp [started])
    | deliver running _ lock =>
      exact h.mono (fun i t h => (hs i t h).mp) (frame_lock lock).header (by simp [running])
    | updateParams => exact h.mono (fun i t h => (hs i t h).mp) rfl id
    | slash => exact h.mono (fun i t h => (hs i t h).mp) rfl id
    | finalize _ _ _ _ unbonding =>
      exact h.mono (fun i t h => (hs i t h).mp) unbonding.header (by rw [unbonding.phase]; exact id)
    | other _ => exact h.mono (fun i t h => (hs i t h).mp) rfl id
    | endBlock => exact h.mono (fun i t h => (hs i t h).mp) rfl (by simp)
    | endEpoch =>
      refine h.mono (fun i t h => (hs i t h).mp) ?_ (by simp)
      exact (frame_endEpoch (k := k) (n := n) (w.store.getEpochMsgs n) (w.closed n e)).header
  · have ht := fun i t h₁ hi => (h.time i t h₁ hi).2 (by simp [running])
    have hhg := fun i t h₁ hi => (h.height i t h₁ hi).2 (by simp [running])
    have hl := fun i t h₁ (hi : Ended w.store i t h₁) => (hc.calendar.tiles.stored i).mp
      (hi.2.imp fun _ hep => hep.1)
    refine ⟨?_,?_,?_⟩
    · intro i j t u h₁ h₂ hi hj hij
      rcases (he i t h₁).mp hi with ⟨rfl,rfl,rfl⟩ | ⟨hin,hi⟩
      · rcases (he j u h₂).mp hj with ⟨rfl,rfl,rfl⟩ | ⟨-,hj⟩
        · omega
        · have := hl j u h₂ hj
          omega
      · rcases (he j u h₂).mp hj with ⟨rfl,rfl,rfl⟩ | ⟨-,hj⟩
        · exact ht i t h₁ hi
        · exact h.ordered i j t u h₁ h₂ hi hj hij
    · intro i t h₁ hi
      rw [hh,hph]
      rcases (he i t h₁).mp hi with ⟨rfl,rfl,rfl⟩ | ⟨-,hi⟩
      · simp
      · exact ⟨(ht i t h₁ hi).le,by simp⟩
    · intro i t h₁ hi
      rw [hh,hph]
      rcases (he i t h₁).mp hi with ⟨rfl,rfl,rfl⟩ | ⟨-,hi⟩
      · simp
      · exact ⟨(hhg i t h₁ hi).le,by simp⟩

/-- An entry that was begun at `height`, the last block of an epoch, and that cannot complete before
the unbonding time has passed. -/
def Begun (w : World R) (height completion : Nat) : Prop :=
  ∃ i t, Ended w.store i t height ∧ t+w.staking.unbondingTime ≤ completion

structure Dated (w : World R) : Prop where
  ubdQueue : ∀ x ∈ w.staking.ubdQueue, Begun w x.creationHeight x.completionTime
  redelegationQueue : ∀ x ∈ w.staking.redelegationQueue, Begun w x.creationHeight x.completionTime

theorem Begun.mono {height completion : Nat} (h : Begun w height completion)
    (he : ∀ i t h, Ended w.store i t h → Ended w'.store i t h)
    (ht : w'.staking.unbondingTime ≤ w.staking.unbondingTime) : Begun w' height completion := by
  obtain ⟨i,t,hi,hl⟩ := h
  exact ⟨i,t,he i t height hi,by omega⟩

theorem Dated.mono (h : Dated w) (he : ∀ i t h, Ended w.store i t h → Ended w'.store i t h)
    (ht : w'.staking.unbondingTime ≤ w.staking.unbondingTime)
    (hu : w'.staking.ubdQueue.Sublist w.staking.ubdQueue)
    (hr : w'.staking.redelegationQueue.Sublist w.staking.redelegationQueue) : Dated w' :=
  ⟨fun x hx => (h.ubdQueue x (hu.subset hx)).mono he ht,
    fun x hx => (h.redelegationQueue x (hr.subset hx)).mono he ht⟩

theorem Dated.congr (h : Dated w) (hi : w'.store.epochInfo = w.store.epochInfo)
    (hs : w'.staking = w.staking) : Dated w' := by
  refine h.mono (fun i t h => (Ended.congr hi).mpr) ?_ ?_ ?_
  · rw [hs]
  · rw [hs]
  · rw [hs]

/-- What a message can do to the queues and the unbonding time. -/
inductive StakingChange (k : StakingKeeper R) (w : World R) : StakingMsg → Staking → Prop
  | same (msg : StakingMsg) : StakingChange k w msg w.staking
  | undelegate (msg : MsgUndelegate) :
      StakingChange k w (.undelegate msg) (startUnbonding msg w).staking
  | beginRedelegate (msg : MsgBeginRedelegate) :
      StakingChange k w (.beginRedelegate msg) (startRedelegation msg w).staking
  | cancel (msg : MsgCancelUnbondingDelegation) :
      StakingChange k w (.cancelUnbondingDelegation msg)
        (cancelUnbonding k w.outside.rest msg w).staking
  | updateParams (msg : MsgStakingUpdateParams) :
      StakingChange k w (.updateParams msg) (setStakingParams msg w).staking

theorem stakingChange_serve {call : Except String (Effect R)}
    {next : World R → World R × Option Failure}
    (h : ∀ effect, StakingChange k w msg (next (w.write effect)).1.staking) :
    StakingChange k w msg (w.serve call next).1.staking := by
  unfold serve
  split
  · exact .same msg
  · exact h _

theorem stakingChange_runUnwrappedMsg (w : World R) (msg : StakingMsg) :
    StakingChange k w msg (w.runUnwrappedMsg k msg).1.staking := by
  cases msg with
  | createValidator _ =>
    refine stakingChange_serve (fun effect => ?_)
    rw [recordDelegation_staking]
    exact .same _
  | delegate _ =>
    refine stakingChange_serve (fun effect => ?_)
    rw [recordDelegation_staking]
    exact .same _
  | undelegate msg =>
    refine stakingChange_serve (fun effect => ?_)
    rw [recordDelegation_staking]
    exact .undelegate msg
  | beginRedelegate msg =>
    refine stakingChange_serve (fun effect => ?_)
    rw [recordDelegation_staking]
    exact .beginRedelegate msg
  | cancelUnbondingDelegation msg =>
    refine stakingChange_serve (fun effect => ?_)
    rw [recordDelegation_staking]
    exact .cancel msg
  | editValidator _ => exact stakingChange_serve (fun effect => .same _)
  | updateParams msg => exact stakingChange_serve (fun effect => .updateParams msg)

theorem dated_stakingChange (hd : Dated w) (hn : Ended w.store n w.header.time w.header.height)
    (hc : StakingChange k w msg staking)
    (hr : ∀ m, msg = .updateParams m → m.unbondingTime ≤ w.staking.unbondingTime) :
    Dated { w with staking } := by
  cases hc with
  | same => exact hd
  | undelegate m =>
    refine ⟨?_,hd.redelegationQueue⟩
    intro x hx
    rcases mem_append.mp hx with hx | hx
    · exact hd.ubdQueue x hx
    · rw [mem_singleton.mp hx]
      exact ⟨n,w.header.time,hn,Nat.le_refl _⟩
  | beginRedelegate m =>
    refine ⟨hd.ubdQueue,?_⟩
    intro x hx
    rcases mem_append.mp hx with hx | hx
    · exact hd.redelegationQueue x hx
    · rw [mem_singleton.mp hx]
      exact ⟨n,w.header.time,hn,Nat.le_refl _⟩
  | cancel m =>
    exact hd.mono (fun _ _ _ h => h) (Nat.le_refl _) filter_sublist (List.Sublist.refl _)
  | updateParams m =>
    exact hd.mono (fun _ _ _ h => h) (hr m rfl) (List.Sublist.refl _) (List.Sublist.refl _)

theorem StakingChange.of_fromPool {addr : Address} {coin : Coin}
    (h : StakingChange k (w.fromPool addr coin) msg staking) : StakingChange k w msg staking := by
  cases h with
  | same => exact .same _
  | undelegate m => exact .undelegate m
  | beginRedelegate m => exact .beginRedelegate m
  | cancel m => exact .cancel m
  | updateParams m => exact .updateParams m

theorem handleQueuedMsg_staking (n : Nat) (w : World R) (msg : QueuedMessage) :
    StakingChange k w msg.msg (handleQueuedMsg k n w msg).staking := by
  unfold handleQueuedMsg
  split
  · exact .same _
  · rename_i unlocked hu
    rcases unlockFundsForDelegateMsgs_eq_ok.mp hu with ⟨-,rfl⟩ | ⟨addr,coin, -, -,rfl⟩
    · exact stakingChange_runUnwrappedMsg _ msg.msg
    · exact (stakingChange_runUnwrappedMsg (w.fromPool addr coin) msg.msg).of_fromPool

theorem StakingChange.unbondingTime {msg : QueuedMessage} (h : StakingChange k w msg.msg staking) :
    staking.unbondingTime = w.staking.unbondingTime ∨
      newUnbondingTime msg = some staking.unbondingTime := by
  cases msg with
  | mk _ _ _ _ =>
    cases h with
    | same => exact .inl rfl
    | undelegate m => exact .inl rfl
    | beginRedelegate m => exact .inl rfl
    | cancel m => exact .inl rfl
    | updateParams m => exact .inr rfl

theorem dated_foldl (msgs : List QueuedMessage) (hd : Dated w)
    (hn : Ended w.store n w.header.time w.header.height)
    (hfl : (w.staking.unbondingTime :: msgs.filterMap newUnbondingTime).Pairwise (· ≥ ·)) :
    Dated (msgs.foldl (handleQueuedMsg k n) w) := by
  induction msgs generalizing w with
  | nil => exact hd
  | cons msg msgs ih =>
    have hc := handleQueuedMsg_staking (k := k) n w msg
    have hf := frame_handleQueuedMsg (k := k) n w msg
    obtain ⟨hh,ht⟩ := pairwise_cons.mp hfl
    have hr : ∀ m, msg.msg = .updateParams m → m.unbondingTime ≤ w.staking.unbondingTime := by
      intro m hm
      refine hh _ (mem_filterMap.mpr ⟨msg,mem_cons_self,?_⟩)
      simp only [newUnbondingTime,hm]
    have hdt : Dated (handleQueuedMsg k n w msg) :=
      (dated_stakingChange hd hn hc hr).congr hf.store.epochInfo rfl
    have hn' : Ended (handleQueuedMsg k n w msg).store n (handleQueuedMsg k n w msg).header.time
        (handleQueuedMsg k n w msg).header.height := by
      rw [hf.header]
      exact (Ended.congr hf.store.epochInfo).mpr hn
    refine ih hdt hn' ?_
    rcases hc.unbondingTime with hs | hne
    · rw [hs]
      refine hfl.sublist (List.Sublist.cons_cons _ ?_)
      exact (sublist_cons_self msg msgs).filterMap _
    · rwa [filterMap_cons,hne] at ht

def isCompletion : Event → Bool
  | .completedUnbonding _ _ => true
  | .completedRedelegation _ _ => true
  | _ => false

def completions (w : World R) : List Event := w.history.filter isCompletion

/-- A completion of an entry that was begun in epoch `m` or before it. -/
def Timely (s : Store) : Event → Prop
  | .completedUnbonding m x => ∃ i t, i ≤ m ∧ Ended s i t x.creationHeight
  | .completedRedelegation m x => ∃ i t, i ≤ m ∧ Ended s i t x.creationHeight
  | _ => True

theorem Timely.mono {s s' : Store} (h : ∀ i t h, Ended s i t h → Ended s' i t h) {ev : Event}
    (ht : Timely s ev) : Timely s' ev := by
  cases ev with
  | completedUnbonding m x =>
    obtain ⟨i,t,hi,he⟩ := ht
    exact ⟨i,t,hi,h i t _ he⟩
  | completedRedelegation m x =>
    obtain ⟨i,t,hi,he⟩ := ht
    exact ⟨i,t,hi,h i t _ he⟩
  | enqueued => trivial
  | unlockFundsFailed => trivial
  | handled => trivial

theorem completions_handleQueuedMsg (n : Nat) (w : World R) (msg : QueuedMessage) :
    completions (handleQueuedMsg k n w msg) = completions w := by
  unfold handleQueuedMsg completions
  split
  · simp [isCompletion]
  · rename_i unlocked hu
    have hr := (served_runUnwrappedMsg (k := k) unlocked msg.msg).history
    have hun : unlocked.history = w.history := by
      rcases unlockFundsForDelegateMsgs_eq_ok.mp hu with ⟨-,rfl⟩ | ⟨addr,coin, -, -,rfl⟩
      · rfl
      · rfl
    simp [isCompletion,hr,hun]

theorem completions_endEpoch (msgs : List QueuedMessage) (w : World R) :
    completions (updateValidatorSet k (msgs.foldl (handleQueuedMsg k n) w)) = completions w := by
  have hl : completions (msgs.foldl (handleQueuedMsg k n) w) = completions w := by
    induction msgs generalizing w with
    | nil => rfl
    | cons msg _ ih => exact (ih _).trans (completions_handleQueuedMsg n w msg)
  exact hl

theorem timely_of_matured (he : Ends w) (hd : Dated w) {m time height : Nat}
    (hm : Ended w.store m time height)
    {ev : Event} (hev : Matured w m (time+w.staking.unbondingTime) ev) : Timely w.store ev := by
  have hen : ∀ h c, Begun w h c → c ≤ time+w.staking.unbondingTime → ∃ i t, i ≤ m ∧
      Ended w.store i t h := by
    rintro h c ⟨i,t,hi,hle⟩ hc
    refine ⟨i,t,Nat.le_of_not_lt (fun hl => ?_),hi⟩
    have := he.ordered m i time t height h hm hi hl
    omega
  rcases hev with ⟨x,hx,hc,rfl⟩ | ⟨x,hx,hc,rfl⟩
  · exact hen _ _ (hd.ubdQueue x hx) hc
  · exact hen _ _ (hd.redelegationQueue x hx) hc

theorem moves_keep_ended (hc : OnCalendar w n e) (he : Ends w)
    (hm : Moves k n e w a n' e' w') {i t h : Nat}
    (hi : Ended w.store i t h) : Ended w'.store i t h := by
  rcases moves_ended hc hm with hs | ⟨running,height, -, -,hen⟩
  · exact (hs i t h).mpr hi
  · refine (hen i t h).mpr (.inr ⟨fun hin => ?_,hi⟩)
    subst hin
    exact he.not_ended hc running hi

/-- The ends of the epochs are in order, the entries of the queues have their dates, and nothing was
completed too early. -/
structure Waits (w : World R) : Prop where
  ends : Ends w
  dated : Dated w
  timely : ∀ ev ∈ completions w, Timely w.store ev

theorem moves_dated (hc : OnCalendar w n e) (he : Ends w) (hd : Dated w)
    (hm : Moves k n e w a n' e' w') (hg : NeverRaises w a w') : Dated w' := by
  have hk : ∀ i t h, Ended w.store i t h → Ended w'.store i t h :=
    fun i t h => moves_keep_ended hc he hm
  have hs : w'.staking = w.staking → Dated w' := by
    intro hst
    refine hd.mono hk ?_ ?_ ?_
    · rw [hst]
    · rw [hst]
    · rw [hst]
  cases hm with
  | startBlock => exact hs rfl
  | nextEpoch => exact hs rfl
  | lastBlock => exact hs rfl
  | innerBlock => exact hs rfl
  | deliver _ _ lock =>
    refine hs ?_
    rcases lockFundsForDelegateMsgs_eq_ok.mp lock with ⟨-,rfl⟩ | ⟨addr,coin, -, -,rfl⟩
    · rfl
    · rfl
  | updateParams => exact hs rfl
  | slash => exact hs rfl
  | finalize _ _ _ _ unbonding =>
    exact hd.mono hk unbonding.unbondingTime.le unbonding.ubdQueue unbonding.redelegationQueue
  | other => exact hs rfl
  | endBlock => exact hs rfl
  | endEpoch running height =>
    have hn := hc.number_pos running
    have hcl : Dated (w.closed n e) := by
      refine hd.mono (fun i t h hi => ?_) (Nat.le_refl _) (List.Sublist.refl _)
        (List.Sublist.refl _)
      refine (ended_setLastBlockTime hc.calendar hn w.header.time).mpr (.inr ⟨fun hin => ?_,hi⟩)
      subst hin
      exact he.not_ended hc running hi
    have hnw : Ended (w.closed n e).store n w.header.time w.header.height :=
      (ended_setLastBlockTime hc.calendar hn w.header.time).mpr (.inl ⟨rfl,rfl,height.symm⟩)
    have hf := hg e hc.calendar.getEpoch
    rw [hc.calendar.number] at hf
    have hl := dated_foldl (k := k) (w.store.getEpochMsgs n) hcl hnw hf
    have hfr := frame_updateValidatorSet (k := k)
      ((w.store.getEpochMsgs n).foldl (handleQueuedMsg k n) (w.closed n e))
    exact hl.mono (fun i t h => (Ended.congr hfr.store.epochInfo).mpr) (Nat.le_refl _)
      (List.Sublist.refl _) (List.Sublist.refl _)

theorem moves_waits (hc : OnCalendar w n e) (h : Waits w) (hm : Moves k n e w a n' e' w')
    (hg : NeverRaises w a w') : Waits w' := by
  refine ⟨moves_ends hc h.ends hm,moves_dated hc h.ends h.dated hm hg,?_⟩
  have hk : ∀ i t h, Ended w.store i t h → Ended w'.store i t h :=
    fun i t h' => moves_keep_ended hc h.ends hm
  have hs : completions w' = completions w → ∀ ev ∈ completions w', Timely w'.store ev := by
    intro heq ev hev
    rw [heq] at hev
    exact (h.timely ev hev).mono hk
  cases hm with
  | startBlock => exact hs rfl
  | nextEpoch => exact hs rfl
  | lastBlock => exact hs rfl
  | innerBlock => exact hs rfl
  | deliver _ _ lock =>
    refine hs ?_
    rcases lockFundsForDelegateMsgs_eq_ok.mp lock with ⟨-,rfl⟩ | ⟨addr,coin, -, -,rfl⟩
    · simp [completions,queued,isCompletion]
    · simp [completions,queued,isCompletion,toPool]
  | updateParams => exact hs rfl
  | slash => exact hs rfl
  | finalize _ _ stored recorded unbonding =>
    obtain ⟨events,he,hmt⟩ := unbonding.history
    intro ev hev
    have hen : Ended w.store (w.lastFinalizedEpoch+1) _ _ := ⟨by omega,_,stored,recorded,rfl⟩
    simp only [completions,he,filter_append,mem_append] at hev
    rcases hev with hev | hev
    · exact (h.timely ev hev).mono hk
    · exact (timely_of_matured h.ends h.dated hen (hmt ev (mem_filter.mp hev).1)).mono hk
  | other => exact hs rfl
  | endBlock => exact hs rfl
  | endEpoch _ _ => exact hs (completions_endEpoch _ (w.closed n e))

theorem reachable_waits (h : ((system k).restrict NeverRaises).Reachable w) :
    ∃ n e, OnCalendar w n e ∧ Waits w := by
  refine reachable_invariant (P := fun w _ _ => Waits w) ?_ ?_ h
  · intro gs w e hs hc
    have hn : ∀ i t h, ¬ Ended w.store i t h := by
      rintro i t h ⟨hi,ep,he, -⟩
      have hl := (hc.calendar.tiles.stored i).mp ⟨ep,he⟩
      omega
    refine ⟨⟨?_,?_,?_⟩,⟨?_,?_⟩,?_⟩
    · exact fun i _ t _ h _ hi => absurd hi (hn i t h)
    · exact fun i t h hi => absurd hi (hn i t h)
    · exact fun i t h hi => absurd hi (hn i t h)
    · simp [hs.ubdQueue]
    · simp [hs.redelegationQueue]
    · simp [completions,hs.history]
  · intro w n e a n' e' w' hc hw hm hg
    exact moves_waits hc hw hm hg

/-- The block at `height` belongs to an epoch not later than `m`. -/
def BegunBy (w : World R) (m height : Nat) : Prop :=
  ∃ ep ∈ w.store.epochs, ep.epochNumber ≤ m ∧ ep.withinBoundary height = true

theorem begunBy_of_ended (hc : OnCalendar w n e) {i t m height : Nat} (hi : i ≤ m)
    (h : Ended w.store i t height) : BegunBy w m height := by
  obtain ⟨-,ep,he, -,hl⟩ := h
  refine ⟨ep,mem_epochs.mpr ⟨i,he⟩,?_,?_⟩
  · rw [hc.calendar.numbered i ep he]
    exact hi
  · have hn := hc.calendar.tiles.nonempty i ep he
    rw [Epoch.withinBoundary_iff,← hl]
    exact ⟨hn,Nat.le_refl _⟩

/-- Where no executed update raises the unbonding time, an unbonding or redelegation that the
finalization of epoch `m` completes was started in an epoch not later than `m`. -/
theorem unbonding_waits_for_checkpoint (h : ((system k).restrict NeverRaises).Reachable w) :
    (∀ m x, Event.completedUnbonding m x ∈ w.history → BegunBy w m x.creationHeight) ∧
      ∀ m x, Event.completedRedelegation m x ∈ w.history → BegunBy w m x.creationHeight := by
  obtain ⟨n,e,hc,hw⟩ := reachable_waits h
  constructor
  · intro m x hx
    obtain ⟨i,t,hi,he⟩ := hw.timely _ (mem_filter.mpr ⟨hx,rfl⟩)
    exact begunBy_of_ended hc hi he
  · intro m x hx
    obtain ⟨i,t,hi,he⟩ := hw.timely _ (mem_filter.mpr ⟨hx,rfl⟩)
    exact begunBy_of_ended hc hi he

open Epoching.Regtest

def undelegation : StakingMsg := .undelegate ⟨accString staker,valString operator,⟨denom,5⟩⟩

def stakingUpdate (unbondingTime : Nat) : StakingMsg := .updateParams ⟨[7],unbondingTime,denom,[]⟩

def neverRaises (w : World Unit) (_ : Action Unit) : Bool :=
  match w.store.getEpoch with
  | .ok epoch =>
    (w.staking.unbondingTime :: (w.store.getEpochMsgs epoch.epochNumber).filterMap
      newUnbondingTime).Pairwise (· ≥ ·)
  | .error _ => true

theorem neverRaises_spec (w : World Unit) (a : Action Unit) (w' : World Unit)
    (h : neverRaises w a = true) : NeverRaises w a w' := by
  intro epoch he
  simp only [neverRaises,he] at h
  exact of_decide_eq_true h

def isUnbondingAt (m height : Nat) : Event → Bool
  | .completedUnbonding m' x => m' = m ∧ x.creationHeight = height
  | _ => false

theorem mem_of_isUnbondingAt {history : List Event} {m height : Nat}
    (h : history.any (isUnbondingAt m height) = true) :
    ∃ x, Event.completedUnbonding m x ∈ history ∧ x.creationHeight = height := by
  obtain ⟨ev,he,ht⟩ := any_eq_true.mp h
  cases ev with
  | completedUnbonding m' x =>
    obtain ⟨rfl,rfl⟩ := of_decide_eq_true ht
    exact ⟨x,he,rfl⟩
  | enqueued => cases ht
  | unlockFundsFailed => cases ht
  | handled => cases ht
  | completedRedelegation => cases ht

/-- An unbonding of epoch 1 completes with the checkpoint of epoch 1. -/
theorem unbonding_waits_one_epoch :
    ∃ w, ((system keeper).restrict NeverRaises).Reachable w ∧
      ∃ x, Event.completedUnbonding 1 x ∈ w.history ∧ BegunBy w 1 x.creationHeight := by
  have hrn : holds ((block 1 [.deliver [1] undelegation,
      .deliver [2] (stakingUpdate 50)] ++ block 2 [] ++
      block 3 [] ++ [Action.finalize]).foldlM (next neverRaises)
        (genesis 2 (Epoch.new 0 1 0 (some 0))))
      (fun w => w.history.any (isUnbondingAt 1 2)) = true := by decide +kernel
  obtain ⟨w,hr,ht⟩ := reachable_run neverRaises_spec (by decide) hrn
  obtain ⟨x,hx, -⟩ := mem_of_isUnbondingAt ht
  exact ⟨w,hr,x,hx,(unbonding_waits_for_checkpoint hr).1 1 x hx⟩

/-- The unbonding time is raised from 50 to 200 at the end of epoch 2, right after an unbonding was
started: the checkpoint of epoch 1 completes it. -/
theorem unbonding_completed_too_early :
    ∃ w, (system keeper).Reachable w ∧
      ∃ x, Event.completedUnbonding 1 x ∈ w.history ∧ ¬ BegunBy w 1 x.creationHeight := by
  have hrn : holds ((block 1 [] ++ block 2 [] ++
      block 3 [.deliver [1] undelegation,.deliver [2] (stakingUpdate 200)] ++ block 4 [] ++
      block 5 [] ++ [Action.finalize]).foldlM (next fun _ _ => true)
        (genesis 2 (Epoch.new 0 1 0 (some 0))))
      (fun w => w.history.any (isUnbondingAt 1 4) &&
        decide (∀ ep ∈ w.store.epochs, ep.epochNumber ≤ 1 →
          ep.withinBoundary 4 = false)) = true := by
    decide +kernel
  obtain ⟨w,hr,ht⟩ := reachable_run (G := fun _ _ _ => True)
    (fun _ _ _ _ => trivial) (by decide) hrn
  rw [Bool.and_eq_true] at ht
  obtain ⟨x,hx,hh⟩ := mem_of_isUnbondingAt ht.1
  refine ⟨w,hr.of_restrict,x,hx,?_⟩
  rintro ⟨ep,he,hl,hi⟩
  rw [hh,of_decide_eq_true ht.2 ep he hl] at hi
  cases hi

end AnonChain.Epoching.World
