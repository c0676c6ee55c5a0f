import AnonChain.Epoching.Calendar
import AnonChain.Lib.Indexed

/-! The queues of the epochs against the history of a run, with the funds locked for them. -/

namespace AnonChain.Epoching

open Lib List KVStore

def amountOf (d : Denom) : StakingMsg → Nat
  | .delegate msg => if msg.amount.denom = d then msg.amount.amount else 0
  | .createValidator msg => if msg.value.denom = d then msg.value.amount else 0
  | _ => 0

def lockedOf (msg : StakingMsg) (a : Address) (d : Denom) : Nat :=
  match World.extractAddrAndCoinsFromMsg msg with
  | .ok (some (addr,coin)) => if a = addr ∧ d = coin.denom then coin.amount else 0
  | _ => 0

def Event.enqueuedIn (n : Nat) : Event → Option QueuedMessage
  | .enqueued m msg _ _ => if m = n then some msg else none
  | _ => none

def Event.handledIn (n : Nat) : Event → Option QueuedMessage
  | .handled m _ msg _ _ _ => if m = n then some msg else none
  | _ => none

namespace World

variable {R : Type} {k : StakingKeeper R} {w w' : World R} {n n' : Nat}
  {e e' : Epoch} {a : Action R} {msg : StakingMsg} {events : List Event}

def enqueued (w : World R) (n : Nat) : List QueuedMessage :=
  w.history.filterMap (Event.enqueuedIn n)

def handled (w : World R) (n : Nat) : List QueuedMessage := w.history.filterMap (Event.handledIn n)

theorem extract_of_addressed (h : WellAddressed msg) :
    (extractAddrAndCoinsFromMsg msg = .ok none ∧ ∀ d, amountOf d msg = 0) ∨
      ∃ addr coin, extractAddrAndCoinsFromMsg msg = .ok (some (addr,coin)) ∧
        ∀ d, amountOf d msg = if coin.denom = d then coin.amount else 0 := by
  cases msg with
  | createValidator msg =>
    obtain ⟨addr,ha⟩ := h
    exact .inr ⟨addr,msg.value,by simp [extractAddrAndCoinsFromMsg,ha,bind,Except.bind,
      pure,Except.pure],fun d => rfl⟩
  | delegate msg =>
    obtain ⟨p,hp⟩ := h
    simp only [parseDelValAddr,bind_eq_ok] at hp
    obtain ⟨addr,ha, -⟩ := hp
    exact .inr ⟨addr,msg.amount,by simp [extractAddrAndCoinsFromMsg,ha,bind,Except.bind,
      pure,Except.pure],fun d => rfl⟩
  | undelegate _ => exact .inl ⟨rfl,fun d => rfl⟩
  | beginRedelegate _ => exact .inl ⟨rfl,fun d => rfl⟩
  | cancelUnbondingDelegation _ => exact .inl ⟨rfl,fun d => rfl⟩
  | editValidator _ => exact .inl ⟨rfl,fun d => rfl⟩
  | updateParams _ => exact .inl ⟨rfl,fun d => rfl⟩

theorem lock_spec (ha : WellAddressed msg) (h : w.lockFundsForDelegateMsgs msg = .ok w') :
    (∀ d, w'.pool d = w.pool d+amountOf d msg) ∧
      (∀ addr d, w.outside.balances addr d = w'.outside.balances addr d+lockedOf msg addr d) ∧
      w'.history = w.history := by
  rcases lockFundsForDelegateMsgs_eq_ok.mp h with ⟨hx,rfl⟩ | ⟨addr,coin,hx,hl,rfl⟩
  · rcases extract_of_addressed ha with ⟨-,h0⟩ | ⟨_,_,hx', -⟩
    · exact ⟨by simp [h0],by simp [lockedOf,hx],rfl⟩
    · rw [hx] at hx'
      cases hx'
  · rcases extract_of_addressed ha with ⟨hx', -⟩ | ⟨addr',coin',hx',ham⟩
    · rw [hx] at hx'
      cases hx'
    · rw [hx] at hx'
      cases hx'
      refine ⟨fun d => ?_,fun b d => ?_,rfl⟩
      · rw [ham]
        by_cases hd : coin.denom = d
        · simp [toPool,setPool,hd]
        · simp [toPool,setPool,hd,Ne.symm hd]
      · by_cases hb : b = addr ∧ d = coin.denom
        · obtain ⟨rfl,rfl⟩ := hb
          simp [toPool,setBalance,lockedOf,hx]
          omega
        · simp [toPool,setBalance,lockedOf,hx,hb]

theorem unlock_spec (ha : WellAddressed msg) (hp : ∀ d, amountOf d msg ≤ w.pool d) :
    ∃ w', w.unlockFundsForDelegateMsgs msg = .ok w' ∧ (∀ d, w.pool d = w'.pool d+amountOf d msg) ∧
      (∀ addr d, w'.outside.balances addr d = w.outside.balances addr d+lockedOf msg addr d) ∧
      w'.history = w.history ∧ w'.header = w.header := by
  rcases extract_of_addressed ha with ⟨hx,h0⟩ | ⟨addr,coin,hx,ham⟩
  · exact ⟨w,unlockFundsForDelegateMsgs_eq_ok.mpr (.inl ⟨hx,rfl⟩),
      by simp [h0],by simp [lockedOf,hx],rfl,rfl⟩
  · have hl : coin.amount ≤ w.pool coin.denom := by
      have := hp coin.denom
      rwa [ham,if_pos rfl] at this
    refine ⟨w.fromPool addr coin,unlockFundsForDelegateMsgs_eq_ok.mpr (.inr ⟨addr,coin,hx,hl,rfl⟩),
      ?_,?_,rfl,rfl⟩
    · intro d
      rw [ham]
      by_cases hd : coin.denom = d
      · subst hd
        simp [fromPool,setPool]
        omega
      · simp [fromPool,setPool,hd,Ne.symm hd]
    · intro b d
      by_cases hb : b = addr ∧ d = coin.denom
      · obtain ⟨rfl,rfl⟩ := hb
        simp [fromPool,setBalance,lockedOf,hx]
      · simp [fromPool,setBalance,lockedOf,hx,hb]

theorem runUnwrappedMsg_failed (ha : WellAddressed msg) (hne : ∀ m, msg ≠ .createValidator m)
    {f : Failure} (h : (w.runUnwrappedMsg k msg).2 = some f) : (w.runUnwrappedMsg k msg).1 = w := by
  have hs : ∀ (call : Except String (Effect R)) (next : World R → World R × Option Failure),
      (∀ w, (next w).2 = none) → (w.serve call next).2 = some f → (w.serve call next).1 = w := by
    intro call next hn hf
    unfold serve at hf ⊢
    split at hf
    · rfl
    · rw [hn] at hf
      cases hf
  have hr : ∀ {d v : Bech32} {amount : Coin} {states : List BondState},
      (∃ p, parseDelValAddr d v = .ok p) → ∀ w :
    World R, (recordDelegation d v amount states w).2 = none := by
    rintro d v amount states ⟨p,hp⟩ w
    simp [recordDelegation,hp]
  cases msg with
  | createValidator m => exact absurd rfl (hne m)
  | delegate m => exact hs _ _ (hr ha) h
  | undelegate m => exact hs _ _ (fun w => hr ha _) h
  | beginRedelegate m => exact hs _ _ (fun w => hr ha _) h
  | cancelUnbondingDelegation m => exact hs _ _ (fun w => hr ha _) h
  | editValidator m => exact hs _ _ (fun w => rfl) h
  | updateParams m => exact hs _ _ (fun w => rfl) h

/-- The record of the execution of `msg` at `height`; a failure gives the locked coins back, unless
the message creates a validator. -/
def Records (n height : Nat) (msg : QueuedMessage) (ev : Event) : Prop :=
  ∃ error before after, ev = .handled n height msg error before after ∧
    (error ≠ none → (∀ m, msg.msg ≠ .createValidator m) →
      ∀ addr d, after addr d = before addr d+lockedOf msg.msg addr d)

theorem handleQueuedMsg_spec {msg : QueuedMessage} (ha : WellAddressed msg.msg)
    (hp : ∀ d, amountOf d msg.msg ≤ w.pool d) :
    (∀ d, w.pool d = (handleQueuedMsg k n w msg).pool d+amountOf d msg.msg) ∧
      ∃ ev, (handleQueuedMsg k n w msg).history = w.history ++ [ev] ∧
      Records n w.header.height msg ev := by
  obtain ⟨unlocked,hu,hpl,hb,hh,hhd⟩ := unlock_spec ha hp
  have hr := served_runUnwrappedMsg (k := k) unlocked msg.msg
  unfold handleQueuedMsg
  rw [hu]
  refine ⟨fun d => ?_,?_⟩
  · rw [hr.pool]
    exact hpl d
  · refine ⟨_,?_,(unlocked.runUnwrappedMsg k msg.msg).2,w.outside.balances,
      (unlocked.runUnwrappedMsg k msg.msg).1.outside.balances,rfl,?_⟩
    · change (unlocked.runUnwrappedMsg k msg.msg).1.history ++ _ = _
      rw [hr.history,hh]
    · intro he hn addr d
      obtain ⟨f,hf⟩ := Option.ne_none_iff_exists'.mp he
      rw [runUnwrappedMsg_failed ha hn hf]
      exact hb addr d

def totalOf (d : Denom) (msgs : List QueuedMessage) : Nat :=
  (msgs.map (fun m => amountOf d m.msg)).sum

/-- Executing the queue takes its coins out of the pool and records every message once, in order. -/
theorem drain (msgs : List QueuedMessage) (ha : ∀ m ∈ msgs, WellAddressed m.msg)
    (hp : ∀ d, totalOf d msgs ≤ w.pool d) :
    (∀ d, w.pool d = (msgs.foldl (handleQueuedMsg k n) w).pool d+totalOf d msgs) ∧
      ∃ events, (msgs.foldl (handleQueuedMsg k n) w).history = w.history ++ events ∧
        List.Forall₂ (Records n w.header.height) msgs events := by
  induction msgs generalizing w with
  | nil => exact ⟨fun d => by simp [totalOf],[],by simp,.nil⟩
  | cons msg msgs ih =>
    have hms := ha msg mem_cons_self
    have hs : ∀ d, totalOf d (msg :: msgs) = amountOf d msg.msg+totalOf d msgs :=
      fun d => by simp [totalOf]
    have hf : ∀ d, amountOf d msg.msg ≤ w.pool d := by
      intro d
      have := hp d
      rw [hs] at this
      omega
    obtain ⟨hpl,ev,hev,hr⟩ := handleQueuedMsg_spec (k := k) (n := n) hms hf
    have hrs : ∀ d, totalOf d msgs ≤ (handleQueuedMsg k n w msg).pool d := by
      intro d
      have ht := hp d
      have ho := hpl d
      rw [hs] at ht
      omega
    obtain ⟨hpl',events,he,hal⟩ := ih (fun m hm => ha m (mem_cons_of_mem msg hm)) hrs
    refine ⟨fun d => ?_,ev :: events,?_,?_⟩
    · have ho := hpl d
      have htw := hpl' d
      rw [hs]
      simp only [foldl_cons]
      omega
    · rw [foldl_cons,he,hev,append_assoc]
      rfl
    · refine .cons hr ?_
      rw [(frame_handleQueuedMsg (k := k) n w msg).header] at hal
      exact hal

theorem records_project {height : Nat} {msgs : List QueuedMessage}
    (h : List.Forall₂ (Records n height) msgs events) (m : Nat) :
    events.filterMap (Event.enqueuedIn m) = [] ∧
      events.filterMap (Event.handledIn m) = if m = n then msgs else [] := by
  induction h with
  | nil => simp
  | cons hr _ ih =>
    obtain ⟨error,before,after,rfl, -⟩ := hr
    refine ⟨?_,?_⟩
    · exact ih.1
    · rw [filterMap_cons,ih.2]
      by_cases hm : m = n
      · simp [Event.handledIn,hm]
      · simp [Event.handledIn,hm,Ne.symm hm]

/-- The queue of epoch `e` has been executed: its last block is over. -/
def Executed (w : World R) (e : Epoch) : Prop :=
  e.getLastBlockHeight < w.header.height ∨
    (w.phase = .idle ∧ e.getLastBlockHeight = w.header.height)

/-- The queues hold what was enqueued, and the pool holds the coins of what is still to be
executed. -/
structure Queues (w : World R) (n : Nat) (e : Epoch) : Prop where
  indexed : ∀ m, (w.store.msgQueue.sub m).Indexed (w.enqueued m)
  length : ∀ m, w.store.getQueueLength m = (w.enqueued m).length
  future : ∀ m, n < m → w.enqueued m = []
  addressed : ∀ m, ∀ msg ∈ w.enqueued m, WellAddressed msg.msg
  done : ∀ m, m < n ∨ (m = n ∧ Executed w e) → w.handled m = w.enqueued m
  waiting : ∀ m, ¬ (m < n ∨ (m = n ∧ Executed w e)) → w.handled m = []
  poolEmpty : Executed w e → ∀ d, w.pool d = 0
  poolFull : ¬ Executed w e → ∀ d, w.pool d = totalOf d (w.enqueued n)

theorem Queues.epochMsgs (h : Queues w n e) (m : Nat) : w.store.getEpochMsgs m = w.enqueued m :=
  (h.indexed m).values

theorem Queues.congr (h : Queues w n e) (hq : w'.store.msgQueue = w.store.msgQueue)
    (hl : w'.store.queueLength = w.store.queueLength) (hp : w'.pool = w.pool)
    (he : ∀ m, w'.enqueued m = w.enqueued m) (hh : ∀ m, w'.handled m = w.handled m)
    (hex : Executed w' e' ↔ Executed w e) : Queues w' n e' := by
  refine ⟨?_,?_,?_,?_,?_,?_,?_,?_⟩
  · intro m
    rw [hq,he]
    exact h.indexed m
  · intro m
    rw [Store.getQueueLength,hl,he]
    exact h.length m
  · intro m hm
    rw [he]
    exact h.future m hm
  · intro m msg hms
    rw [he] at hms
    exact h.addressed m msg hms
  · intro m hm
    rw [hex] at hm
    rw [he,hh]
    exact h.done m hm
  · intro m hm
    rw [hex] at hm
    rw [hh]
    exact h.waiting m hm
  · intro hx d
    rw [hp]
    exact h.poolEmpty (hex.mp hx) d
  · intro hx d
    rw [hp,he]
    exact h.poolFull (fun hx' => hx (hex.mpr hx')) d

theorem enqueued_append (w w' : World R) (hh : w'.history = w.history ++ events) (m : Nat) :
    w'.enqueued m = w.enqueued m ++ events.filterMap (Event.enqueuedIn m) := by
  simp [enqueued,hh,filterMap_append]

theorem handled_append (w w' : World R) (hh : w'.history = w.history ++ events) (m : Nat) :
    w'.handled m = w.handled m ++ events.filterMap (Event.handledIn m) := by
  simp [handled,hh,filterMap_append]

theorem not_executed (hc : OnCalendar w n e) (hr : w.phase = .running) : ¬ Executed w e := by
  have hl := hc.le_last (by simp [hr])
  rintro (hlt | ⟨hi, -⟩)
  · omega
  · rw [hr] at hi
    cases hi

theorem Queues.deliver (hc : OnCalendar w n e) (h : Queues w n e) {txid : Bytes} {rest : R}
    {locked : World R} (running : w.phase = .running) (addressed : WellAddressed msg)
    (lock : ({ w with outside := { w.outside with rest } } : World R).lockFundsForDelegateMsgs msg =
      .ok locked) :
    Queues (locked.queued n w.outside.balances (w.newQueuedMessage txid msg)) n e := by
  set v := locked.queued n w.outside.balances (w.newQueuedMessage txid msg)
  obtain ⟨hp, -,hhs⟩ := lock_spec addressed lock
  have hf := frame_lock lock
  have ho := not_executed hc running
  have he : ∀ m, v.enqueued m =
      if m = n then w.enqueued m ++ [w.newQueuedMessage txid msg] else w.enqueued m := by
    intro m
    have hq := enqueued_append locked v rfl m
    have hl : locked.enqueued m = w.enqueued m := congrArg (filterMap (Event.enqueuedIn m)) hhs
    rw [hq,hl]
    by_cases hm : m = n
    · simp [Event.enqueuedIn,hm]
    · simp [Event.enqueuedIn,hm,Ne.symm hm]
  have hh : ∀ m, v.handled m = w.handled m := by
    intro m
    have hq := handled_append locked v rfl m
    have hl : locked.handled m = w.handled m := congrArg (filterMap (Event.handledIn m)) hhs
    rw [hq,hl]
    simp [Event.handledIn]
  have hex : Executed v e ↔ Executed w e := by
    unfold Executed
    rw [show v.header = w.header from hf.header,show v.phase = w.phase from hf.phase]
  have hqu : locked.store.msgQueue = w.store.msgQueue := hf.store.msgQueue
  have hln : locked.store.queueLength = w.store.queueLength := hf.store.queueLength
  have hle : locked.store.getQueueLength n = (w.enqueued n).length := by
    rw [Store.getQueueLength,hln]
    exact h.length n
  refine ⟨?_,?_,?_,?_,?_,?_,?_,?_⟩
  · intro m
    rw [he]
    change ((locked.store.msgQueue.set₂ n (locked.store.getQueueLength n) _).sub m).Indexed _
    rw [sub_set₂,hle,hqu]
    split
    · rename_i hm
      subst hm
      exact (h.indexed m).snoc _
    · exact h.indexed m
  · intro m
    rw [he]
    change (locked.store.queueLength.set n (locked.store.getQueueLength n+1)).getD m 0 = _
    rw [getD_set,hle,hln]
    split
    · rename_i hm
      simp [hm]
    · exact h.length m
  · intro m hm
    rw [he,if_neg (by omega)]
    exact h.future m hm
  · intro m q hq
    rw [he] at hq
    split at hq
    · rcases mem_append.mp hq with hq | hq
      · exact h.addressed m q hq
      · rw [mem_singleton.mp hq]
        exact addressed
    · exact h.addressed m q hq
  · intro m hm
    rw [hex] at hm
    have hn : m ≠ n := by
      rintro rfl
      rcases hm with hlt | ⟨-,hx⟩
      · omega
      · exact ho hx
    rw [he,if_neg hn,hh]
    exact h.done m hm
  · intro m hm
    rw [hex] at hm
    rw [hh]
    exact h.waiting m hm
  · intro hx
    exact absurd (hex.mp hx) ho
  · intro _ d
    rw [he,if_pos rfl]
    change locked.pool d = _
    rw [hp d]
    have hfl := h.poolFull ho d
    simp only [totalOf,map_append,sum_append] at hfl ⊢
    simp [hfl,newQueuedMessage]

def closing (k : StakingKeeper R) (n : Nat) (e : Epoch) (w : World R) : World R :=
  { updateValidatorSet k ((w.store.getEpochMsgs n).foldl (handleQueuedMsg k n)
      (w.closed n e)) with phase := .idle }

theorem closing_history (hc : OnCalendar w n e) (h : Queues w n e) (running : w.phase = .running) :
    (∀ d, (closing k n e w).pool d = 0) ∧ ∃ events, (closing k n e w).history =
      w.history ++ events ∧ List.Forall₂ (Records n w.header.height) (w.enqueued n) events := by
  have ho := not_executed hc running
  obtain ⟨hp,events,he,ha⟩ := drain (k := k) (n := n)
    (w := w.closed n e)
    (w.enqueued n) (h.addressed n) (fun d => (h.poolFull ho d).ge)
  have hcl : closing k n e w = { updateValidatorSet k ((w.enqueued n).foldl (handleQueuedMsg k n)
      (w.closed n e)) with phase := .idle } := by
    rw [closing,h.epochMsgs n]
  rw [hcl]
  refine ⟨fun d => ?_,events,he,ha⟩
  have ht : w.pool d = _ := hp d
  have hf := h.poolFull ho d
  change ((w.enqueued n).foldl (handleQueuedMsg k n) _).pool d = 0
  omega

theorem Queues.endEpoch (hc : OnCalendar w n e) (h : Queues w n e) (running : w.phase = .running)
    (height : e.getLastBlockHeight = w.header.height) :
    Queues (closing k n e w) n { e with lastBlockTime := some w.header.time } := by
  have ho := not_executed hc running
  obtain ⟨hp,events,hhs,ha⟩ := closing_history (k := k) hc h running
  have hf := frame_endEpoch (k := k) (n := n) (w.store.getEpochMsgs n) (w.closed n e)
  have he : ∀ m, (closing k n e w).enqueued m = w.enqueued m := by
    intro m
    rw [enqueued_append w _ hhs,(records_project ha m).1,append_nil]
  have hh : ∀ m, (closing k n e w).handled m =
      w.handled m ++ if m = n then w.enqueued n else [] := by
    intro m
    rw [handled_append w _ hhs,(records_project ha m).2]
  have hd : Executed (closing k n e w) { e with lastBlockTime := some w.header.time } :=
    .inr ⟨rfl,height.trans (congrArg HeaderInfo.height
      (congrArg Header.toHeaderInfo hf.header)).symm⟩
  refine ⟨?_,?_,?_,?_,?_,?_,fun _ => hp,fun hx => absurd hd hx⟩
  · intro m
    rw [he]
    change ((updateValidatorSet k _).store.msgQueue.sub m).Indexed _
    rw [hf.store.msgQueue]
    exact h.indexed m
  · intro m
    rw [he]
    change (updateValidatorSet k _).store.queueLength.getD m 0 = _
    rw [hf.store.queueLength]
    exact h.length m
  · intro m hm
    rw [he]
    exact h.future m hm
  · intro m msg hms
    rw [he] at hms
    exact h.addressed m msg hms
  · intro m hm
    rw [he,hh]
    by_cases hmn : m = n
    · subst hmn
      rw [if_pos rfl,h.waiting m (by simp [ho]),nil_append]
    · rw [if_neg hmn,append_nil]
      exact h.done m (.inl (hm.resolve_right fun hx => hmn hx.1))
  · intro m hm
    have hmn : m ≠ n := fun hmn => hm (.inr ⟨hmn,hd⟩)
    rw [hh,if_neg hmn,append_nil]
    exact h.waiting m (fun hx => hm (hx.imp_right fun hx' => absurd hx'.1 hmn))

theorem Queues.nextEpoch (hc : OnCalendar w n e) (h : Queues w n e)
    (height : w.header.height = e.getLastBlockHeight+1) :
    Queues { w with
      store := w.store.nextEpoch n e w.header w.staking.lastValidatorPowers
      phase := .running } (n+1)
      (Epoch.new (n+1) w.store.params.epochInterval w.header.height none) := by
  have hp := Params.interval_of_validate hc.calendar.params
  have hd : Executed w e := .inl (by omega)
  have ho : ¬ Executed
      { w with
        store := w.store.nextEpoch n e w.header w.staking.lastValidatorPowers
        phase := .running }
      (Epoch.new (n+1) w.store.params.epochInterval w.header.height none) := by
    unfold Executed
    simp [Epoch.getLastBlockHeight,Epoch.new]
    omega
  have hn := h.future (n+1) (by omega)
  refine ⟨h.indexed,?_,?_,h.addressed,?_,?_,fun hx => absurd hx ho,?_⟩
  · intro m
    change (w.store.queueLength.set (n+1) 0).getD m 0 = (w.enqueued m).length
    rw [getD_set]
    split
    · rename_i hm
      rw [hm,hn,length_nil]
    · exact h.length m
  · intro m hm
    exact h.future m (by omega)
  · intro m hm
    have hl : m ≤ n := by
      rcases hm with hm | ⟨-,hx⟩
      · omega
      · exact absurd hx ho
    rcases Nat.lt_or_eq_of_le hl with hlt | rfl
    · exact h.done m (.inl hlt)
    · exact h.done m (.inr ⟨rfl,hd⟩)
  · intro m hm
    exact h.waiting m (by omega)
  · intro _ d
    change w.pool d = totalOf d (w.enqueued (n+1))
    rw [hn,h.poolEmpty hd d]
    rfl

theorem completions_project {time : Nat} (h : ∀ ev ∈ events, Matured w n time ev) (m : Nat) :
    events.filterMap (Event.enqueuedIn m) = [] ∧ events.filterMap (Event.handledIn m) = [] := by
  rw [filterMap_eq_nil_iff,filterMap_eq_nil_iff]
  constructor
  · intro ev he
    rcases h ev he with ⟨_,_,_,rfl⟩ | ⟨_,_,_,rfl⟩ <;> rfl
  · intro ev he
    rcases h ev he with ⟨_,_,_,rfl⟩ | ⟨_,_,_,rfl⟩ <;> rfl

theorem moves_queues (hc : OnCalendar w n e) (h : Queues w n e) (hm : Moves k n e w a n' e' w') :
    Queues w' n' e' := by
  cases hm with
  | startBlock idle height _ _ _ =>
    refine h.congr rfl rfl rfl (fun _ => rfl) (fun _ => rfl) ?_
    simp only [Executed,height,idle,reduceCtorEq,false_and,or_false,true_and]
    omega
  | nextEpoch _ height => exact h.nextEpoch hc height
  | lastBlock started _ =>
    refine h.congr rfl rfl rfl (fun _ => rfl) (fun _ => rfl) ?_
    simp [Executed,started,Epoch.getLastBlockHeight]
  | innerBlock started _ =>
    refine h.congr rfl rfl rfl (fun _ => rfl) (fun _ => rfl) ?_
    simp [Executed,started]
  | deliver running addressed lock => exact h.deliver hc running addressed lock
  | updateParams => exact h.congr rfl rfl rfl (fun _ => rfl) (fun _ => rfl) Iff.rfl
  | slash => exact h.congr rfl rfl rfl (fun _ => rfl) (fun _ => rfl) Iff.rfl
  | finalize _ _ _ _ unbonding =>
    obtain ⟨events,hh,he⟩ := unbonding.history
    refine h.congr unbonding.store.msgQueue unbonding.store.queueLength unbonding.pool ?_ ?_ ?_
    · intro m
      have ha := enqueued_append w _ hh m
      rw [(completions_project he m).1,append_nil] at ha
      exact ha
    · intro m
      have ha := handled_append w _ hh m
      rw [(completions_project he m).2,append_nil] at ha
      exact ha
    · unfold Executed
      rw [unbonding.header,unbonding.phase]
  | other _ =>
    exact h.congr (frame_write w _).store.msgQueue (frame_write w _).store.queueLength rfl
      (fun _ => rfl) (fun _ => rfl) Iff.rfl
  | endBlock running _ =>
    refine h.congr rfl rfl rfl (fun _ => rfl) (fun _ => rfl) ?_
    simp only [Executed,running,reduceCtorEq,false_and,or_false,true_and]
    omega
  | endEpoch running height => exact h.endEpoch hc running height

theorem starts_queues {gs : GenesisState} (h : Starts gs w) (e : Epoch) : Queues w 0 e := by
  obtain ⟨interval,time, -,hs⟩ := Store.initGenesis_fresh h.fresh h.genesis
  have he : ∀ m, w.enqueued m = [] := fun m => by simp [enqueued,h.history]
  have hh : ∀ m, w.handled m = [] := fun m => by simp [handled,h.history]
  refine ⟨?_,?_,?_,?_,?_,?_,?_,?_⟩
  · intro m
    rw [he,hs]
    exact indexed_empty
  · intro m
    rw [he,hs]
    change (empty.set 0 0).getD m 0 = 0
    rw [getD_set]
    split <;> rfl
  · intro m _
    exact he m
  · intro m msg hm
    rw [he] at hm
    cases hm
  · intro m _
    rw [hh,he]
  · intro m _
    exact hh m
  · intro _ d
    rw [h.pool]
  · intro _ d
    rw [h.pool,he]
    rfl

end World

end AnonChain.Epoching
