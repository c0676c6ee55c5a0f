import AnonChain.Epoching.App

/-! Which parts of the state each action of the epoching module leaves as they are. -/

namespace AnonChain.Epoching

open Lib List Store

/-- Every lifecycle names the account it is stored under and is not empty. -/
structure Store.Lives (s : Store) : Prop where
  validators : ∀ a lc, s.valLifecycle.get a = some lc → lc.valAddr = valString a ∧ lc.valLife ≠ []
  delegations : ∀ a lc, s.delegationLifecycle.get a = some lc →
    lc.delAddr = accString a ∧ lc.delLife ≠ [] ∧ ∀ u ∈ lc.delLife, ∃ v, u.valAddr = valString v

/-- The stores agree in all but the lifecycles, which may have been added to. -/
structure Store.Agree (s t : Store) : Prop where
  params : t.params = s.params
  epochInfo : t.epochInfo = s.epochInfo
  msgQueue : t.msgQueue = s.msgQueue
  queueLength : t.queueLength = s.queueLength
  valSet : t.valSet = s.valSet
  votingPower : t.votingPower = s.votingPower
  slashedValSet : t.slashedValSet = s.slashedValSet
  slashedVotingPower : t.slashedVotingPower = s.slashedVotingPower
  lives : s.Lives → t.Lives

namespace Store

variable {s t u : Store}

theorem Agree.refl (s : Store) : Agree s s := ⟨rfl,rfl,rfl,rfl,rfl,rfl,rfl,rfl,id⟩

theorem Agree.trans (h : Agree s t) (h' : Agree t u) : Agree s u :=
  ⟨h'.params.trans h.params,h'.epochInfo.trans h.epochInfo,h'.msgQueue.trans h.msgQueue,
    h'.queueLength.trans h.queueLength,h'.valSet.trans h.valSet,h'.votingPower.trans h.votingPower,
    h'.slashedValSet.trans h.slashedValSet,h'.slashedVotingPower.trans h.slashedVotingPower,
    fun hl => h'.lives (h.lives hl)⟩

theorem Agree.getEpoch (h : Agree s t) : t.getEpoch = s.getEpoch := by
  unfold Store.getEpoch
  rw [h.epochInfo]

theorem agree_recordNewValState (s : Store) (header : Header) (v : Address) (state : BondState) :
    Agree s (s.recordNewValState header v state) := by
  refine ⟨rfl,rfl,rfl,rfl,rfl,rfl,rfl,rfl,fun hl => ⟨?_,hl.delegations⟩⟩
  intro a lc hlc
  rcases KVStore.get_set_cases hlc with ⟨rfl,rfl⟩ | ⟨_,hlc⟩
  · refine ⟨?_,by simp⟩
    cases hold : s.valLifecycle.get a with
    | none => rfl
    | some lc => exact (hl.validators a lc hold).1
  · exact hl.validators a lc hlc

theorem agree_recordNewDelegationState (s : Store) (header : Header) (d v : Address)
    (amount : Option Coin)
    (state : BondState) : Agree s (s.recordNewDelegationState header d v amount state) := by
  refine ⟨rfl,rfl,rfl,rfl,rfl,rfl,rfl,rfl,fun hl => ⟨hl.validators,?_⟩⟩
  intro a lc hlc
  rcases KVStore.get_set_cases hlc with ⟨rfl,rfl⟩ | ⟨_,hlc⟩
  · cases hold : s.delegationLifecycle.get a with
    | none =>
      refine ⟨rfl,by simp,?_⟩
      intro u hu
      rw [mem_singleton.mp hu]
      exact ⟨v,rfl⟩
    | some lc =>
      obtain ⟨hn, -,hv⟩ := hl.delegations a lc hold
      refine ⟨hn,by simp,?_⟩
      intro u hu
      rcases mem_append.mp hu with hu | hu
      · exact hv u hu
      · rw [mem_singleton.mp hu]
        exact ⟨v,rfl⟩
  · exact hl.delegations a lc hlc

theorem agree_foldl {α : Type} {f : Store → α → Store} (hf : ∀ s a, Agree s (f s a))
    (l : List α) (s : Store) : Agree s (l.foldl f s) :=
  foldl_keeps (fun a _ t ht => ht.trans (hf t a)) (Agree.refl s)

theorem agree_runHook (header : Header) (s : Store) (hook : StakingHook) :
    Agree s (World.runHook header s hook) := by
  cases hook with
  | validatorState v state => exact agree_recordNewValState s header v state
  | delegationRemoved d v => exact agree_recordNewDelegationState s header d v none .REMOVED

theorem getEpoch_eq_ok {e : Epoch} : s.getEpoch = .ok e ↔ ∃ n, s.epochInfo.last = some (n,e) := by
  simp only [getEpoch,ok_iff]
  constructor
  · rintro ⟨⟨n,e'⟩,h,rfl⟩
    exact ⟨n,h⟩
  · rintro ⟨n,h⟩
    exact ⟨(n,e),h,rfl⟩

end Store

namespace World

variable {R : Type} {k : StakingKeeper R} {w w' w'' : World R} {msg : StakingMsg}

/-- What the execution of messages and the unbonding leave as it is. -/
structure Frame (w w' : World R) : Prop where
  header : w'.header = w.header
  phase : w'.phase = w.phase
  store : Store.Agree w.store w'.store
  finalized : w'.lastFinalizedEpoch = w.lastFinalizedEpoch

theorem Frame.refl (w : World R) : Frame w w := ⟨rfl,rfl,.refl _,rfl⟩

theorem Frame.trans (h : Frame w w') (h' : Frame w' w'') : Frame w w'' :=
  ⟨h'.header.trans h.header,h'.phase.trans h.phase,h.store.trans h'.store,
    h'.finalized.trans h.finalized⟩

theorem frame_write (w : World R) (effect : Effect R) : Frame w (w.write effect) :=
  ⟨rfl,rfl,agree_foldl (agree_runHook _) _ _,rfl⟩

/-- A message leaves the pool and the history to the loop over the queue. -/
structure Served (w w' : World R) : Prop extends Frame w w' where
  pool : w'.pool = w.pool
  history : w'.history = w.history

theorem Served.trans (h : Served w w') (h' : Served w' w'') : Served w w'' :=
  ⟨h.toFrame.trans h'.toFrame,h'.pool.trans h.pool,h'.history.trans h.history⟩

theorem served_recordDelegation (d v : Bech32) (amount : Coin)
    (states : List BondState) (w : World R) :
    Served w (recordDelegation d v amount states w).1 := by
  unfold recordDelegation
  split
  · exact ⟨.refl w,rfl,rfl⟩
  · refine ⟨⟨rfl,rfl,?_,rfl⟩,rfl,rfl⟩
    exact agree_foldl (fun s state => agree_recordNewDelegationState s _ _ _ _ state) _ _

theorem recordDelegation_staking (d v : Bech32) (amount : Coin)
    (states : List BondState) (w : World R) :
    (recordDelegation d v amount states w).1.staking = w.staking := by
  unfold recordDelegation
  split <;> rfl

theorem served_serve {call : Except String (Effect R)} {next : World R → World R × Option Failure}
    (h : ∀ w, Served w (next w).1) (w : World R) : Served w (w.serve call next).1 := by
  unfold serve
  split
  · exact ⟨.refl w,rfl,rfl⟩
  · exact Served.trans ⟨frame_write w _,rfl,rfl⟩ (h _)

theorem served_staking (w : World R) (staking : Staking) : Served w { w with staking } :=
  ⟨⟨rfl,rfl,.refl _,rfl⟩,rfl,rfl⟩

theorem served_runUnwrappedMsg (w : World R) (msg : StakingMsg) :
    Served w (w.runUnwrappedMsg k msg).1 := by
  cases msg with
  | createValidator _ => exact served_serve (served_recordDelegation _ _ _ _) w
  | delegate _ => exact served_serve (served_recordDelegation _ _ _ _) w
  | undelegate msg =>
    exact served_serve (fun w => (served_staking w _).trans (served_recordDelegation _ _ _ _
      (startUnbonding msg w))) w
  | beginRedelegate msg =>
    exact served_serve (fun w => (served_staking w _).trans (served_recordDelegation _ _ _ _
      (startRedelegation msg w))) w
  | cancelUnbondingDelegation msg =>
    exact served_serve (fun w' => (served_staking w' _).trans
      (served_recordDelegation _ _ _ _ (cancelUnbonding k w.outside.rest msg w'))) w
  | editValidator _ => exact served_serve (fun w => ⟨.refl w,rfl,rfl⟩) w
  | updateParams _ => exact served_serve (fun w => served_staking w _) w

theorem lockFundsForDelegateMsgs_eq_ok :
    w.lockFundsForDelegateMsgs msg = .ok w' ↔
      (extractAddrAndCoinsFromMsg msg = .ok none ∧ w' = w) ∨
      ∃ addr coin, extractAddrAndCoinsFromMsg msg = .ok (some (addr,coin)) ∧
        coin.amount ≤ w.outside.balances addr coin.denom ∧ w' = w.toPool addr coin := by
  simp only [lockFundsForDelegateMsgs,bind_eq_ok]
  constructor
  · rintro ⟨o,ho,h⟩
    cases o with
    | none => exact .inl ⟨ho,(pure_eq_ok.mp h).symm⟩
    | some pair =>
      simp only [lockFunds,ok_iff] at h
      exact .inr ⟨pair.1,pair.2,ho,h.1,h.2.symm⟩
  · rintro (⟨ho,rfl⟩ | ⟨addr,coin,ho,hl,rfl⟩)
    · exact ⟨none,ho,rfl⟩
    · exact ⟨some (addr,coin),ho,by simp [lockFunds,ensure,hl,bind,Except.bind,pure,Except.pure]⟩

theorem unlockFundsForDelegateMsgs_eq_ok :
    w.unlockFundsForDelegateMsgs msg = .ok w' ↔
      (extractAddrAndCoinsFromMsg msg = .ok none ∧ w' = w) ∨
      ∃ addr coin, extractAddrAndCoinsFromMsg msg = .ok (some (addr,coin)) ∧
        coin.amount ≤ w.pool coin.denom ∧ w' = w.fromPool addr coin := by
  simp only [unlockFundsForDelegateMsgs,bind_eq_ok]
  constructor
  · rintro ⟨o,ho,h⟩
    cases o with
    | none => exact .inl ⟨ho,(pure_eq_ok.mp h).symm⟩
    | some pair =>
      simp only [unlockFunds,ok_iff] at h
      exact .inr ⟨pair.1,pair.2,ho,h.1,h.2.symm⟩
  · rintro (⟨ho,rfl⟩ | ⟨addr,coin,ho,hl,rfl⟩)
    · exact ⟨none,ho,rfl⟩
    · exact ⟨some (addr,coin),ho,by simp [unlockFunds,ensure,hl,bind,Except.bind,pure,Except.pure]⟩

theorem frame_lock (h : w.lockFundsForDelegateMsgs msg = .ok w') : Frame w w' := by
  rcases lockFundsForDelegateMsgs_eq_ok.mp h with ⟨-,rfl⟩ | ⟨addr,coin, -, -,rfl⟩
  · exact .refl _
  · exact ⟨rfl,rfl,.refl _,rfl⟩

theorem staking_lock (h : w.lockFundsForDelegateMsgs msg = .ok w') : w'.staking = w.staking := by
  rcases lockFundsForDelegateMsgs_eq_ok.mp h with ⟨-,rfl⟩ | ⟨_,_, -, -,rfl⟩ <;> rfl

theorem frame_unlock (h : w.unlockFundsForDelegateMsgs msg = .ok w') : Frame w w' := by
  rcases unlockFundsForDelegateMsgs_eq_ok.mp h with ⟨-,rfl⟩ | ⟨addr,coin, -, -,rfl⟩
  · exact .refl _
  · exact ⟨rfl,rfl,.refl _,rfl⟩

theorem frame_handleQueuedMsg (n : Nat) (w : World R) (msg : QueuedMessage) :
    Frame w (handleQueuedMsg k n w msg) := by
  unfold handleQueuedMsg
  split
  · exact ⟨rfl,rfl,.refl _,rfl⟩
  · rename_i unlocked hu
    have hr := (frame_unlock hu).trans (served_runUnwrappedMsg (k := k) unlocked msg.msg).toFrame
    exact ⟨hr.header,hr.phase,hr.store,hr.finalized⟩

theorem frame_updateValidatorSet (w : World R) : Frame w (w.updateValidatorSet k) := by
  have h := frame_write w (k.applyAndReturnValidatorSetUpdates w.header w.outside).1
  exact ⟨h.header,h.phase,h.store,h.finalized⟩

theorem frame_foldl {α : Type} {f : World R → α → World R} (hf : ∀ w a, Frame w (f w a))
    (l : List α) (w : World R) : Frame w (l.foldl f w) :=
  foldl_keeps (fun a _ t ht => ht.trans (hf t a)) (.refl w)

theorem endBlocker_eq_ok (h : w.endBlocker k = .ok w') :
    ∃ epoch, w.store.getEpoch = .ok epoch ∧
      ((epoch.isLastBlock w.header.height = false ∧ w' = w) ∨
        epoch.isLastBlock w.header.height = true ∧ ∃ store msgs,
          w.store.recordLastHeaderTime w.header = .ok store ∧ store.getCurrentEpochMsgs = .ok msgs ∧
          w' = updateValidatorSet k (msgs.foldl (handleQueuedMsg k epoch.epochNumber)
            { w with store })) := by
  simp only [endBlocker,bind_eq_ok] at h
  obtain ⟨epoch,he,h⟩ := h
  refine ⟨epoch,he,?_⟩
  split at h
  · rename_i hl
    simp only [ok_iff] at h
    obtain ⟨store,hs,msgs,hm,rfl⟩ := h
    exact .inr ⟨hl,store,msgs,hs,hm,rfl⟩
  · rename_i hl
    exact .inl ⟨by simpa using hl,(pure_eq_ok.mp h).symm⟩

theorem enqueue_eq_ok {before : Balances} {msg : QueuedMessage}
    (h : w.enqueue before msg = .ok w') : ∃ epoch, w.store.getEpoch = .ok epoch ∧
      w' = { w with
        store := { w.store with
          msgQueue := w.store.msgQueue.set₂ epoch.epochNumber
            (w.store.getQueueLength epoch.epochNumber) msg
          queueLength := w.store.queueLength.set epoch.epochNumber
            (w.store.getQueueLength epoch.epochNumber+1) }
        history := w.history ++ [.enqueued epoch.epochNumber msg before w.outside.balances] } := by
  simp only [enqueue,enqueueMsg,ok_iff] at h
  obtain ⟨epoch,he,store,⟨epoch',he',rfl⟩,rfl⟩ := h
  rw [he] at he'
  cases he'
  exact ⟨epoch,he,rfl⟩

theorem deliver_eq_ok {txid : Bytes} (hh : w.header.height ≠ 0)
    (h : w.deliver k txid msg = .ok w') :
    ∃ rest locked, ({ w with outside := { w.outside with rest } } : World
      R).lockFundsForDelegateMsgs msg = .ok locked ∧
      locked.enqueue w.outside.balances (w.newQueuedMessage txid msg) = .ok w' := by
  cases msg with
  | createValidator _ =>
    simp only [deliver,wrappedCreateValidator,bind_eq_ok] at h
    obtain ⟨-, -,rest, -,h⟩ := h
    rw [if_neg hh,bind_eq_ok] at h
    obtain ⟨locked,hl,h⟩ := h
    exact ⟨rest,locked,hl,h⟩
  | delegate _ =>
    simp only [deliver,wrappedDelegate,bind_eq_ok,Result.wrap_eq_ok] at h
    obtain ⟨-, -, -, -, -, -, -, -, -, -, -, -,locked,hl,h⟩ := h
    exact ⟨w.outside.rest,locked,hl,h⟩
  | undelegate _ =>
    simp only [deliver,wrappedUndelegate,enqueueUnfunded,bind_eq_ok] at h
    obtain ⟨-, -, -, -, -, -, -, -, -, -, -, -, -, -,h⟩ := h
    exact ⟨w.outside.rest,w,rfl,h⟩
  | beginRedelegate _ =>
    simp only [deliver,wrappedBeginRedelegate,enqueueUnfunded,bind_eq_ok] at h
    obtain ⟨-, -, -, -, -, -, -, -, -, -, -, -, -, -, -, -, -, -,h⟩ := h
    exact ⟨w.outside.rest,w,rfl,h⟩
  | cancelUnbondingDelegation _ =>
    simp only [deliver,wrappedCancelUnbondingDelegation,enqueueUnfunded,bind_eq_ok] at h
    obtain ⟨-, -, -, -, -, -, -, -, -, -, -, -, -, -,h⟩ := h
    exact ⟨w.outside.rest,w,rfl,h⟩
  | editValidator _ =>
    simp only [deliver,wrappedEditValidator,enqueueUnfunded,bind_eq_ok] at h
    obtain ⟨-, -, -, -, -, -, -, -,h⟩ := h
    exact ⟨w.outside.rest,w,rfl,h⟩
  | updateParams _ =>
    simp only [deliver,wrappedStakingUpdateParams,enqueueUnfunded,bind_eq_ok] at h
    obtain ⟨-, -, -, -, -, -,h⟩ := h
    exact ⟨w.outside.rest,w,rfl,h⟩

/-- The addresses the module reads from a message are those of accounts and operators. -/
def WellAddressed : StakingMsg → Prop
  | .createValidator msg => ∃ a, valAddressFromBech32 msg.validatorAddress = .ok a
  | .delegate msg => ∃ p, parseDelValAddr msg.delegatorAddress msg.validatorAddress = .ok p
  | .undelegate msg => ∃ p, parseDelValAddr msg.delegatorAddress msg.validatorAddress = .ok p
  | .beginRedelegate msg =>
    ∃ p, parseDelValAddr msg.delegatorAddress msg.validatorSrcAddress = .ok p
  | .cancelUnbondingDelegation msg =>
    ∃ p, parseDelValAddr msg.delegatorAddress msg.validatorAddress = .ok p
  | .editValidator _ => True
  | .updateParams _ => True

theorem parseDelValAddr_of {d v : Bech32} {del val : Address}
    (hd : accAddressFromBech32 d = .ok del)
    (hv : valAddressFromBech32 v = .ok val) : ∃ p, parseDelValAddr d v = .ok p :=
  ⟨(del,val),by simp [parseDelValAddr,hd,hv,bind,Except.bind,pure,Except.pure]⟩

theorem deliver_addressed {txid : Bytes} (h : w.deliver k txid msg = .ok w') :
    WellAddressed msg := by
  cases msg with
  | createValidator _ =>
    simp only [deliver,wrappedCreateValidator,checkMsgCreateValidator,bind_eq_ok] at h
    obtain ⟨-,⟨a,ha, -⟩, -⟩ := h
    exact ⟨a,ha⟩
  | delegate _ =>
    simp only [deliver,wrappedDelegate,bind_eq_ok] at h
    obtain ⟨v,hv, -, -,d,hd, -⟩ := h
    exact parseDelValAddr_of hd hv
  | undelegate _ =>
    simp only [deliver,wrappedUndelegate,bind_eq_ok] at h
    obtain ⟨v,hv,d,hd, -⟩ := h
    exact parseDelValAddr_of hd hv
  | beginRedelegate _ =>
    simp only [deliver,wrappedBeginRedelegate,bind_eq_ok] at h
    obtain ⟨v,hv, -, -,d,hd, -⟩ := h
    exact parseDelValAddr_of hd hv
  | cancelUnbondingDelegation _ =>
    simp only [deliver,wrappedCancelUnbondingDelegation,bind_eq_ok] at h
    obtain ⟨d,hd,v,hv, -⟩ := h
    exact parseDelValAddr_of hd hv
  | editValidator _ => trivial
  | updateParams _ => trivial

theorem updateParams_eq_ok {authority : Bytes} {params : Params}
    (h : w.updateParams k authority params = .ok w') :
    params.validate = .ok () ∧ w' = { w with store := { w.store with params } } := by
  simp only [updateParams,setParams,bind_eq_ok,pure_eq_ok,Result.wrap_eq_ok] at h
  obtain ⟨-, -,⟨⟩,hv,store,⟨-, -,rfl⟩,rfl⟩ := h
  exact ⟨hv,rfl⟩

theorem beforeValidatorSlashed_eq_ok {s s' : Store} {valAddr : Address}
    (h : s.beforeValidatorSlashed valAddr = .ok s') :
    ∃ epoch total slashed power, s.getEpoch = .ok epoch ∧
      s.votingPower.get epoch.epochNumber = some total ∧
      s.slashedVotingPower.get epoch.epochNumber = some slashed ∧
      s.valSet.get₂ epoch.epochNumber valAddr = some power ∧
      s' = { s with
        slashedValSet := s.slashedValSet.set₂ epoch.epochNumber valAddr power
        slashedVotingPower := s.slashedVotingPower.set epoch.epochNumber (slashed+power) } := by
  simp only [beforeValidatorSlashed,addSlashedValidator,getTotalVotingPower,
    getSlashedVotingPower,getValidatorVotingPower,ok_iff] at h
  obtain ⟨epoch,he,total,ht,slashed,hs,power,hp,epoch',he',power',hp',slashed',hs',rfl⟩ := h
  rw [he] at he'
  cases he'
  rw [hp] at hp'
  cases hp'
  rw [hs] at hs'
  cases hs'
  exact ⟨epoch,total,slashed,power,he,ht,hs,hp,rfl⟩

/-- The state after some completions, all of them recorded by events of `E`. -/
structure Completing (E : Event → Prop) (w w' : World R) : Prop extends Frame w w' where
  pool : w'.pool = w.pool
  staking : w'.staking = w.staking
  history : ∃ events, w'.history = w.history ++ events ∧ ∀ e ∈ events, E e

theorem completing_refl (E : Event → Prop) (w : World R) : Completing E w w :=
  ⟨.refl w,rfl,rfl,[],by simp,by simp⟩

theorem Completing.trans {E : Event → Prop} (h : Completing E w w') (h' : Completing E w' w'') :
    Completing E w w'' := by
  obtain ⟨es,hes,hE⟩ := h.history
  obtain ⟨es',hes',hE'⟩ := h'.history
  refine ⟨h.toFrame.trans h'.toFrame,h'.pool.trans h.pool,h'.staking.trans h.staking,
    es ++ es',?_,?_⟩
  · rw [hes',hes,append_assoc]
  · intro e he
    exact (mem_append.mp he).elim (hE e) (hE' e)

theorem completing_completeUnbonding {header : Header} {n : Nat} {x : UnbondingEntry}
    (h : completeUnbonding k header n w x = .ok w') :
    Completing (· = .completedUnbonding n x) w w' := by
  simp only [completeUnbonding,bind_eq_ok] at h
  obtain ⟨v, -,d, -,h⟩ := h
  split at h
  · cases h
    exact completing_refl _ w
  · rename_i effect _
    cases h
    have hw := frame_write w effect
    have hs := hw.store.trans (agree_recordNewDelegationState _ w.header d v none .UNBONDED)
    exact ⟨⟨hw.header,hw.phase,hs,hw.finalized⟩,rfl,rfl,[_],rfl,by simp⟩

theorem completing_completeRedelegation {header : Header} {n : Nat} {x : RedelegationEntry}
    (h : completeRedelegation k header n w x = .ok w') :
    Completing (· = .completedRedelegation n x) w w' := by
  simp only [completeRedelegation,bind_eq_ok] at h
  obtain ⟨src, -,dst, -,d, -,h⟩ := h
  split at h
  · cases h
    exact completing_refl _ w
  · rename_i effect _
    cases h
    have hw := frame_write w effect
    have hs := hw.store.trans
      ((agree_recordNewDelegationState _ w.header d src none .UNBONDED).trans
      ((agree_recordNewDelegationState _ w.header d dst none .CREATED).trans
        (agree_recordNewDelegationState _ w.header d dst none .BONDED)))
    exact ⟨⟨hw.header,hw.phase,hs,hw.finalized⟩,rfl,rfl,[_],rfl,by simp⟩

theorem completing_foldlM {α : Type} {f : World R → α → Result (World R)}
    {event : α → Event} {l : List α}
    (hf : ∀ x w w', f w x = .ok w' → Completing (· = event x) w w') (h : l.foldlM f w = .ok w') :
    Completing (fun e => ∃ x ∈ l, e = event x) w w' := by
  refine foldlM_keeps (P := fun t => Completing (fun e => ∃ x ∈ l, e = event x) w t) ?_
    (completing_refl _ w) h
  intro x hx t t' ht hft
  have hs := hf x t t' hft
  obtain ⟨es,hes,hE⟩ := hs.history
  exact ht.trans ⟨hs.toFrame,hs.pool,hs.staking,es,hes,fun e he => ⟨x,hx,hE e he⟩⟩

/-- An unbonding or redelegation of the queues of `w` that has matured at `time`. -/
def Matured (w : World R) (n time : Nat) (e : Event) : Prop :=
  (∃ x ∈ w.staking.ubdQueue, x.completionTime ≤ time ∧ e = .completedUnbonding n x) ∨
    ∃ x ∈ w.staking.redelegationQueue, x.completionTime ≤ time ∧ e = .completedRedelegation n x

/-- What the finalization of epoch `n` does when its last block has time `time`. -/
structure Unbonded (n time : Nat) (w w' : World R) : Prop extends Frame w w' where
  pool : w'.pool = w.pool
  unbondingTime : w'.staking.unbondingTime = w.staking.unbondingTime
  powers : w'.staking.lastValidatorPowers = w.staking.lastValidatorPowers
  ubdQueue : w'.staking.ubdQueue.Sublist w.staking.ubdQueue
  redelegationQueue : w'.staking.redelegationQueue.Sublist w.staking.redelegationQueue
  history : ∃ events, w'.history = w.history ++ events ∧
    ∀ e ∈ events, Matured w n (time+w.staking.unbondingTime) e

theorem applyMatureUnbonding_eq_ok {n : Nat} (h : w.applyMatureUnbonding k n = .ok w') :
    ∃ epoch time, w.store.epochInfo.get n = some epoch ∧ epoch.lastBlockTime = some time ∧
      Unbonded n time w w' := by
  simp only [applyMatureUnbonding,getHistoricalEpoch,ok_iff] at h
  obtain ⟨epoch,he,time,ht,w₁,h₁,h₂⟩ := h
  have hu := completing_foldlM (fun x _ _ => completing_completeUnbonding (x := x)) h₁
  have hr := completing_foldlM (fun x _ _ => completing_completeRedelegation (x := x)) h₂
  obtain ⟨es,hes,hE⟩ := hu.history
  obtain ⟨es',hes',hE'⟩ := hr.history
  have hw := frame_write w (k.unbondAllMatureValidators
    { w.header with time := time+w.staking.unbondingTime } w.outside)
  have hs := hw.store.trans (agree_foldl
    (fun s v => agree_recordNewValState s w.header v .UNBONDED)
    (k.getAllMatureValidators w.header w.outside.rest) _)
  have hf : Frame w w' := by
    refine Frame.trans ?_ (hu.toFrame.trans (Frame.trans ?_ hr.toFrame))
    · exact ⟨rfl,rfl,hs,rfl⟩
    · exact ⟨rfl,rfl,.refl _,rfl⟩
  have hq := hr.staking
  rw [hu.staking] at hq
  refine ⟨epoch,time,he,ht,hf,hr.pool.trans hu.pool,?_,?_,?_,?_,es ++ es',?_,?_⟩
  · rw [hq]
    rfl
  · rw [hq]
    rfl
  · rw [hq]
    exact filter_sublist
  · rw [hq]
    exact filter_sublist
  · rw [hes',hes,append_assoc]
    rfl
  · intro e he
    rcases mem_append.mp he with he | he
    · obtain ⟨x,hx,rfl⟩ := hE e he
      obtain ⟨hx,htm⟩ := mem_filter.mp hx
      exact .inl ⟨x,hx,of_decide_eq_true htm,rfl⟩
    · obtain ⟨x,hx,rfl⟩ := hE' e he
      obtain ⟨hx,htm⟩ := mem_filter.mp hx
      rw [hu.staking] at hx
      exact .inr ⟨x,hx,of_decide_eq_true htm,rfl⟩

end World

end AnonChain.Epoching
