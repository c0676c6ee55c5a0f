import AnonChain.Epoching.Calendar
import AnonChain.Lib.Matches

/-! Two stores that read the same up to records that read as nothing, and the blocks on them. -/

namespace AnonChain.Epoching

open Lib Store
open KVStore (sub_set₂ getD_set get_set_self)
open Matches (bind_same foldlM)

/-- The stores read the same; in the current epoch `n` also the record of the slashed power does,
since its absence is an error there. -/
structure Store.Restored (n : Nat) (s t : Store) : Prop where
  params : t.params = s.params
  epochInfo : t.epochInfo = s.epochInfo
  msgQueue : ∀ m, t.msgQueue.sub m = s.msgQueue.sub m
  queueLength : ∀ m, t.queueLength.getD m 0 = s.queueLength.getD m 0
  valSet : ∀ m, t.valSet.sub m = s.valSet.sub m
  votingPower : t.votingPower = s.votingPower
  slashedValSet : ∀ m, t.slashedValSet.sub m = s.slashedValSet.sub m
  slashedVotingPower : ∀ m, t.slashedVotingPower.getD m 0 = s.slashedVotingPower.getD m 0
  slashedNow : t.slashedVotingPower.get n = s.slashedVotingPower.get n
  valLifecycle : t.valLifecycle = s.valLifecycle
  delegationLifecycle : t.delegationLifecycle = s.delegationLifecycle

namespace Store.Restored

variable {n : Nat} {s t : Store}

theorem getEpoch (h : s.Restored n t) : t.getEpoch = s.getEpoch := by
  rw [Store.getEpoch,Store.getEpoch,h.epochInfo]

theorem getHistoricalEpoch (h : s.Restored n t) (m : Nat) :
    t.getHistoricalEpoch m = s.getHistoricalEpoch m := by
  rw [Store.getHistoricalEpoch,Store.getHistoricalEpoch,h.epochInfo]

theorem getEpochMsgs (h : s.Restored n t) (m : Nat) : t.getEpochMsgs m = s.getEpochMsgs m := by
  rw [Store.getEpochMsgs,Store.getEpochMsgs,h.msgQueue]

theorem calendar (h : s.Restored n t) {e : Epoch} (hc : s.Calendar n e) : t.Calendar n e :=
  hc.congr h.epochInfo h.params

theorem setEpochInfo (h : s.Restored n t) (i : Nat) (ep : Epoch) :
    (s.setEpochInfo i ep).Restored n (t.setEpochInfo i ep) :=
  { h with epochInfo := congrArg (KVStore.set · i ep) h.epochInfo }

theorem setParams (h : s.Restored n t) (p : Params) :
    Store.Restored n { s with params := p } { t with params := p } :=
  { h with params := rfl }

theorem recordNewValState (h : s.Restored n t) (header : Header) (v : Address) (state : BondState) :
    (s.recordNewValState header v state).Restored n (t.recordNewValState header v state) :=
  { h with valLifecycle := by simp only [Store.recordNewValState,h.valLifecycle] }

theorem recordNewDelegationState (h : s.Restored n t) (header : Header) (d v : Address)
    (amount : Option Coin) (state : BondState) :
    (s.recordNewDelegationState header d v amount state).Restored n
      (t.recordNewDelegationState header d v amount state) :=
  { h with
    delegationLifecycle := by simp only [Store.recordNewDelegationState,h.delegationLifecycle] }

theorem runHook (h : s.Restored n t) (header : Header) (hook : StakingHook) :
    (World.runHook header s hook).Restored n (World.runHook header t hook) := by
  cases hook with
  | validatorState v state => exact h.recordNewValState header v state
  | delegationRemoved d v => exact h.recordNewDelegationState header d v none .REMOVED

theorem enqueueMsg (h : s.Restored n t) (msg : QueuedMessage) :
    Matches (Store.Restored n) (s.enqueueMsg msg) (t.enqueueMsg msg) := by
  rw [Store.enqueueMsg,Store.enqueueMsg,h.getEpoch]
  refine bind_same fun epoch => .ok ?_
  have hl : t.getQueueLength epoch.epochNumber = s.getQueueLength epoch.epochNumber :=
    h.queueLength _
  refine { h with msgQueue := fun m => ?_, queueLength := fun m => ?_ }
  · simp only [hl,sub_set₂,h.msgQueue]
  · simp only [hl,getD_set,h.queueLength]

theorem nextEpoch (h : s.Restored n t) (e : Epoch) (header : Header) (last : ValidatorPowers) :
    (s.nextEpoch n e header last).Restored (n+1) (t.nextEpoch n e header last) := by
  refine { h with
    epochInfo := ?_, queueLength := fun m => ?_, valSet := fun m => ?_
    votingPower := ?_, slashedVotingPower := fun m => ?_, slashedNow := ?_ }
  · simp only [Store.nextEpoch,h.epochInfo,h.params]
  · simp only [Store.nextEpoch,getD_set,h.queueLength]
  · have hf := foldl_relates (P := fun (a b : KVStore Nat (KVStore Address Int)) => ∀ m,
      b.sub m = a.sub m)
      (f := fun sets v => sets.set₂ (n+1) v.1 v.2) (g := fun sets v => sets.set₂ (n+1) v.1 v.2)
      (fun v a b ha m => by simp only [sub_set₂,ha]) last.powers.entries h.valSet
    exact hf m
  · simp only [Store.nextEpoch,h.votingPower]
  · simp only [Store.nextEpoch,getD_set,h.slashedVotingPower]
  · simp only [Store.nextEpoch,get_set_self]

theorem beforeValidatorSlashed (h : s.Restored n t) {e : Epoch}
    (hc : s.Calendar n e) (v : Address) :
    Matches (Store.Restored n) (s.beforeValidatorSlashed v) (t.beforeValidatorSlashed v) := by
  have hv : t.getValidatorVotingPower n v = s.getValidatorVotingPower n v := by
    simp only [getValidatorVotingPower,KVStore.get₂,h.valSet]
  have hs : t.getSlashedVotingPower n = s.getSlashedVotingPower n := by
    simp only [getSlashedVotingPower,h.slashedNow]
  have ht : t.getTotalVotingPower n = s.getTotalVotingPower n := by
    simp only [getTotalVotingPower,h.votingPower]
  have he := hc.getEpoch
  have he' := (h.calendar hc).getEpoch
  simp only [Store.beforeValidatorSlashed,Store.addSlashedValidator,he,he',ok_bind,
    hc.number,hv,hs,ht]
  refine bind_same fun _ => bind_same fun _ => bind_same fun _ =>
    bind_same fun power => bind_same fun slashed => .ok ?_
  refine { h with
    slashedValSet := fun m => ?_, slashedVotingPower := fun m => ?_, slashedNow := ?_ }
  · simp only [sub_set₂,h.slashedValSet]
  · simp only [getD_set,h.slashedVotingPower]
  · simp only [get_set_self]

end Store.Restored

namespace World

variable {R : Type} {k : StakingKeeper R} {n : Nat} {w v : World R}

/-- The worlds differ in their stores only, and the stores read the same. -/
structure Restored (n : Nat) (w v : World R) : Prop where
  rest : v = { w with store := v.store }
  store : w.store.Restored n v.store

theorem Restored.exists_store (h : Restored n w v) :
    ∃ t, v = { w with store := t } ∧ w.store.Restored n t :=
  ⟨v.store,h.rest,h.store⟩

theorem Restored.write (h : Restored n w v) (effect : Effect R) :
    Restored n (w.write effect) (v.write effect) := by
  obtain ⟨t,rfl,hs⟩ := h.exists_store
  exact ⟨rfl,foldl_relates (fun hook _ _ hst => hst.runHook w.header hook) effect.hooks hs⟩

/-- A result of a message: the worlds agree and the failure is the same. -/
def SameEnd (n : Nat) (r r' : World R × Option Failure) : Prop := Restored n r.1 r'.1 ∧ r'.2 = r.2

theorem Restored.recordDelegation (h : Restored n w v) (d a : Bech32) (amount : Coin)
    (states : List BondState) :
    SameEnd n (recordDelegation d a amount states w) (recordDelegation d a amount states v) := by
  obtain ⟨t,rfl,hs⟩ := h.exists_store
  unfold World.recordDelegation
  split
  · exact ⟨h,rfl⟩
  · rename_i del val _
    exact ⟨⟨rfl,foldl_relates (fun state _ _ hst => hst.recordNewDelegationState w.header del val
      (some amount) state)
      states hs⟩,rfl⟩

theorem Restored.serve (h : Restored n w v) (call : Except String (Effect R))
    {next : World R → World R × Option Failure}
    (hn : ∀ w v, Restored n w v → SameEnd n (next w) (next v)) :
    SameEnd n (w.serve call next) (v.serve call next) := by
  cases call with
  | error _ => exact ⟨h,rfl⟩
  | ok effect => exact hn _ _ (h.write effect)

theorem Restored.setStaking (h : Restored n w v) (staking : Staking) :
    Restored n { w with staking } { v with staking } := by
  obtain ⟨t,rfl,hs⟩ := h.exists_store
  exact ⟨rfl,hs⟩

theorem Restored.runUnwrappedMsg (h : Restored n w v) (msg : StakingMsg) :
    SameEnd n (w.runUnwrappedMsg k msg) (v.runUnwrappedMsg k msg) := by
  have hr : ∀ d a amount states (w v : World R), Restored n w v →
      SameEnd n (World.recordDelegation d a amount states w)
        (World.recordDelegation d a amount states v) :=
    fun d a amount states w v hw => hw.recordDelegation d a amount states
  obtain ⟨t,rfl,hs⟩ := h.exists_store
  cases msg with
  | createValidator _ => exact h.serve _ (hr _ _ _ _)
  | delegate _ => exact h.serve _ (hr _ _ _ _)
  | undelegate _ =>
    refine h.serve _ fun w v hw => ?_
    obtain ⟨t,rfl,hs⟩ := hw.exists_store
    exact hr _ _ _ _ _ _ (hw.setStaking _)
  | beginRedelegate _ =>
    refine h.serve _ fun w v hw => ?_
    obtain ⟨t,rfl,hs⟩ := hw.exists_store
    exact hr _ _ _ _ _ _ (hw.setStaking _)
  | cancelUnbondingDelegation _ =>
    refine h.serve _ fun w v hw => ?_
    obtain ⟨t,rfl,hs⟩ := hw.exists_store
    exact hr _ _ _ _ _ _ (hw.setStaking _)
  | editValidator _ => exact h.serve _ fun w v hw => ⟨hw,rfl⟩
  | updateParams _ =>
    refine h.serve _ fun w v hw => ?_
    obtain ⟨t,rfl,hs⟩ := hw.exists_store
    exact ⟨hw.setStaking _,rfl⟩

theorem Restored.unlockFundsForDelegateMsgs (h : Restored n w v) (msg : StakingMsg) :
    Matches (Restored n) (w.unlockFundsForDelegateMsgs msg) (v.unlockFundsForDelegateMsgs msg) := by
  obtain ⟨t,rfl,hs⟩ := h.exists_store
  refine bind_same fun funds => ?_
  cases funds with
  | none => exact .ok h
  | some _ => exact bind_same fun _ => .ok ⟨rfl,hs⟩

theorem Restored.lockFundsForDelegateMsgs (h : Restored n w v) (msg : StakingMsg) :
    Matches (Restored n) (w.lockFundsForDelegateMsgs msg) (v.lockFundsForDelegateMsgs msg) := by
  obtain ⟨t,rfl,hs⟩ := h.exists_store
  refine bind_same fun funds => ?_
  cases funds with
  | none => exact .ok h
  | some _ => exact bind_same fun _ => .ok ⟨rfl,hs⟩

theorem Restored.handleQueuedMsg (h : Restored n w v) (m : Nat) (msg : QueuedMessage) :
    Restored n (handleQueuedMsg k m w msg) (handleQueuedMsg k m v msg) := by
  have hun := h.unlockFundsForDelegateMsgs msg.msg
  obtain ⟨t,rfl,hs⟩ := h.exists_store
  unfold World.handleQueuedMsg
  generalize w.unlockFundsForDelegateMsgs msg.msg = x,
    ({ w with store := t } : World R).unlockFundsForDelegateMsgs msg.msg = y
    at hun ⊢
  cases hun with
  | error f => exact ⟨rfl,hs⟩
  | @ok unlocked unlocked' hu =>
    have hr := hu.runUnwrappedMsg (k := k) msg.msg
    dsimp only
    generalize unlocked.runUnwrappedMsg k msg.msg = r,
      unlocked'.runUnwrappedMsg k msg.msg = r' at hr ⊢
    obtain ⟨⟨hrs,hst⟩,he⟩ := hr
    rw [he,hrs]
    exact ⟨rfl,hst⟩

theorem Restored.updateValidatorSet (h : Restored n w v) :
    Restored n (w.updateValidatorSet k) (v.updateValidatorSet k) := by
  have hw := h.write (k.applyAndReturnValidatorSetUpdates w.header w.outside).1
  obtain ⟨t,rfl,hs⟩ := h.exists_store
  exact hw.setStaking _

theorem Restored.endBlocker (h : Restored n w v) :
    Matches (Restored n) (w.endBlocker k) (v.endBlocker k) := by
  obtain ⟨t,rfl,hs⟩ := h.exists_store
  unfold World.endBlocker
  rw [show ({ w with store := t } : World R).store.getEpoch = w.store.getEpoch from hs.getEpoch]
  refine bind_same fun epoch => ?_
  split
  · have hr : Matches (Store.Restored n) (w.store.recordLastHeaderTime w.header)
        (t.recordLastHeaderTime w.header) := by
      rw [recordLastHeaderTime,recordLastHeaderTime,hs.getEpoch]
      exact bind_same fun _ => bind_same fun _ => .ok (hs.setEpochInfo _ _)
    refine hr.bind fun s' t' hst => ?_
    have hm : t'.getCurrentEpochMsgs = s'.getCurrentEpochMsgs := by
      simp only [getCurrentEpochMsgs,hst.getEpoch,hst.getEpochMsgs]
    rw [hm]
    refine bind_same fun msgs => .ok ?_
    exact (foldl_relates (fun msg _ _ hw => hw.handleQueuedMsg epoch.epochNumber msg) msgs
      (show Restored n _ _ from ⟨rfl,hst⟩)).updateValidatorSet
  · exact .ok h

theorem Restored.completeUnbonding (h : Restored n w v) (header : Header) (m : Nat)
    (entry : UnbondingEntry) :
    Matches (Restored n) (completeUnbonding k header m w entry)
      (completeUnbonding k header m v entry) := by
  obtain ⟨t,rfl,hs⟩ := h.exists_store
  refine bind_same fun val => bind_same fun del => ?_
  dsimp only
  cases k.completeUnbonding header del val w.outside with
  | none => exact .ok h
  | some effect =>
    have hw := h.write effect
    exact .ok ⟨rfl,hw.store.recordNewDelegationState _ _ _ _ _⟩

theorem Restored.completeRedelegation (h : Restored n w v) (header : Header) (m : Nat)
    (entry : RedelegationEntry) :
    Matches (Restored n) (completeRedelegation k header m w entry)
      (completeRedelegation k header m v entry) := by
  obtain ⟨t,rfl,hs⟩ := h.exists_store
  refine bind_same fun src => bind_same fun dst => bind_same fun del => ?_
  dsimp only
  cases k.completeRedelegation header del src dst w.outside with
  | none => exact .ok h
  | some effect =>
    have hw := h.write effect
    exact .ok ⟨rfl,((hw.store.recordNewDelegationState _ _ _ _ _).recordNewDelegationState _ _ _ _
      _).recordNewDelegationState
      _ _ _ _ _⟩

theorem Restored.recordUnbonded (h : Restored n w v) (vals : List Address) :
    Restored n (w.recordUnbonded vals) (v.recordUnbonded vals) := by
  obtain ⟨t,rfl,hs⟩ := h.exists_store
  exact ⟨rfl,foldl_relates (fun val _ _ hst => hst.recordNewValState w.header val
    .UNBONDED) vals hs⟩

theorem Restored.applyMatureUnbonding (h : Restored n w v) (m : Nat) :
    Matches (Restored n) (w.applyMatureUnbonding k m) (v.applyMatureUnbonding k m) := by
  obtain ⟨t,rfl,hs⟩ := h.exists_store
  unfold World.applyMatureUnbonding
  rw [show ({ w with store := t } : World R).store.getHistoricalEpoch m =
    w.store.getHistoricalEpoch m from
    hs.getHistoricalEpoch m]
  refine bind_same fun finalized => bind_same fun time => ?_
  have hu := (h.write (k.unbondAllMatureValidators
    { w.header with time := time+w.staking.unbondingTime } w.outside)).recordUnbonded
    (k.getAllMatureValidators w.header w.outside.rest)
  refine (foldlM (fun entry _ _ hw => hw.completeUnbonding _ m entry) _ (hu.setStaking _)).bind
    fun w₁ v₁ hw => ?_
  obtain ⟨t₁,rfl,hs₁⟩ := hw.exists_store
  exact foldlM (fun entry _ _ hw => hw.completeRedelegation _ m entry) _ (hw.setStaking _)

theorem Restored.enqueue (h : Restored n w v) (before : Balances) (msg : QueuedMessage) :
    Matches (Restored n) (w.enqueue before msg) (v.enqueue before msg) := by
  obtain ⟨t,rfl,hs⟩ := h.exists_store
  unfold World.enqueue
  rw [show ({ w with store := t } : World R).store.getEpoch = w.store.getEpoch from hs.getEpoch]
  exact bind_same fun epoch => (hs.enqueueMsg msg).bind fun s' t' hst => .ok ⟨rfl,hst⟩

theorem Restored.enqueueUnfunded (h : Restored n w v) (txid : Bytes) (msg : StakingMsg) :
    Matches (Restored n) (w.enqueueUnfunded txid msg) (v.enqueueUnfunded txid msg) := by
  have he := h.enqueue w.outside.balances (w.newQueuedMessage txid msg)
  obtain ⟨t,rfl,hs⟩ := h.exists_store
  exact bind_same fun _ => he

theorem matches_wrap {α β : Type} {P : α → β → Prop} {x : Result α} {y : Result β}
    (h : Matches P x y) (f : Failure) : Matches P (x.wrap f) (y.wrap f) := by
  cases h with
  | ok ha => exact .ok ha
  | error g => cases g <;> exact .error _

theorem Restored.checkMinAmount_eq (h : Restored n w v) (coin : Coin) (text : String) :
    v.checkMinAmount coin text = w.checkMinAmount coin text := by
  rw [checkMinAmount,checkMinAmount,h.store.params]

theorem Restored.wrappedCreateValidator (h : Restored n w v) (txid : Bytes)
    (msg : MsgCreateValidator) :
    Matches (Restored n) (w.wrappedCreateValidator k txid msg)
      (v.wrappedCreateValidator k txid msg) := by
  have hm := h.checkMinAmount_eq
  obtain ⟨t,rfl,hs⟩ := h.exists_store
  have hc : ({ w with store := t } : World R).checkMsgCreateValidator k msg =
      w.checkMsgCreateValidator k msg := by
    simp only [checkMsgCreateValidator,hm]
    rfl
  unfold World.wrappedCreateValidator
  rw [hc]
  refine bind_same fun _ => bind_same fun rest => ?_
  have hr : Restored n { w with outside := { w.outside with rest } }
      { w with outside := { w.outside with rest }, store := t } := ⟨rfl,hs⟩
  dsimp only
  split
  · cases k.createValidator w.header msg { w.outside with rest } with
    | error _ => exact .error _
    | ok effect => exact .ok (hr.write effect)
  · exact (hr.lockFundsForDelegateMsgs _).bind fun _ _ hl => hl.enqueue _ _

theorem Restored.deliver (h : Restored n w v) (txid : Bytes) (msg : StakingMsg) :
    Matches (Restored n) (w.deliver k txid msg) (v.deliver k txid msg) := by
  have hm := h.checkMinAmount_eq
  have hu := h.enqueueUnfunded txid
  have hlc := h.lockFundsForDelegateMsgs
  obtain ⟨t,rfl,hs⟩ := h.exists_store
  cases msg with
  | createValidator msg => exact h.wrappedCreateValidator txid msg
  | delegate _ =>
    simp only [World.deliver,wrappedDelegate,hm]
    iterate 6 refine bind_same fun _ => ?_
    exact (matches_wrap (hlc _) _).bind fun _ _ hl => hl.enqueue _ _
  | undelegate _ =>
    simp only [World.deliver,wrappedUndelegate,hm]
    iterate 6 refine bind_same fun _ => ?_
    exact hu _
  | beginRedelegate _ =>
    simp only [World.deliver,wrappedBeginRedelegate,hm]
    iterate 8 refine bind_same fun _ => ?_
    exact hu _
  | cancelUnbondingDelegation _ =>
    simp only [World.deliver,wrappedCancelUnbondingDelegation,hm]
    iterate 6 refine bind_same fun _ => ?_
    exact hu _
  | editValidator _ =>
    exact bind_same fun _ => bind_same fun _ => bind_same fun _ => hu _
  | updateParams _ =>
    exact bind_same fun _ => bind_same fun _ => hu _

theorem Restored.setPhase (h : Restored n w v) (phase : Phase) :
    Restored n { w with phase } { v with phase } := by
  obtain ⟨t,rfl,hs⟩ := h.exists_store
  exact ⟨rfl,hs⟩

theorem Restored.enabled_iff (h : Restored n w v) (a : Action R) : v.enabled a ↔ w.enabled a := by
  obtain ⟨t,rfl,hs⟩ := h.exists_store
  have he : t.epochs = w.store.epochs := by rw [epochs,epochs,hs.epochInfo]
  cases a with
  | startBlock _ => simp only [enabled,he]
  | finalize => simp only [enabled,he]
  | beginBlock => exact Iff.rfl
  | deliver _ _ => exact Iff.rfl
  | updateParams _ _ => exact Iff.rfl
  | slash _ => exact Iff.rfl
  | other _ => exact Iff.rfl
  | endBlock => exact Iff.rfl

theorem Restored.exec {e : Epoch} {a : Action R} (hc : OnCalendar w n e) (h : Restored n w v)
    (ha : a ≠ .beginBlock) : Matches (Restored n) (w.exec k a) (v.exec k a) := by
  have hd := h.deliver (k := k)
  have hu := h.applyMatureUnbonding (k := k)
  have he := h.endBlocker (k := k)
  have hw := h.write
  obtain ⟨t,rfl,hs⟩ := h.exists_store
  cases a with
  | startBlock _ => exact .ok ⟨rfl,hs⟩
  | beginBlock => exact absurd rfl ha
  | deliver txid msg => exact hd txid msg
  | updateParams _ params =>
    exact bind_same fun _ => bind_same fun _ =>
      (bind_same fun _ => .ok (hs.setParams params)).bind fun _ _ hst => .ok ⟨rfl,hst⟩
  | slash valAddr =>
    exact (hs.beforeValidatorSlashed hc.calendar valAddr).bind fun _ _ hst => .ok ⟨rfl,hst⟩
  | finalize =>
    refine (hu (w.lastFinalizedEpoch+1)).bind fun w' v' hwv => .ok ?_
    obtain ⟨t',rfl,hs'⟩ := hwv.exists_store
    exact ⟨rfl,hs'⟩
  | other effect => exact .ok (hw effect)
  | endBlock => exact he.bind fun _ _ hwv => .ok (hwv.setPhase .idle)

/-- The chains are in the same epoch and read the same. -/
def Resumed (w v : World R) : Prop := ∃ n e, OnCalendar w n e ∧ Restored n w v

theorem resumed_beginBlock {e : Epoch} (hc : OnCalendar w n e) (h : Restored n w v)
    (started : w.phase = .started) :
    Matches Resumed (w.exec k .beginBlock) (v.exec k .beginBlock) := by
  obtain ⟨t,rfl,hs⟩ := h.exists_store
  have hcl := hs.calendar hc.calendar
  rcases Nat.lt_or_eq_of_le hc.le_next with hlt | hn
  · have hle : w.header.height ≤ e.getLastBlockHeight := by omega
    simp only [World.exec,beginBlocker_within hc.calendar hle,beginBlocker_within hcl hle,ok_bind]
    split
    · rename_i hl
      exact .ok ⟨n,_,moves_calendar (k := k) hc (.lastBlock started hl),rfl,hs.setEpochInfo _ _⟩
    · rename_i hl
      exact .ok ⟨n,_,moves_calendar (k := k) hc (.innerBlock started (by omega)),rfl,hs⟩
  · simp only [World.exec,beginBlocker_next hc.calendar hn,beginBlocker_next hcl hn,ok_bind]
    exact .ok ⟨n+1,_,moves_calendar (k := k) hc (.nextEpoch started hn),rfl,hs.nextEpoch _ _ _⟩

def act (k : StakingKeeper R) (w : World R) (a : Action R) : Result (World R) := do
  ensure (w.enabled a) (.panic "not enabled")
  w.exec k a

theorem resumed_act (h : Resumed w v) (a : Action R) : Matches Resumed (w.act k a) (v.act k a) := by
  obtain ⟨n,e,hc,h⟩ := h
  have hes : v.act k a = (ensure (w.enabled a) (.panic "not enabled") >>= fun _ => v.exec k a) := by
    simp only [act,h.enabled_iff]
  rw [hes,act]
  by_cases hen : w.enabled a
  · simp only [ensure,hen,if_true,ok_bind]
    by_cases ha : a = .beginBlock
    · subst ha
      exact resumed_beginBlock hc h hen
    · have he := h.exec (k := k) hc ha
      generalize hx : w.exec k a = x, v.exec k a = y at he
      cases he with
      | error f => exact .error f
      | @ok w' v' hw =>
        obtain ⟨n',e',hm⟩ := moves_of_step hc ⟨hen,hx⟩
        have hcl := moves_calendar hc hm
        have hn : n' = n := by cases hm <;> first | rfl | exact absurd rfl ha
        exact .ok ⟨n',e',hcl,hn ▸ hw⟩
  · simp only [ensure,hen,if_false]
    exact .error _

end World

end AnonChain.Epoching
