import AnonChain.BtcStaking.Delegations

/-! The messages on delegations as steps, and the power distribution events they file. -/

namespace AnonChain.BtcStaking

open Lib BtcLightClient List KVStore State

/-- What a message shows of the Bitcoin chain: proofs of inclusion, and transactions that spend a
stake. -/
structure Shown where
  proofs : List InclusionProof
  spending : List MsgTx

structure CanInclude (ctx : Ctx) (proof : InclusionProof) (s : State) (d : BTCDelegation)
    (params : Params) (info : DelegationTimeRangeInfo) : Prop where
  absent : d.hasInclusionProof = false
  version : s.params.get d.paramsVersion = some params
  quorum : s.btcDelHasCovenantQuorums d params.covenantQuorum = .ok true
  bonded : d.isUnbondedEarly = false
  inclusion : Inclusion ctx proof d.stakingTime params.unbondingTimeBlocks info

structure Open (ctx : Ctx) (s : State) (h : Hash) (info : DelWithParams) (tip : BTCHeaderInfo) :
    Prop where
  found : s.getBTCDelWithParams h = .ok info
  atTip : ctx.btclc.getTip = some tip
  bonded : info.statusAt tip.height ≠ .UNBONDED
  unexpired : info.statusAt tip.height ≠ .EXPIRED

/-- The writes of an accepted message on parameters or delegations. -/
inductive DelStep (E : Env) (ctx : Ctx) (shown : Shown) (s : State) : State → Prop where
  | params {p : Params} {pairs : List HeightVersionPair} (valid : Params.validate E p = .ok ()) :
      DelStep E ctx shown s { s with
        params := s.params.set s.nextParamsVersion p, heightToVersionMap := pairs }
  | create {d : BTCDelegation} (new : NewDelegation E ctx s d) :
      DelStep E ctx shown s (s.addBTCDelegation E ctx d)
  | prove {h : Hash} {d : BTCDelegation} {params : Params} {info : DelegationTimeRangeInfo}
      {proof : InclusionProof} (stored : s.btcDelegations.get h = some d) (plain : d.stkExp = none)
      (seen : proof ∈ shown.proofs) (can : CanInclude ctx proof s d params info) :
      DelStep E ctx shown s (s.withInclusion E ctx d params info)
  | sign {h : Hash} {info : DelWithParams} {tip : BTCHeaderInfo} {covPk : BIP340PubKey}
      {slashingSigs unbondingSlashingSigs : List Bytes} {unbondingSig : Bytes}
      {expansionSig : Option Bytes} (isOpen : Open ctx s h info tip) :
      DelStep E ctx shown s (s.addCovenantSigsToBTCDelegation E ctx info covPk slashingSigs
        unbondingSig unbondingSlashingSigs expansionSig tip.height)
  | unbond {h : Hash} {info : DelWithParams} {tip : BTCHeaderInfo} {u : DelegatorUnbondingInfo}
      {s' : State} (isOpen : Open ctx s h info tip)
      (run : s.btcUndelegate E ctx info.delegation u = .ok s') : DelStep E ctx shown s s'
  | expand {h : Hash} {info : DelWithParams} {tip : BTCHeaderInfo}
      {exp : BTCDelegation} {tx : MsgTx}
      {params : Params} {tinfo : DelegationTimeRangeInfo} {idx : Nat} {u : DelegatorUnbondingInfo}
      {proof : InclusionProof} {s' : State} (isOpen : Open ctx s h info tip)
      (spending : tx ∈ shown.spending) (stored : s.btcDelegations.get (E.btc.txHash tx) = some exp)
      (expansion : exp.isStakeExpansion = true) (seen : proof ∈ shown.proofs)
      (can : CanInclude ctx proof s exp params tinfo)
      (spends : findInputIdx tx (E.btc.txHash info.delegation.stakingTx)
        info.delegation.stakingOutputIdx = some idx)
      (run : (s.withInclusion E ctx exp params tinfo).btcUndelegate E ctx info.delegation u =
        .ok s') :
      DelStep E ctx shown s s'

def MsgAddBTCDelegationInclusionProof.shown (msg : MsgAddBTCDelegationInclusionProof) : Shown :=
  ⟨[msg.stakingTxInclusionProof],[]⟩

def MsgBTCUndelegate.shown (msg : MsgBTCUndelegate) : Shown :=
  ⟨[msg.stakeSpendingTxInclusionProof],[msg.stakeSpendingTx]⟩

section

variable {E : Env} {ctx : Ctx} {s s' : State} {shown : Shown}

theorem canInclude_spec {d : BTCDelegation} {p : InclusionProof}
    (h : s.addBTCDelegationInclusionProof E ctx d p = .ok s') :
    ∃ params info, CanInclude ctx p s d params info ∧ s' = s.withInclusion E ctx d params info := by
  obtain ⟨params,info,ha,hp,hq,hu,hi,rfl⟩ := State.addBTCDelegationInclusionProof_spec h
  exact ⟨params,info,⟨ha,hp,hq,hu,hi⟩,rfl⟩

theorem addBTCDelegationInclusionProof_step {msg : MsgAddBTCDelegationInclusionProof}
    (h : addBTCDelegationInclusionProof E s ctx msg = .ok s') : DelStep E ctx msg.shown s s' := by
  obtain ⟨d,hd,hp,h⟩ := addBTCDelegationInclusionProof_spec h
  obtain ⟨params,info,hc,rfl⟩ := canInclude_spec h
  exact .prove hd hp mem_cons_self hc

theorem addCovenantSigs_step {msg : MsgAddCovenantSigs} (h : addCovenantSigs E s ctx msg = .ok s') :
    DelStep E ctx shown s s' := by
  obtain ⟨info,tip,sl,us,hi,ht,hn,hn',rfl⟩ := addCovenantSigs_spec h
  exact .sign ⟨hi,ht,hn,hn'⟩

theorem btcUndelegate_step {msg : MsgBTCUndelegate} (h : btcUndelegate E s ctx msg = .ok s') :
    DelStep E ctx msg.shown s s' := by
  obtain ⟨info,tip,s₁,idx,u,hi,ht,hn,hn',hs₁,hid,hr⟩ := btcUndelegate_spec h
  rcases hs₁ with rfl | ⟨exp,he,hse,hic⟩
  · exact .unbond ⟨hi,ht,hn,hn'⟩ hr
  · obtain ⟨params,tinfo,hc,rfl⟩ := canInclude_spec hic
    exact .expand ⟨hi,ht,hn,hn'⟩ mem_cons_self he hse mem_cons_self hc hid hr

theorem updateParams_step {msg : MsgUpdateParams} (h : updateParams E s ctx msg = .ok s') :
    DelStep E ctx shown s s' := by
  simp only [updateParams,setParams,ok_iff] at h
  obtain ⟨_,_,_,hv,pairs,_,_,_,rfl⟩ := h
  exact .params hv

end

/-- All events but expiries, which are filed ahead of time. -/
def EventPowerDistUpdate.live : EventPowerDistUpdate → Bool
  | .btcDelStateUpdate _ .EXPIRED => false
  | _ => true

def EventPowerDistUpdate.ofDelegation : EventPowerDistUpdate → Option Hash
  | .btcDelStateUpdate h _ => some h
  | _ => none

open EventPowerDistUpdate (live ofDelegation)
/-- From one state to the next, events are appended, in one order, to the history and under their
Bitcoin heights; a live one is filed under the tip. -/
structure Records (ctx : Ctx) (s s' : State) (new : List RecordedEvent) : Prop where
  log : s'.eventLog = s.eventLog ++ new
  filed : ∀ x, s'.eventsAt x = s.eventsAt x ++ (new.filter (·.btcHeight = x)).map (·.event)
  block : ∀ e ∈ new, e.anonHeight = ctx.header.height
  tip : ∀ e ∈ new, e.event.live = true → ∃ t, ctx.btclc.getTip = some t ∧ e.btcHeight = t.height
  heights : s'.btcHeights = s.btcHeights

variable {E : Env} {ctx : Ctx} {s s' : State}

theorem Records.nothing (hl : s'.eventLog = s.eventLog)
    (he : s'.powerDistUpdateEvents = s.powerDistUpdateEvents)
    (hh : s'.btcHeights = s.btcHeights) : Records ctx s s' [] where
  log := by simp [hl]
  filed x := by simp [eventsAt,he]
  block := by simp
  tip := by simp
  heights := hh

theorem Records.trans {t : State} {new new' : List RecordedEvent} (h : Records ctx s s' new)
    (h' : Records ctx s' t new') : Records ctx s t (new ++ new') where
  log := by rw [h'.log,h.log,append_assoc]
  filed x := by rw [h'.filed,h.filed,filter_append,map_append,append_assoc]
  block := by
    intro e he
    exact (mem_append.mp he).elim (h.block e) (h'.block e)
  tip := by
    intro e he
    exact (mem_append.mp he).elim (h.tip e) (h'.tip e)
  heights := h'.heights.trans h.heights

theorem Records.add (s : State) (btcHeight : Nat) (event : EventPowerDistUpdate)
    (ht : event.live = true → ∃ t, ctx.btclc.getTip = some t ∧ btcHeight = t.height) :
    Records ctx s (s.addPowerDistUpdateEvent ctx.header.height btcHeight event)
      [⟨ctx.header.height,btcHeight,event⟩] where
  log := rfl
  filed x := by
    simp only [addPowerDistUpdateEvent,eventsAt,getD_set]
    by_cases hx : x = btcHeight
    · subst hx
      simp
    · simp [hx,Ne.symm hx]
  block := by simp
  tip := by simpa using ht
  heights := rfl

theorem Records.write_add {t : State} (h : Records ctx s t []) (btcHeight : Nat)
    (event : EventPowerDistUpdate)
    (ht : event.live = true → ∃ b, ctx.btclc.getTip = some b ∧ btcHeight = b.height) :
    Records ctx s (t.addPowerDistUpdateEvent ctx.header.height btcHeight event)
      [⟨ctx.header.height,btcHeight,event⟩] :=
  h.trans (.add t btcHeight event ht)

theorem FpStep.records (h : FpStep ctx s s') : ∃ new, Records ctx s s' new ∧ ∀ e ∈ new,
    e.event.ofDelegation = none ∧ ∀ pk, e.event = .slashedFp pk → s.FpKeyed →
      0 < ctx.header.height → s'.isSlashedFp pk := by
  cases h with
  | register => exact ⟨[],.nothing rfl rfl rfl,by simp⟩
  | edit => exact ⟨[],.nothing rfl rfl rfl,by simp⟩
  | @slash pk fp fp' _ _ _ ht btcPk height =>
    refine ⟨_,.write_add (by exact .nothing rfl rfl rfl) _ _ (fun _ => ⟨_,ht,rfl⟩),?_⟩
    simp only [mem_singleton,forall_eq,ofDelegation,true_and,
      EventPowerDistUpdate.slashedFp.injEq]
    rintro pk' rfl _ hp
    refine ⟨fp',?_,?_⟩
    · rw [← btcPk]
      exact get_set_self _ _ _
    · simpa [FinalityProvider.isSlashed,height] using hp
  | jail _ _ ht =>
    exact ⟨_,.write_add (by exact .nothing rfl rfl rfl) _ _ (fun _ => ⟨_,ht,rfl⟩),
      by simp [ofDelegation]⟩
  | unjail _ _ ht =>
    exact ⟨_,.write_add (by exact .nothing rfl rfl rfl) _ _ (fun _ => ⟨_,ht,rfl⟩),
      by simp [ofDelegation]⟩

theorem FpSteps.records (h : FpSteps ctx s s') : ∃ new, Records ctx s s' new ∧ ∀ e ∈ new,
    e.event.ofDelegation = none ∧ ∀ pk, e.event = .slashedFp pk → s.FpKeyed →
      0 < ctx.header.height → s'.isSlashedFp pk := by
  induction h with
  | refl => exact ⟨[],.nothing rfl rfl rfl,by simp⟩
  | tail hst hs ih =>
    obtain ⟨new,hn,hp⟩ := ih
    obtain ⟨new',hn',hp'⟩ := hs.records
    refine ⟨new ++ new',hn.trans hn',?_⟩
    intro e he
    cases mem_append.mp he with
    | inl hold =>
      refine ⟨(hp e hold).1,?_⟩
      intro pk hpk hk hps
      exact hs.slashed (FpSteps.keyed hst hk) ((hp e hold).2 pk hpk hk hps)
    | inr ha =>
      refine ⟨(hp' e ha).1,?_⟩
      intro pk hpk hk hps
      exact (hp' e ha).2 pk hpk (FpSteps.keyed hst hk) hps

theorem withInclusion_records {d : BTCDelegation} {params : Params} {info : DelegationTimeRangeInfo}
    (ht : ∃ t, ctx.btclc.getTip = some t ∧ info.tipHeight = t.height) :
    Records ctx s (s.withInclusion E ctx d params info)
      [⟨ctx.header.height,info.tipHeight,.btcDelStateUpdate (E.btc.txHash d.stakingTx) .ACTIVE⟩,
        ⟨ctx.header.height,info.endHeight-params.unbondingTimeBlocks,
          .btcDelStateUpdate (E.btc.txHash d.stakingTx) .EXPIRED⟩] :=
  Records.trans (Records.write_add (by exact .nothing rfl rfl rfl) _ _ (fun _ => ht))
    (.add _ _ _ (by simp [live]))

theorem btcUndelegate_records {d : BTCDelegation} {u : DelegatorUnbondingInfo}
    (h : s.btcUndelegate E ctx d u = .ok s') : ∃ new, Records ctx s s' new := by
  rcases State.btcUndelegate_spec h with ⟨_,rfl⟩ | ⟨_,tip,ht,rfl⟩
  · exact ⟨[],.nothing rfl rfl rfl⟩
  · exact ⟨_,.write_add (by exact .nothing rfl rfl rfl) _ _ (fun _ => ⟨tip,ht,rfl⟩)⟩

theorem DelStep.records {shown : Shown} (h : DelStep E ctx shown s s') :
    ∃ new, Records ctx s s' new := by
  cases h with
  | params => exact ⟨[],.nothing rfl rfl rfl⟩
  | create _ =>
    simp only [addBTCDelegation]
    split
    · exact ⟨_,.write_add (by exact .nothing rfl rfl rfl) _ _ (by simp [live])⟩
    · exact ⟨[],.nothing rfl rfl rfl⟩
  | prove _ _ _ can => exact ⟨_,withInclusion_records can.inclusion.tip⟩
  | sign isOpen =>
    simp only [addCovenantSigsToBTCDelegation]
    split
    · exact ⟨_,.write_add (by exact .nothing rfl rfl rfl) _ _ (fun _ => ⟨_,isOpen.atTip,rfl⟩)⟩
    · exact ⟨[],.nothing rfl rfl rfl⟩
  | unbond _ run => exact btcUndelegate_records run
  | expand _ _ _ _ _ can _ run =>
    obtain ⟨new,hn⟩ := btcUndelegate_records run
    exact ⟨_,(withInclusion_records can.inclusion.tip).trans hn⟩

theorem eventsAt_clear (s : State) (l : List Nat) (x : Nat) :
    (l.foldl State.clearPowerDistUpdateEvents s).eventsAt x =
      if x ∈ l then [] else s.eventsAt x := by
  induction l generalizing s with
  | nil => simp
  | cons y l ih =>
    simp only [foldl_cons,ih,mem_cons]
    by_cases hx : x ∈ l
    · simp [hx]
    · by_cases hy : x = y <;>
        simp [hx,hy,eventsAt,clearPowerDistUpdateEvents,KVStore.getD,KVStore.get_delete]

theorem clear_frame (s : State) (l : List Nat) :
    (l.foldl State.clearPowerDistUpdateEvents s).eventLog = s.eventLog ∧
      (l.foldl State.clearPowerDistUpdateEvents s).btcHeights = s.btcHeights := by
  refine foldl_keeps (P := fun t : State => t.eventLog = s.eventLog ∧
    t.btcHeights = s.btcHeights) ?_
    ⟨rfl,rfl⟩
  rintro x _ t ⟨hl,hh⟩
  exact ⟨hl,hh⟩

theorem indexBTCHeight_eq {tip : BTCHeaderInfo} (h : ctx.btclc.getTip = some tip) :
    s.indexBTCHeight ctx =
      { s with btcHeights := s.btcHeights.set ctx.header.height tip.height } := by
  simp only [indexBTCHeight,h]

end AnonChain.BtcStaking
