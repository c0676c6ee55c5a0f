import AnonChain.BtcStaking.Moves
import AnonChain.Safety.SlashingTransactions

/-! The four lists of covenant signatures of a delegation grow together, and the quorum is reached
once. -/

namespace AnonChain.BtcStaking

open Lib StakingLib List KVStore Option State

/-- What a message does to the signatures of the delegation that it leaves under `k`. -/
inductive SigChange (s : State) (k : Hash) (d' : BTCDelegation) : Prop where
  | fresh (absent : s.btcDelegations.get k = none) (unsigned : d'.covenantSigs = [])
      (unsignedExp : ∀ e, d'.stkExp = some e → e.previousStkCovenantSigs = [])
  | kept {d : BTCDelegation} (stored : s.btcDelegations.get k = some d)
      (sigs : d'.covenantSigs = d.covenantSigs) (exp : d'.stkExp = d.stkExp)
      (quorums : ∀ q q', d'.hasCovenantQuorums q q' = d.hasCovenantQuorums q q')
  | signed {info : DelWithParams} {pk : BIP340PubKey}
      {slashingSigs unbondingSlashingSigs : List Bytes}
      {unbondingSig : Bytes} {expSig : Option Bytes} (found : s.getBTCDelWithParams k = .ok info)
      (member : ∀ e, info.delegation.stkExp = some e → ∃ prev, info.prev = some prev ∧
        pk ∈ prev.2.covenantPks)
      (eq : d' = info.delegation.addCovenantSigs pk slashingSigs unbondingSig
        unbondingSlashingSigs expSig)

/-- Every delegation a step leaves behind is new, unchanged or signed once more. -/
def SigSteps (s s' : State) : Prop :=
  ∀ k d', s'.btcDelegations.get k = some d' → SigChange s k d'

section

variable {E : Env} {s s' : State} {ctx : Ctx} {k : Hash}

theorem SigSteps.of_eq (h : s'.btcDelegations = s.btcDelegations) : SigSteps s s' := by
  intro k d hd
  rw [h] at hd
  exact .kept hd rfl rfl (fun _ _ => rfl)

theorem SigSteps.set {t : State} {d : BTCDelegation} (ht : SigSteps s t)
    (h : s'.btcDelegations = t.btcDelegations.set k d) (hd : SigChange s k d) : SigSteps s s' := by
  rw [SigSteps,h]
  exact forall_set hd ht

theorem create_sigs {pm : ParsedCreateDelegationMessage}
    (h : s.createBTCDelegation E ctx pm = .ok s') : SigSteps s s' := by
  simp only [State.createBTCDelegation,ok_iff] at h
  obtain ⟨_,hf,_,_,⟨timeInfo,p,v⟩,_,idx,_,_,rfl⟩ := h
  refine (SigSteps.of_eq rfl).set (addBTCDelegation_frame ..).1
    (.fresh (has_eq_false.mp hf) rfl ?_)
  intro e he
  obtain ⟨_,_,rfl⟩ := map_eq_some_iff.mp he
  rfl

theorem include_sigs (hr : Registry E s) {d : BTCDelegation} {proof : InclusionProof}
    (hd : s.btcDelegations.get k = some d)
    (h : s.addBTCDelegationInclusionProof E ctx d proof = .ok s') : SigSteps s s' := by
  obtain ⟨params,info,_,_,_,_,_,rfl⟩ := State.addBTCDelegationInclusionProof_spec h
  have hk : E.btc.txHash d.stakingTx = k := (hr.delegations k d hd).keyed
  exact (SigSteps.of_eq rfl).set rfl (.kept (d := d) (hk.symm ▸ hd) rfl rfl (fun _ _ => rfl))

theorem undelegate_sigs (hr : Registry E s) {msg : MsgBTCUndelegate}
    (h : btcUndelegate E s ctx msg = .ok s') : SigSteps s s' := by
  obtain ⟨info,_,s₁,_,u,hin,_,_,_,hs₁,_,run⟩ := btcUndelegate_spec h
  have hd := (getBTCDelWithParamsAux_spec hin).1
  have hk : E.btc.txHash info.delegation.stakingTx = _ := (hr.delegations _ _ hd).keyed
  have h₁ : SigSteps s s₁ := by
    rcases hs₁ with rfl | ⟨exp,he,_,hi⟩
    · exact .of_eq rfl
    · exact include_sigs hr he hi
  exact h₁.set (btcUndelegate_delegations run).1
    (.kept (d := info.delegation) (hk.symm ▸ hd) rfl rfl (fun _ _ => rfl))

theorem addCovenantSigs_member {msg : MsgAddCovenantSigs}
    (h : addCovenantSigs E s ctx msg = .ok s') :
    ∃ info tip slashingSigs unbondingSlashingSigs, s.getBTCDelWithParams msg.stakingTxHash =
      .ok info ∧ (∀ e, info.delegation.stkExp = some e → ∃ prev, info.prev = some prev ∧
        msg.pk ∈ prev.2.covenantPks) ∧
      s' = s.addCovenantSigsToBTCDelegation E ctx info msg.pk slashingSigs msg.unbondingTxSig
        unbondingSlashingSigs msg.stakeExpansionTxSig tip := by
  simp only [addCovenantSigs,ok_iff] at h
  obtain ⟨info,hi,_,_,⟨st,tip⟩,_,_,_,sl,_,_,_,us,_,_,hep,rfl⟩ := h
  refine ⟨info,tip.height,sl,us,hi,?_,rfl⟩
  intro e he
  simp only [validateStakeExpansionSig,he] at hep
  split at hep
  case h_4 sig heq _ =>
    simp only [ok_iff] at hep
    obtain ⟨_,prev,hp,hm,_⟩ := hep
    exact ⟨prev,hp,by simpa [Params.hasCovenantPK] using hm⟩
  all_goals simp_all

theorem sign_sigs (hr : Registry E s) {msg : MsgAddCovenantSigs}
    (h : addCovenantSigs E s ctx msg = .ok s') : SigSteps s s' := by
  obtain ⟨info,tip,sl,us,hi,hm,hs'⟩ := addCovenantSigs_member h
  have hd := (getBTCDelWithParamsAux_spec hi).1
  exact (SigSteps.of_eq rfl).set (addCovenantSigs_delegations hr hd hs').1
    (.signed hi hm rfl)

theorem handleStk_sigs {E : Finality.Env} (hr : Registry E.stk s) {msg : StkMsg}
    (h : handleStk E s ctx msg = .ok s') : SigSteps s s' := by
  have hp : ∀ {t : State}, FpStep ctx s t → SigSteps s t := fun hs =>
    .of_eq (FpSteps.frame hs.steps).1
  cases msg with
  | createFinalityProvider m => exact hp (createFinalityProvider_step h)
  | editFinalityProvider m => exact hp (editFinalityProvider_step h)
  | selectiveSlashingEvidence m => exact hp (selectiveSlashingEvidence_step h)
  | createBTCDelegation m =>
    simp only [handleStk,createBTCDelegation,bind_eq_ok] at h
    obtain ⟨pm,_,h⟩ := h
    exact create_sigs h
  | btcStakeExpand m =>
    obtain ⟨pm,_,h⟩ := expand_parsedKeys h
    exact create_sigs h
  | addBTCDelegationInclusionProof m =>
    obtain ⟨d,hd,_,h⟩ := addBTCDelegationInclusionProof_spec h
    exact include_sigs hr hd h
  | addCovenantSigs m => exact sign_sigs hr h
  | btcUndelegate m => exact undelegate_sigs hr h
  | updateParams m =>
    simp only [handleStk,updateParams,setParams,ok_iff] at h
    obtain ⟨_,_,_,_,_,_,_,_,rfl⟩ := h
    exact .of_eq rfl

theorem deliver_sigs {E : Finality.Env} {c c' : Chain} {a : Action} (hc : (chain E).Reachable c)
    (h : deliver E c a = .ok c') : SigSteps c.stores.stk c'.stores.stk := by
  cases a with
  | stk _ =>
    obtain ⟨stk,run,rfl⟩ := deliver_stk h
    exact handleStk_sigs (registry hc) run
  | _ => exact .of_eq (deliver_frame (baseInv hc).blocks h (by simp)).1

end

/-- The members that signed a stake expansion were on the committee of the delegation it spends,
and they signed its transaction in the same order. -/
def ExpansionSigned (s : State) (d : BTCDelegation) : Prop :=
  ∀ e, d.stkExp = some e →
    e.previousStkCovenantSigs.map SignatureInfo.pk =
      d.covenantSigs.map CovenantAdaptorSignatures.covPk ∧
    ∀ c ∈ d.covenantSigs, ∃ prev p, s.btcDelegations.get e.previousStakingTxHash = some prev ∧
      s.params.get prev.paramsVersion = some p ∧ c.covPk ∈ p.covenantPks

section

variable {s s' : State} {k : Hash}

theorem prev_stored {info : DelWithParams} (h : s.getBTCDelWithParams k = .ok info)
    {e : StakeExpansion}
    (he : info.delegation.stkExp = some e) {prev : BTCDelegation × Params}
    (hp : info.prev = some prev) : s.btcDelegations.get e.previousStakingTxHash = some prev.1 ∧
      s.params.get prev.1.paramsVersion = some prev.2 := by
  simp only [getBTCDelWithParams,getBTCDelWithParamsAux,ok_iff] at h
  obtain ⟨d,_,p,_,h⟩ := h
  cases hd : d.stkExp with
  | none =>
    simp only [hd,pure_eq_ok] at h
    simp [← h] at hp
  | some e' =>
    simp only [hd,ok_iff] at h
    obtain ⟨i,hi,rfl⟩ := h
    rw [hd,some.injEq] at he
    subst he
    rw [← some.inj hp]
    exact getBTCDelWithParamsAux_spec hi

theorem Extends.committee (hx : Extends s s') {prevHash : Hash} {pk : BIP340PubKey}
    (h : ∃ prev p, s.btcDelegations.get prevHash = some prev ∧
      s.params.get prev.paramsVersion = some p ∧ pk ∈ p.covenantPks) :
    ∃ prev p, s'.btcDelegations.get prevHash = some prev ∧
      s'.params.get prev.paramsVersion = some p ∧ pk ∈ p.covenantPks := by
  obtain ⟨prev,p,hpr,hp,hm⟩ := h
  obtain ⟨prev',hpr',ht⟩ := hx.terms _ prev hpr
  have hv : prev'.paramsVersion = prev.paramsVersion := congrArg (·.paramsVersion) ht
  exact ⟨prev',p,hpr',by rw [hv]; exact hx.params _ _ hp,hm⟩

theorem ExpansionSigned.step (hx : Extends s s')
    (h : ∀ k d, s.btcDelegations.get k = some d → ExpansionSigned s d) {d' : BTCDelegation}
    (hd : SigChange s k d') : ExpansionSigned s' d' := by
  intro e he
  cases hd with
  | fresh _ unsigned unsignedExp => simp [unsigned,unsignedExp e he]
  | kept stored sigs exp _ =>
    obtain ⟨hk,hm⟩ := h k _ stored e (exp ▸ he)
    rw [sigs]
    exact ⟨hk,fun c hc => hx.committee (hm c hc)⟩
  | @signed _ pk _ _ _ _ found member eq =>
    subst eq
    obtain ⟨e₀,he₀,rfl⟩ := map_eq_some_iff.mp he
    obtain ⟨hk,hm⟩ := h k _ (getBTCDelWithParamsAux_spec found).1 e₀ he₀
    obtain ⟨prev,hp,hmm⟩ := member e₀ he₀
    obtain ⟨hs,hpr⟩ := prev_stored found he₀ hp
    refine ⟨by simp [BTCDelegation.addCovenantSigs,StakeExpansion.addCovenantSigs,hk],?_⟩
    intro c hc
    refine hx.committee ?_
    rcases mem_append.mp hc with hc | hc
    · exact hm c hc
    · rw [mem_singleton.mp hc]
      exact ⟨prev.1,prev.2,hs,hpr,hmm⟩

end

def Quorate (s : State) (k : Hash) : Prop :=
  ∃ d, s.btcDelegations.get k = some d ∧ d.hasCovenantQuorums (s.quorums k).1 (s.quorums k).2 = true

/-- The delegations for which a message with covenant signatures records that they are active. -/
def quorumActivations (E : Finality.Env) (c : Chain) : Action → List Hash
  | .stk (.addCovenantSigs msg) =>
    match deliver E c (.stk (.addCovenantSigs msg)) with
    | .ok c' => (c'.stores.stk.eventLog.drop c.stores.stk.eventLog.length).filterMap fun e =>
        match e.event with
        | .btcDelStateUpdate h .ACTIVE => some h
        | _ => none
    | .error _ => []
  | _ => []

section

variable {E : Finality.Env} {c c' : Chain} {k : Hash}

theorem Quorate.step {s s' : State} (hr : Registry E.stk s) (hx : Extends s s') (hs : SigSteps s s')
    (h : Quorate s k) : Quorate s' k := by
  obtain ⟨d,hd,hq⟩ := h
  obtain ⟨d',hd',_⟩ := hx.terms k d hd
  obtain ⟨info,hi⟩ := (hr.delegations k d hd).resolved
  refine ⟨d',hd',?_⟩
  rw [hx.quorums hi]
  cases hs k d' hd' with
  | fresh absent => simp [absent] at hd
  | kept stored _ _ quorums =>
    rw [stored,some.injEq] at hd
    rw [quorums,hd,hq]
  | signed found _ eq =>
    have hst := (getBTCDelWithParamsAux_spec found).1
    rw [hd,some.injEq] at hst
    rw [eq,← hst]
    exact hasCovenantQuorums_addCovenantSigs _ _ _ _ _ hq

theorem quorumActivations_spec {a : Action} (hr : Registry E.stk c.stores.stk)
    (h : deliver E c a = .ok c') : quorumActivations E c a = [] ∨
      ∃ k, quorumActivations E c a = [k] ∧ ¬ Quorate c.stores.stk k ∧ Quorate c'.stores.stk k := by
  unfold quorumActivations
  split
  case h_2 => exact .inl rfl
  case h_1 msg =>
    rw [h]
    obtain ⟨stk,hs,rfl⟩ := deliver_stk h
    obtain ⟨info,tip,sl,us,hi,_,hs'⟩ := addCovenantSigs_member hs
    have hd := (getBTCDelWithParamsAux_spec hi).1
    have hst : DelStep E.stk c.ctx ⟨[],[]⟩ c.stores.stk stk := addCovenantSigs_step hs
    have hx := (hst.registry hr).1
    have hk : E.stk.btc.txHash info.delegation.stakingTx = msg.stakingTxHash :=
      (hr.delegations _ _ hd).keyed
    have hse := (addCovenantSigs_delegations hr hd hs').1
    simp only [addCovenantSigsToBTCDelegation] at hs'
    split at hs'
    case isFalse hn => exact .inl (by simp [hs',setBTCDelegation])
    case isTrue hy =>
      refine .inr ⟨msg.stakingTxHash,?_,?_,?_⟩
      · simp [hs',addPowerDistUpdateEvent,setBTCDelegation,BTCDelegation.addCovenantSigs,hk]
      · rintro ⟨d,hd',hq⟩
        rw [hd,some.injEq] at hd'
        rw [← hd',quorums_eq hi] at hq
        exact hy.1 hq
      · refine ⟨_,by rw [hse,get_set_self],?_⟩
        rw [hx.quorums hi,quorums_eq hi]
        exact hy.2.1

structure SigInv (c : Chain) (activated : List Hash) : Prop where
  once : activated.Nodup
  quorate : ∀ k ∈ activated, Quorate c.stores.stk k
  expansions : ∀ k d, c.stores.stk.btcDelegations.get k = some d → ExpansionSigned c.stores.stk d

theorem SigInv.deliver {a : Action} {activated : List Hash} (hc : (chain E).Reachable c)
    (h : SigInv c activated) (ho : deliver E c a = .ok c') :
    SigInv c' (activated ++ quorumActivations E c a) := by
  have hr := registry hc
  have hx := ((deliver_stakingStep (baseInv hc).blocks ho).registry hr).1
  have hs := deliver_sigs hc ho
  have hkp : ∀ k ∈ activated, Quorate c'.stores.stk k := fun k hk => (h.quorate k hk).step hr hx hs
  have he : ∀ k d, c'.stores.stk.btcDelegations.get k = some d → ExpansionSigned c'.stores.stk d :=
    fun k d hd => ExpansionSigned.step hx h.expansions (hs k d hd)
  rcases quorumActivations_spec hr ho with hnn | ⟨k,hk,hn,hrc⟩
  · rw [hnn,append_nil]
    exact ⟨h.once,hkp,he⟩
  · rw [hk]
    refine ⟨nodup_concat h.once (fun hm => hn (h.quorate k hm)),?_,he⟩
    intro k' hk'
    rcases mem_append.mp hk' with hk' | hk'
    · exact hkp k' hk'
    · exact mem_singleton.mp hk' ▸ hrc

theorem sigInv {activated : List Hash}
    (h : ((chain E).recorded (quorumActivations E)).Reachable (c,activated)) :
    SigInv c activated := by
  refine h.invariant (P := fun x => SigInv x.1 x.2) ?_ ?_
  · rintro ⟨c,l⟩ ⟨hg,rfl⟩
    exact ⟨by simp,by simp,by simp [(show Genesis E c from hg).noDelegations]⟩
  · rintro ⟨c,l⟩ a ⟨c',l'⟩ hr hi ⟨hs,rfl⟩
    rcases hs with ho | ⟨_,⟨err,he⟩,heq⟩
    · exact SigInv.deliver hr.of_recorded hi ho
    · have hn : quorumActivations E c a = [] := by
        unfold quorumActivations
        split
        · rw [he]
        · rfl
      rw [heq,hn,append_nil]
      exact hi

end

/-- In every run the signature lists of a delegation name the same distinct members in one order,
every adaptor signature is verified, and the quorum activates it at most once. -/
theorem covenant_signatures_sound {E : Finality.Env} {S : Env} {B : Bitcoin}
    (hE : E.stk = S.withScripts B) {c : Chain} {activated : List Hash}
    (h : ((chain E).recorded (quorumActivations E)).Reachable (c,activated)) :
    activated.Nodup ∧ ∀ k d, c.stores.stk.btcDelegations.get k = some d →
      ∃ p, c.stores.stk.params.get d.paramsVersion = some p ∧ Signed B p d ∧
        (∃ info, d.getStakingInfo B p = .ok info) ∧ (∃ info, d.getUnbondingInfo B p = .ok info) ∧
        ExpansionSigned c.stores.stk d := by
  have hi := sigInv h
  refine ⟨hi.once,?_⟩
  intro k d hd
  have hr := reachable_reached h.of_recorded
  rw [hE] at hr
  obtain ⟨p,hp,hc,hs⟩ := hr.contracts.delegations k d hd
  obtain ⟨info,hin,_⟩ := hc.slashable hs
  obtain ⟨uinfo,hu,_⟩ := hc.unbondingSlashable hs
  exact ⟨p,hp,hs,⟨info,hin⟩,⟨uinfo,hu⟩,hi.expansions k d hd⟩

namespace SignedRun

open AnonChain.Regtest

def params : Params := committee [4] 1

def stakeMsg : MsgCreateBTCDelegation :=
  let pm := parsedMsg params [2] 0
  { stakerAddr := some pm.stakerAddress, pop := [], btcPk := pm.stakerPK,
    fpBtcPkList := pm.finalityProviderKeys, stakingTime := pm.stakingTime,
    stakingValue := pm.stakingValue, stakingTx := pm.stakingTx,
    stakingTxInclusionProof := some (inclusionProof pm.stakingTx 100),
    slashingTx := pm.stakingSlashingTx, delegatorSlashingSig := pm.stakerStakingSlashingTxSig,
    unbondingTime := pm.unbondingTime, unbondingTx := pm.unbondingTx,
    unbondingValue := pm.unbondingValue, unbondingSlashingTx := pm.unbondingSlashingTx,
    delegatorUnbondingSlashingSig := pm.stakerUnbondingSlashingSig }

def env : Finality.Env := { AnonChain.Regtest.env with stk := scripts }

def start : Chain :=
  { genesis 3 with stores := ⟨{ (genesis 3).stores.stk with params := KVStore.empty.set 0 params },
      (genesis 3).stores.fin⟩ }

theorem start_init : Genesis env start :=
  { (genesis_init : Genesis _ (genesis 3)) with
    stkParams := forall_set rfl nofun }

def actions : List Action :=
  [AnonChain.Regtest.beginBlock 1,register 2,.stk (.createBTCDelegation stakeMsg),
    .stk (.addCovenantSigs (covenantMsg params [2] 0 4))]

def signedTest (c : Chain) : Bool :=
  match c.stores.stk.btcDelegations.get (txHash (stakeTx params [2] 0)) with
  | some d => d.covenantSigs.length = 1
  | none => false

end SignedRun

theorem covenant_signatures_sound_signed : ∃ c activated d p,
    ((chain SignedRun.env).recorded (quorumActivations SignedRun.env)).Reachable (c,activated) ∧
      activated.Nodup ∧
      c.stores.stk.btcDelegations.get (Regtest.txHash (Regtest.stakeTx SignedRun.params [2] 0)) =
        some d ∧
      d.covenantSigs.length = 1 ∧ Signed Regtest.bitcoin p d := by
  obtain ⟨c,hr,ht⟩ := holds_iff.mp
    (by decide +kernel : holds (deliverAll SignedRun.env SignedRun.start
      SignedRun.actions) SignedRun.signedTest = true)
  have hi : (chain SignedRun.env).Reachable SignedRun.start := .init SignedRun.start_init
  obtain ⟨l,hl⟩ := (reachable_deliverAll hi hr).recorded (quorumActivations SignedRun.env)
  unfold SignedRun.signedTest at ht
  split at ht
  case h_2 => cases ht
  case h_1 d hd =>
    obtain ⟨ho,hsn⟩ := covenant_signatures_sound (S := Regtest.stk) rfl hl
    obtain ⟨p,_,hs,_⟩ := hsn _ d hd
    exact ⟨c,l,d,p,hl,ho,hd,of_decide_eq_true ht,hs⟩

end AnonChain.BtcStaking
