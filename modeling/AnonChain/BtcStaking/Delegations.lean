import AnonChain.BtcStaking.Providers

/-! What a message can do to a Bitcoin delegation. -/

namespace AnonChain.BtcStaking

open Lib BtcLightClient State

/-- The facts an accepted inclusion proof establishes about a delegation that becomes included
at `startHeight`. -/
structure Inclusion (ctx : Ctx) (proof : InclusionProof) (stakingTime unbondingTime : Nat)
    (info : DelegationTimeRangeInfo) : Prop where
  header : ∃ i, ctx.btclc.getHeaderByHash proof.headerHash = .ok i ∧ info.startHeight = i.height
  tip : ∃ t, ctx.btclc.getTip = some t ∧ info.tipHeight = t.height
  endHeight : info.endHeight = info.startHeight+stakingTime
  live : info.tipHeight+unbondingTime < info.endHeight

structure NewDelegation (E : Env) (ctx : Ctx) (s : State) (d : BTCDelegation) : Prop where
  fresh : s.btcDelegations.get (E.btc.txHash d.stakingTx) = none
  unsigned : d.covenantSigs = []
  notUnbonded : d.isUnbondedEarly = false
  params : ∃ p, s.params.get d.paramsVersion = some p ∧ d.unbondingTime = p.unbondingTimeBlocks
  providers : ∀ pk ∈ d.fpBtcPkList, ∃ fp, s.finalityProviders.get pk = some fp ∧
    fp.isSlashed = false
  single : d.fpBtcPkList.length = 1
  time : (d.startHeight = 0 ∧ d.endHeight = 0) ∨ ∃ proof tip,
    Inclusion ctx proof d.stakingTime d.unbondingTime ⟨d.startHeight,d.endHeight,tip⟩
  expansion : ∀ e, d.stkExp = some e → d.startHeight = 0 ∧ d.endHeight = 0 ∧
    ∃ info tx₀, s.getBTCDelWithParams e.previousStakingTxHash = .ok info ∧
      d.stakingTx.txIn[0]? = some tx₀ ∧
      tx₀.previousOutPoint = ⟨e.previousStakingTxHash,info.delegation.stakingOutputIdx⟩

def State.withInclusion (E : Env) (s : State) (ctx : Ctx) (d : BTCDelegation) (params : Params)
    (info : DelegationTimeRangeInfo) : State :=
  ((s.setBTCDelegation E
      { d with
        startHeight := info.startHeight
        endHeight := info.endHeight }).addPowerDistUpdateEvent
    ctx.header.height info.tipHeight
    (.btcDelStateUpdate (E.btc.txHash d.stakingTx) .ACTIVE)).addPowerDistUpdateEvent
    ctx.header.height (info.endHeight-params.unbondingTimeBlocks)
    (.btcDelStateUpdate (E.btc.txHash d.stakingTx) .EXPIRED)

def BTCDelegation.withUnbonding (d : BTCDelegation) (u : DelegatorUnbondingInfo) : BTCDelegation :=
  { d with btcUndelegation := { d.btcUndelegation with delegatorUnbondingInfo := some u } }

variable {E : Env} {ctx : Ctx} {s s' : State} {pm : ParsedCreateDelegationMessage}
  {msg : MsgCreateBTCDelegation}

theorem verifyInclusionProofAndGetHeight_spec {tx : MsgTx} {depth stakingTime unbondingTime : Nat}
    {p : InclusionProof} {info : DelegationTimeRangeInfo}
    (h : verifyInclusionProofAndGetHeight E ctx tx depth stakingTime unbondingTime p = .ok info) :
    Inclusion ctx p stakingTime unbondingTime info := by
  simp only [verifyInclusionProofAndGetHeight,ok_iff] at h
  obtain ⟨i,hi,_,_,t,ht,_,hl,rfl⟩ := h
  exact ⟨⟨i,hi,rfl⟩,⟨t,ht,rfl⟩,rfl,hl⟩

theorem validateStakedFPs_spec {l : List BIP340PubKey} (h : s.validateStakedFPs l = .ok ()) :
    ∀ pk ∈ l, ∃ fp, s.finalityProviders.get pk = some fp ∧ fp.isSlashed = false := by
  induction l with
  | nil => simp
  | cons pk l ih =>
    simp only [validateStakedFPs,ok_iff] at h
    obtain ⟨fp,hf,hc,_,hl⟩ := h
    intro pk' hp'
    cases List.mem_cons.mp hp' with
    | inl he => exact ⟨fp,by rw [he]; exact hf,hc⟩
    | inr hm => exact ih hl pk' hm

theorem getParamsForBtcHeight_spec {height : Nat} {r : Params × Nat}
    (h : s.getParamsForBtcHeight height = .ok r) : s.params.get r.2 = some r.1 := by
  simp only [getParamsForBtcHeight,getParamsByVersion,ok_iff] at h
  obtain ⟨v,_,p,hp,rfl⟩ := h
  exact hp

theorem getTimeInfoAndParams_spec
    {r : DelegationTimeRangeInfo × Params × Nat} (h : s.getTimeInfoAndParams E ctx pm = .ok r) :
    s.params.get r.2.2 = some r.2.1 ∧
      ((r.1.startHeight = 0 ∧ r.1.endHeight = 0) ∨
        ∃ proof, pm.stakingTxProofOfInclusion = some proof ∧
        Inclusion ctx proof pm.stakingTime pm.unbondingTime r.1) := by
  unfold getTimeInfoAndParams at h
  split at h
  case h_1 proof hpr =>
    simp only [ok_iff] at h
    obtain ⟨info,hi,pv,hp,rfl⟩ := h
    exact ⟨getParamsForBtcHeight_spec hp,
      .inr ⟨proof,hpr,verifyInclusionProofAndGetHeight_spec hi⟩⟩
  case h_2 =>
    simp only [ok_iff] at h
    obtain ⟨t,_,pv,hp,rfl⟩ := h
    exact ⟨getParamsForBtcHeight_spec hp,.inl ⟨rfl,rfl⟩⟩

/-- The part of the message that decides what a new delegation is. -/
structure ParsedFacts (E : Env) (s : State) (pm : ParsedCreateDelegationMessage) : Prop where
  single : pm.finalityProviderKeys.length = 1
  expansion : ∀ e, pm.stkExp = some e → pm.stakingTxProofOfInclusion = none ∧
    ∃ info tx₀, s.getBTCDelWithParams e.previousActiveStkTxHash = .ok info ∧
      pm.stakingTx.txIn[0]? = some tx₀ ∧
      tx₀.previousOutPoint = ⟨e.previousActiveStkTxHash,info.delegation.stakingOutputIdx⟩

theorem validateParsedMessage_unbondingTime {p : Params} {i : Nat}
    (h : validateParsedMessageAgainstTheParams E pm p = .ok i) :
    pm.unbondingTime = p.unbondingTimeBlocks := by
  unfold validateParsedMessageAgainstTheParams at h
  rw [bind_eq_ok] at h
  obtain ⟨_,he,_⟩ := h
  exact ensure_eq_ok.mp he

theorem State.createBTCDelegation_spec
    (hpm : ParsedFacts E s pm) (h : s.createBTCDelegation E ctx pm = .ok s') :
    ∃ d, NewDelegation E ctx s d ∧ s' = s.addBTCDelegation E ctx d := by
  simp only [createBTCDelegation,ok_iff] at h
  obtain ⟨_,hf,_,hfp,⟨timeInfo,p,v⟩,ht,idx,hv,_,rfl⟩ := h
  obtain ⟨hp,ht⟩ := getTimeInfoAndParams_spec ht
  refine ⟨_,⟨KVStore.has_eq_false.mp hf,rfl,rfl,
    ⟨p,hp,validateParsedMessage_unbondingTime hv⟩,validateStakedFPs_spec hfp,hpm.single,?_,?_⟩,rfl⟩
  · cases ht with
    | inl h0 => exact .inl h0
    | inr hi =>
      obtain ⟨proof,_,hi⟩ := hi
      exact .inr ⟨proof,timeInfo.tipHeight,hi⟩
  · intro e he
    simp only [newBTCDelegation,Option.map_eq_some_iff] at he
    obtain ⟨e',he',rfl⟩ := he
    obtain ⟨hn,hpr⟩ := hpm.expansion e' he'
    cases ht with
    | inl h0 => exact ⟨h0.1,h0.2,hpr⟩
    | inr hi =>
      obtain ⟨proof,hp,_⟩ := hi
      simp [hn] at hp

theorem parseCreateDelegationMessage_spec (h : parseCreateDelegationMessage E msg = .ok pm) :
    pm.finalityProviderKeys.length = 1 ∧ pm.stkExp = none ∧ pm.stakingTx = msg.stakingTx ∧
      pm.stakingTxProofOfInclusion = msg.stakingTxInclusionProof := by
  simp only [parseCreateDelegationMessage,ok_iff] at h
  obtain ⟨_,_,_,_,_,_,_,ho,_,_,_,rfl⟩ := h
  exact ⟨ho,rfl,rfl,rfl⟩

theorem createBTCDelegation_spec (h : createBTCDelegation E s ctx msg = .ok s') :
    ∃ d, NewDelegation E ctx s d ∧ s' = s.addBTCDelegation E ctx d := by
  rw [createBTCDelegation,bind_eq_ok] at h
  obtain ⟨pm,hp,h⟩ := h
  obtain ⟨ho,hn,_,_⟩ := parseCreateDelegationMessage_spec hp
  exact State.createBTCDelegation_spec ⟨ho,by simp [hn]⟩ h

theorem toParsed_spec {msg : MsgBtcStakeExpand} (h : msg.toParsed E = .ok pm) :
    pm.finalityProviderKeys.length = 1 ∧
      pm.stakingTxProofOfInclusion = none ∧
      ∃ e tx₀, pm.stkExp = some e ∧ e.previousActiveStkTxHash = msg.previousStakingTxHash ∧
        pm.stakingTx.txIn[0]? = some tx₀ ∧
        tx₀.previousOutPoint.hash = e.previousActiveStkTxHash := by
  simp only [MsgBtcStakeExpand.toParsed,MsgBtcStakeExpand.getStakeExpansion,ok_iff] at h
  obtain ⟨pm₀,hpm₀,e,⟨_,in₀,hi₀,in₁,_,hp,_,out,_,_,rfl⟩,rfl⟩ := h
  obtain ⟨ho,_,ht,hpr⟩ := parseCreateDelegationMessage_spec hpm₀
  exact ⟨ho,hpr,_,in₀,rfl,rfl,by rw [ht]; exact hi₀,hp⟩

theorem btcStakeExpand_spec {msg : MsgBtcStakeExpand} (h : btcStakeExpand E s ctx msg = .ok s') :
    ∃ d, NewDelegation E ctx s d ∧ s' = s.addBTCDelegation E ctx d := by
  simp only [btcStakeExpand,isBtcDelegationActive,ok_iff] at h
  obtain ⟨info,⟨_,hif,_,_,_,rfl⟩,_,pm,hpm,e,he,_,_,_,_,in₀,hi₀,hid,_,_,tip,_,pv,_,_,h⟩ := h
  obtain ⟨ho,hpr,e',tx₀,he',hp,ht,hh⟩ := toParsed_spec hpm
  refine State.createBTCDelegation_spec ⟨ho,?_⟩ h
  intro e₁ he₁
  have heq : e₁ = e' := Option.some.inj (he₁.symm.trans he')
  have hi : tx₀ = in₀ := Option.some.inj (ht.symm.trans hi₀)
  subst heq hi
  have hot : tx₀.previousOutPoint = ⟨e₁.previousActiveStkTxHash,tx₀.previousOutPoint.index⟩ := by
    rw [← hh]
  exact ⟨hpr,_,tx₀,by rw [hp]; exact hif,ht,by rw [hid]; exact hot⟩

theorem State.addBTCDelegationInclusionProof_spec {d : BTCDelegation} {p : InclusionProof}
    (h : s.addBTCDelegationInclusionProof E ctx d p = .ok s') :
    ∃ params info, d.hasInclusionProof = false ∧ s.params.get d.paramsVersion = some params ∧
      s.btcDelHasCovenantQuorums d params.covenantQuorum = .ok true ∧ d.isUnbondedEarly = false ∧
      Inclusion ctx p d.stakingTime params.unbondingTimeBlocks info ∧
      s' = s.withInclusion E ctx d params info := by
  simp only [addBTCDelegationInclusionProof,getParamsByVersion,ok_iff] at h
  obtain ⟨ha,params,hp,_,hq,rfl,hu,info,hi,_,rfl⟩ := h
  exact ⟨params,info,ha,hp,hq,hu,verifyInclusionProofAndGetHeight_spec hi,rfl⟩

theorem addBTCDelegationInclusionProof_spec {msg : MsgAddBTCDelegationInclusionProof}
    (h : addBTCDelegationInclusionProof E s ctx msg = .ok s') :
    ∃ d, s.btcDelegations.get msg.stakingTxHash = some d ∧ d.stkExp = none ∧
      s.addBTCDelegationInclusionProof E ctx d msg.stakingTxInclusionProof = .ok s' := by
  simp only [addBTCDelegationInclusionProof,ok_iff] at h
  obtain ⟨d,hd,he,h⟩ := h
  exact ⟨d,hd,by simpa [BTCDelegation.isStakeExpansion] using he,h⟩

def DelWithParams.statusAt (info : DelWithParams) (btcHeight : Nat) : BTCDelegationStatus :=
  info.delegation.getStatus btcHeight info.params.covenantQuorum
    ((info.prev.map (fun p => p.2.covenantQuorum)).getD 0)

theorem btcDelStatusWithTip_spec {info : DelWithParams} {r : BTCDelegationStatus × BTCHeaderInfo}
    (h : State.btcDelStatusWithTip ctx info = .ok r) :
    ctx.btclc.getTip = some r.2 ∧ r.1 = info.statusAt r.2.height := by
  simp only [btcDelStatusWithTip,ok_iff] at h
  obtain ⟨t,ht,rfl⟩ := h
  exact ⟨ht,rfl⟩

theorem addCovenantSigs_spec {msg : MsgAddCovenantSigs} (h : addCovenantSigs E s ctx msg = .ok s') :
    ∃ info tip slashingSigs unbondingSlashingSigs,
      s.getBTCDelWithParams msg.stakingTxHash = .ok info ∧ ctx.btclc.getTip = some tip ∧
      info.statusAt tip.height ≠ .UNBONDED ∧ info.statusAt tip.height ≠ .EXPIRED ∧
      s' = s.addCovenantSigsToBTCDelegation E ctx info msg.pk slashingSigs msg.unbondingTxSig
        unbondingSlashingSigs msg.stakeExpansionTxSig tip.height := by
  simp only [addCovenantSigs,ok_iff] at h
  obtain ⟨info,hi,_,_,⟨st,tip⟩,hs,hn,_,sl,_,_,_,us,_,_,_,rfl⟩ := h
  obtain ⟨ht,he⟩ := btcDelStatusWithTip_spec hs
  rw [he] at hn
  exact ⟨info,tip,sl,us,hi,ht,hn.1,hn.2,rfl⟩

theorem includeStakeSpendingTx_spec {msg : MsgBTCUndelegate} {header : BTCHeaderInfo}
    {r : State × Bool} (h : s.includeStakeSpendingTx E ctx msg header = .ok r) :
    r.1 = s ∨ ∃ exp, s.btcDelegations.get (E.btc.txHash msg.stakeSpendingTx) = some exp ∧
      exp.isStakeExpansion = true ∧
      s.addBTCDelegationInclusionProof E ctx exp msg.stakeSpendingTxInclusionProof = .ok r.1 := by
  unfold includeStakeSpendingTx at h
  split at h
  case h_1 exp he =>
    split at h
    case isTrue hse =>
      simp only [ok_iff] at h
      obtain ⟨s₁,hs₁,rfl⟩ := h
      exact .inr ⟨exp,he,hse,hs₁⟩
    case isFalse =>
      simp only [ok_iff] at h
      obtain ⟨_,rfl⟩ := h
      exact .inl rfl
  case h_2 =>
    simp only [ok_iff] at h
    obtain ⟨_,rfl⟩ := h
    exact .inl rfl

theorem btcUndelegate_spec {msg : MsgBTCUndelegate} (h : btcUndelegate E s ctx msg = .ok s') :
    ∃ info tip s₁ idx u, s.getBTCDelWithParams msg.stakingTxHash = .ok info ∧
      ctx.btclc.getTip = some tip ∧ info.statusAt tip.height ≠ .UNBONDED ∧
      info.statusAt tip.height ≠ .EXPIRED ∧
      (s₁ = s ∨ ∃ exp, s.btcDelegations.get (E.btc.txHash msg.stakeSpendingTx) = some exp ∧
        exp.isStakeExpansion = true ∧
        s.addBTCDelegationInclusionProof E ctx exp msg.stakeSpendingTxInclusionProof = .ok s₁) ∧
      findInputIdx msg.stakeSpendingTx (E.btc.txHash info.delegation.stakingTx)
        info.delegation.stakingOutputIdx = some idx ∧
      s₁.btcUndelegate E ctx info.delegation u = .ok s' := by
  simp only [btcUndelegate,ok_iff] at h
  obtain ⟨_,info,hin,⟨st,tip⟩,hs,hn,header,_,r,hr,idx,hi,_,_,h⟩ := h
  obtain ⟨ht,he⟩ := btcDelStatusWithTip_spec hs
  rw [he] at hn
  exact ⟨info,tip,r.1,idx,_,hin,ht,hn.1,hn.2,includeStakeSpendingTx_spec hr,hi,h⟩

theorem State.btcUndelegate_spec {d : BTCDelegation} {u : DelegatorUnbondingInfo}
    (h : s.btcUndelegate E ctx d u = .ok s') :
    (d.hasInclusionProof = false ∧ s' = s.setBTCDelegation E (d.withUnbonding u)) ∨
    (d.hasInclusionProof = true ∧ ∃ tip, ctx.btclc.getTip = some tip ∧
      s' = (s.setBTCDelegation E (d.withUnbonding u)).addPowerDistUpdateEvent ctx.header.height
        tip.height (.btcDelStateUpdate (E.btc.txHash d.stakingTx) .UNBONDED)) := by
  simp only [btcUndelegate] at h
  split at h
  case isTrue hi =>
    simp only [ok_iff] at h
    obtain ⟨tip,ht,rfl⟩ := h
    exact .inr ⟨hi,tip,ht,rfl⟩
  case isFalse hi =>
    rw [pure_eq_ok] at h
    exact .inl ⟨Bool.eq_false_iff.mpr hi,h.symm⟩

end AnonChain.BtcStaking
