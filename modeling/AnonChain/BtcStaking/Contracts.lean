import AnonChain.BtcStaking.Completion
import AnonChain.BtcStaking.Registry

/-! What is checked once about a delegation and holds as long as it is stored. -/

namespace AnonChain.BtcStaking

open Lib BtcLightClient StakingLib Adaptor List Option State Result
open AdaptorSignature (marshal)
open CovenantAdaptorSignatures (covPk)

structure Contract (B : Bitcoin) (p : Params) (d : BTCDelegation) : Prop where
  providers : ∀ pk ∈ d.fpBtcPkList, validPubKey B pk = true
  covenants : ∀ pk ∈ p.covenantPks, validPubKey B pk = true
  staker : validPubKey B d.btcPk = true
  stakingTime : d.stakingTime ≤ maxUint16
  unbondingTime : d.unbondingTime ≤ maxUint16
  staking : ∃ info, buildStakingInfo B d.btcPk d.fpBtcPkList p.covenantPks
    p.covenantQuorum d.stakingTime
      d.totalSat = .ok info ∧ d.stakingTx.txOut[d.stakingOutputIdx]? = some info.output ∧
    verifyTransactionSigWithOutput B d.slashingTx info.output info.paths.slashingPathScript d.btcPk
      d.delegatorSig = .ok ()
  slashing : checkSlashingTxMatchFundingTx B d.slashingTx d.stakingTx d.stakingOutputIdx
    p.minSlashingTxFeeSat p.slashingRate p.slashingPkScript d.btcPk d.unbondingTime = .ok ()
  unbonding : ∃ info, buildUnbondingInfo B d.btcPk d.fpBtcPkList p.covenantPks p.covenantQuorum
      d.unbondingTime info.output.value = .ok info ∧
    d.btcUndelegation.unbondingTx.txOut[0]? = some info.output ∧
    verifyTransactionSigWithOutput B d.btcUndelegation.slashingTx info.output
      info.paths.slashingPathScript d.btcPk d.btcUndelegation.delegatorSlashingSig = .ok ()
  unbondingSlashing : checkSlashingTxMatchFundingTx B d.btcUndelegation.slashingTx
    d.btcUndelegation.unbondingTx 0 p.minSlashingTxFeeSat p.slashingRate p.slashingPkScript d.btcPk
    d.unbondingTime = .ok ()
  unbondingSpends : ∃ i, d.btcUndelegation.unbondingTx.txIn = [i] ∧
    i.previousOutPoint = ⟨B.btc.txHash d.stakingTx,d.stakingOutputIdx⟩

structure Signed (B : Bitcoin) (p : Params) (d : BTCDelegation) : Prop where
  members : ∀ c ∈ d.covenantSigs, c.covPk ∈ p.covenantPks
  distinct : (d.covenantSigs.map covPk).Nodup
  unbondingKeys : d.btcUndelegation.covenantUnbondingSigList.map SignatureInfo.pk =
    d.covenantSigs.map covPk
  slashingKeys : d.btcUndelegation.covenantSlashingSigs.map covPk =
    d.covenantSigs.map covPk
  staking : ∀ info, d.getStakingInfo B p = .ok info → ∀ c ∈ d.covenantSigs,
    CovVerified B d.fpBtcPkList d.slashingTx info.output info.paths.slashingPathScript c
  unbonding : ∀ info, d.getUnbondingInfo B p = .ok info →
    ∀ c ∈ d.btcUndelegation.covenantSlashingSigs,
    CovVerified B d.fpBtcPkList d.btcUndelegation.slashingTx info.output
      info.paths.slashingPathScript c

section

variable {B : Bitcoin} {p : Params} {d : BTCDelegation}

theorem newBTCPKs_ok {pks : List BIP340PubKey}
    (h : ∀ pk ∈ pks, validPubKey B pk = true) (e : Failure) :
    Result.wrap (newBTCPKsFromBIP340PKs B pks) e = .ok () := by
  rw [wrap_eq_ok,newBTCPKsFromBIP340PKs,ensure_eq_ok]
  exact h

theorem Contract.getStakingInfo (h : Contract B p d) {info : OutputInfo}
    (hi : buildStakingInfo B d.btcPk d.fpBtcPkList p.covenantPks p.covenantQuorum d.stakingTime
      d.totalSat = .ok info) : d.getStakingInfo B p = .ok info := by
  simp only [BTCDelegation.getStakingInfo,newBTCPKs_ok h.providers,newBTCPKs_ok h.covenants,ok_bind,
    BTCDelegation.mustGetValidStakingTime,ok_iff]
  exact ⟨h.staker,d.stakingTime,⟨h.stakingTime,rfl⟩,hi⟩

theorem Contract.getUnbondingInfo (h : Contract B p d) {info : OutputInfo}
    (hi : buildUnbondingInfo B d.btcPk d.fpBtcPkList p.covenantPks p.covenantQuorum d.unbondingTime
      info.output.value = .ok info)
    (ho : d.btcUndelegation.unbondingTx.txOut[0]? = some info.output) :
    d.getUnbondingInfo B p = .ok info := by
  have hm : d.unbondingTime%(maxUint16+1) = d.unbondingTime :=
    Nat.mod_eq_of_lt (Nat.lt_succ_of_le h.unbondingTime)
  simp only [BTCDelegation.getUnbondingInfo,newBTCPKs_ok h.providers,newBTCPKs_ok h.covenants,
    ok_bind,ok_iff,hm]
  exact ⟨h.staker,info.output,ho,hi⟩

theorem Contract.slashable (h : Contract B p d) (hs : Signed B p d) :
    ∃ info, d.getStakingInfo B p = .ok info ∧
      Slashable B p d info d.stakingTx d.stakingOutputIdx d.slashingTx d.delegatorSig
        d.covenantSigs := by
  obtain ⟨info,hi,ho,hd⟩ := h.staking
  have hg := h.getStakingInfo hi
  rw [buildStakingInfo,wrap_eq_ok] at hi
  obtain ⟨hp,_,hh,hn,_⟩ := buildOutputInfo_spec hi
  refine ⟨info,hg,⟨⟨_,hp⟩,?_,hn,ho,h.slashing,hd,hs.members,hs.distinct,hs.staking info hg⟩⟩
  simp [hh,AnonScriptPaths.stakingLeaves]

theorem Contract.unbondingSlashable (h : Contract B p d) (hs : Signed B p d) :
    ∃ info, d.getUnbondingInfo B p = .ok info ∧
      Slashable B p d info d.btcUndelegation.unbondingTx 0 d.btcUndelegation.slashingTx
        d.btcUndelegation.delegatorSlashingSig d.btcUndelegation.covenantSlashingSigs := by
  obtain ⟨info,hi,ho,hd⟩ := h.unbonding
  have hg := h.getUnbondingInfo hi ho
  rw [buildUnbondingInfo,wrap_eq_ok] at hi
  obtain ⟨hp,_,hh,hn,_⟩ := buildOutputInfo_spec hi
  refine ⟨info,hg,⟨⟨_,hp⟩,?_,hn,ho,h.unbondingSlashing,hd,?_,?_,hs.unbonding info hg⟩⟩
  · simp [hh,AnonScriptPaths.unbondingLeaves]
  · intro c hc
    have hm : c.covPk ∈ d.covenantSigs.map covPk :=
      hs.slashingKeys ▸ mem_map_of_mem hc
    obtain ⟨c',hc',he⟩ := mem_map.mp hm
    exact he ▸ hs.members c' hc'
  · rw [hs.slashingKeys]
    exact hs.distinct

theorem quorum_pos {E : Env} (h : Params.validate E p = .ok ()) : 0 < p.covenantQuorum := by
  simp only [Params.validate,ok_iff] at h
  exact Nat.pos_of_ne_zero h.1

theorem hasCovenantQuorums_length {quorum quorumPrev : Nat}
    (h : d.hasCovenantQuorums quorum quorumPrev = true) :
    quorum ≤ d.covenantSigs.length ∧ quorum ≤ d.btcUndelegation.covenantSlashingSigs.length := by
  simp only [BTCDelegation.hasCovenantQuorums,BTCUndelegation.hasCovenantQuorums] at h
  cases he : d.stkExp <;> simp [he] at h <;> omega

end

/-- What parsing a message establishes, for any number of finality providers. -/
structure ParsedKeys (E : Env) (pm : ParsedCreateDelegationMessage) : Prop where
  staker : E.validPubKey pm.stakerPK = true
  providers : ∀ pk ∈ pm.finalityProviderKeys, E.validPubKey pk = true
  value : 0 ≤ pm.stakingValue

section

variable {E : Env} {B : Bitcoin} {pm : ParsedCreateDelegationMessage}

theorem parse_parsedKeys {msg : MsgCreateBTCDelegation}
    (h : parseCreateDelegationMessage E msg = .ok pm) : ParsedKeys E pm := by
  simp only [parseCreateDelegationMessage,ok_iff] at h
  obtain ⟨_,_,_,_,_,hf,_,_,hs,hv,_,rfl⟩ := h
  exact ⟨hs,hf,hv⟩

theorem expand_parsedKeys {s s' : State} {ctx : Ctx} {msg : MsgBtcStakeExpand}
    (h : btcStakeExpand E s ctx msg = .ok s') :
    ∃ pm, ParsedKeys E pm ∧ s.createBTCDelegation E ctx pm = .ok s' := by
  simp only [btcStakeExpand,ok_iff] at h
  obtain ⟨_,_,_,pm,hp,_,_,_,_,_,_,_,_,_,_,_,_,_,_,_,_,h⟩ := h
  simp only [MsgBtcStakeExpand.toParsed,ok_iff] at hp
  obtain ⟨parsed,hpr,_,_,rfl⟩ := hp
  have hk := parse_parsedKeys hpr
  refine ⟨_,?_,h⟩
  exact ⟨hk.staker,hk.providers,hk.value⟩

theorem getOutputIdx_spec {tx : MsgTx} {output : TxOut} {i : Nat}
    (h : getOutputIdxInBTCTx tx output = some i) : tx.txOut[i]? = some output := by
  unfold getOutputIdxInBTCTx at h
  split at h
  case h_1 j hj =>
    have hm : j ∈ (range tx.txOut.length).filter (fun i => tx.txOut[i]? = some output) := by
      simp [hj]
    rw [← some.inj h]
    simpa using (mem_filter.mp hm).2
  case h_2 => cases h

theorem builtOutput_spec {p : Params} {info : Result OutputInfo} {out : TxOut}
    (h : builtOutput B p info = some out) :
    (∀ pk ∈ p.covenantPks, validPubKey B pk = true) ∧ ∃ i, info = .ok i ∧ i.output = out := by
  rw [builtOutput,ite_none_right_eq_some,map_eq_some_iff] at h
  obtain ⟨hv,i,hi,rfl⟩ := h
  exact ⟨hv,i,toOption_eq_some.mp hi,rfl⟩

theorem delegatorSig_spec {tx : MsgTx} {out : TxOut} {p : Params}
    {sig : Bytes} {lockTime : Nat} {paths : AnonScriptPaths}
    (h : (verifyDelegatorSlashingSig B tx out pm p sig).isOk = true)
    (hp : newAnonScriptPaths B pm.stakerPK pm.finalityProviderKeys p.covenantPks p.covenantQuorum
      lockTime = .ok paths) :
    verifyTransactionSigWithOutput B tx out paths.slashingPathScript pm.stakerPK sig = .ok () := by
  obtain ⟨_,h⟩ := isOk_iff.mp h
  rw [verifyDelegatorSlashingSig,newAnonScriptPaths_lockTime hp] at h
  exact h

theorem contract_of_validate {p : Params} {i version : Nat} (timeInfo : DelegationTimeRangeInfo)
    (hk : ParsedKeys (E.withScripts B) pm) (hpr : Params.validate (E.withScripts B) p = .ok ())
    (h : validateParsedMessageAgainstTheParams (E.withScripts B) pm p = .ok i) :
    Contract B p (newBTCDelegation pm timeInfo version i) := by
  simp only [Params.validate,ok_iff] at hpr
  obtain ⟨_,_,_,_,_,_,_,_,hmx,_,_,_,_,_,_,_,hm⟩ := hpr
  simp only [validateParsedMessageAgainstTheParams,ok_iff] at h
  obtain ⟨hub,so,hso,idx,hid,htm,fo,hf,_,hs,hd,hp,uo,huo,uout,huou,hsc,
    hv,hu,hud,uin,hui,hsp,_,_,rfl⟩ := h
  obtain ⟨hc,info,hi,rfl⟩ := builtOutput_spec hso
  obtain ⟨_,uinfo,hun,rfl⟩ := builtOutput_spec huo
  have ho := getOutputIdx_spec hid
  rw [ho,some.injEq] at hf
  subst hf
  have hut : uout = uinfo.output := by
    cases uout
    simp_all
  subst hut
  have ht : ((pm.stakingValue.toNat : Nat) : Int) = pm.stakingValue := Int.toNat_of_nonneg hk.value
  have hpt := (buildOutputInfo_spec (wrap_eq_ok.mp hi)).1
  have hb := wrap_eq_ok.mp hun
  obtain ⟨hup,_,_,_,huv⟩ := buildOutputInfo_spec hb
  have hul : uinfo.output.value = pm.unbondingValue := by rw [huv]
  obtain ⟨_,hs⟩ := isOk_iff.mp hs
  obtain ⟨_,hu⟩ := isOk_iff.mp hu
  obtain ⟨_,hp⟩ := isOk_iff.mp hp
  simp only [checkPreSignedUnbondingTxSanity,checkPreSignedTxSanity,ok_iff] at hp
  obtain ⟨j,hj⟩ := length_eq_one_iff.mp hp.2.1
  refine ⟨hk.providers,hc,hk.staker,?_,?_,⟨info,?_,ho,delegatorSig_spec hd hpt⟩,
    hs,⟨uinfo,?_,?_,delegatorSig_spec hud hup⟩,hu,⟨j,hj,?_⟩⟩
  · exact htm.2.trans hmx
  · change pm.unbondingTime ≤ maxUint16
    rw [hub]
    exact hm
  · change buildStakingInfo B pm.stakerPK pm.finalityProviderKeys p.covenantPks p.covenantQuorum
      pm.stakingTime ((pm.stakingValue.toNat : Nat) : Int) = .ok info
    rw [ht]
    exact hi
  · rw [hul]
    exact hun
  · rw [← head?_eq_getElem?]
    exact huou
  · rw [hj,head?_cons,some.injEq] at hui
    rw [hui]
    exact hsp

theorem signed_new (pm : ParsedCreateDelegationMessage) (p : Params)
    (timeInfo : DelegationTimeRangeInfo)
    (version i : Nat) : Signed B p (newBTCDelegation pm timeInfo version i) where
  members := by simp [newBTCDelegation]
  distinct := by simp [newBTCDelegation]
  unbondingKeys := rfl
  slashingKeys := rfl
  staking := by simp [newBTCDelegation]
  unbonding := by simp [newBTCDelegation]

end

section

variable {B : Bitcoin} {p : Params} {d : BTCDelegation} {pk : BIP340PubKey}
  {parsed : List (AdaptorSignature B.curve)}

theorem isSigned_iff (hs : Signed B p d) :
    (d.isSignedByCovMember pk && d.btcUndelegation.isSignedByCovMember pk) = true ↔
      pk ∈ d.covenantSigs.map covPk := by
  have hay : d.isSignedByCovMember pk = true ↔
      pk ∈ d.covenantSigs.map covPk := by simp [BTCDelegation.isSignedByCovMember]
  have ha : d.btcUndelegation.isSignedByCovMember pk = true ↔
      pk ∈ d.btcUndelegation.covenantUnbondingSigList.map SignatureInfo.pk ∧
        pk ∈ d.btcUndelegation.covenantSlashingSigs.map covPk := by
    simp [BTCUndelegation.isSignedByCovMember]
  rw [Bool.and_eq_true,hay,ha,hs.unbondingKeys,hs.slashingKeys]
  exact ⟨fun h => h.1,fun h => ⟨h,h,h⟩⟩

theorem parseCovSlashingSigs_spec (h : Contract B p d) {sigs : List Bytes}
    (hln : sigs.length = d.fpBtcPkList.length)
    (hp : d.parseCovSlashingSigs B p pk sigs = .ok parsed)
    {info : OutputInfo} (hi : d.getStakingInfo B p = .ok info) :
    CovVerified B d.fpBtcPkList d.slashingTx info.output info.paths.slashingPathScript
      ⟨pk,parsed.map marshal⟩ := by
  obtain ⟨info',hb,_⟩ := h.staking
  have hg := h.getStakingInfo hb
  rw [hi,Except.ok.injEq] at hg
  subst hg
  rw [buildStakingInfo,wrap_eq_ok] at hb
  obtain ⟨_,_,hh,hn,_⟩ := buildOutputInfo_spec hb
  have hl : info.paths.slashingPathScript ∈ info.scriptHolder := by
    simp [hh,AnonScriptPaths.stakingLeaves]
  simp only [BTCDelegation.parseCovSlashingSigs,hi,OutputInfo.slashingPathSpendInfo,
    scriptSpendInfoByName_leaf hl hn,ok_bind] at hp
  exact ⟨parsed,rfl,parseEncVerify_spec hln hp⟩

theorem parseCovUnbondingSlashingSigs_spec (h : Contract B p d) {sigs : List Bytes}
    (hln : sigs.length = d.fpBtcPkList.length)
    (hp : d.parseCovUnbondingSlashingSigs B p pk sigs = .ok parsed) {info : OutputInfo}
    (hi : d.getUnbondingInfo B p = .ok info) :
    CovVerified B d.fpBtcPkList d.btcUndelegation.slashingTx info.output
      info.paths.slashingPathScript ⟨pk,parsed.map marshal⟩ := by
  obtain ⟨info',hb,ho,_⟩ := h.unbonding
  have hg := h.getUnbondingInfo hb ho
  rw [hi,Except.ok.injEq] at hg
  subst hg
  rw [buildUnbondingInfo,wrap_eq_ok] at hb
  obtain ⟨_,_,hh,hn,_⟩ := buildOutputInfo_spec hb
  have hl : info.paths.slashingPathScript ∈ info.scriptHolder := by
    simp [hh,AnonScriptPaths.unbondingLeaves]
  simp only [BTCDelegation.parseCovUnbondingSlashingSigs,hi,ho,orFail,
    OutputInfo.slashingPathSpendInfo,scriptSpendInfoByName_leaf hl hn,ok_bind] at hp
  exact ⟨parsed,rfl,parseEncVerify_spec hln hp⟩

theorem nodup_concat {α : Type} {l : List α} {a : α} (h : l.Nodup) (ha : a ∉ l) :
    (l ++ [a]).Nodup := by
  rw [nodup_append]
  simp only [nodup_cons,not_mem_nil,not_false_eq_true,nodup_nil,and_self,
    mem_singleton,ne_eq,forall_eq]
  exact ⟨h,trivial,fun b hb he => ha (he ▸ hb)⟩

theorem Signed.addCovenantSigs (hs : Signed B p d) {slashingSigs unbondingSlashingSigs : List Bytes}
    (unbondingSig : Bytes) (stkExpSig : Option Bytes) (hm : pk ∈ p.covenantPks)
    (hn : pk ∉ d.covenantSigs.map covPk)
    (hsl : ∀ info, d.getStakingInfo B p = .ok info → CovVerified B d.fpBtcPkList d.slashingTx
      info.output info.paths.slashingPathScript ⟨pk,slashingSigs⟩)
    (hu : ∀ info, d.getUnbondingInfo B p = .ok info → CovVerified B d.fpBtcPkList
      d.btcUndelegation.slashingTx info.output info.paths.slashingPathScript
    ⟨pk,unbondingSlashingSigs⟩) :
    Signed B p (d.addCovenantSigs pk slashingSigs unbondingSig unbondingSlashingSigs
      stkExpSig) where
  members c hc := by
    rcases mem_append.mp hc with hc | hc
    · exact hs.members c hc
    · rw [mem_singleton.mp hc]
      exact hm
  distinct := by
    simp only [BTCDelegation.addCovenantSigs,map_append,map_cons,map_nil]
    exact nodup_concat hs.distinct hn
  unbondingKeys := by
    simp [BTCDelegation.addCovenantSigs,BTCUndelegation.addCovenantSigs,hs.unbondingKeys]
  slashingKeys := by
    simp [BTCDelegation.addCovenantSigs,BTCUndelegation.addCovenantSigs,hs.slashingKeys]
  staking info hi c hc := by
    rcases mem_append.mp hc with hc | hc
    · exact hs.staking info hi c hc
    · rw [mem_singleton.mp hc]
      exact hsl info hi
  unbonding info hi c hc := by
    rcases mem_append.mp hc with hc | hc
    · exact hs.unbonding info hi c hc
    · rw [mem_singleton.mp hc]
      exact hu info hi

end

structure Contracts (E : Env) (B : Bitcoin) (s : State) : Prop where
  delegations : ∀ k d, s.btcDelegations.get k = some d →
    ∃ p, s.params.get d.paramsVersion = some p ∧ Contract B p d ∧ Signed B p d
  params : ∀ v p, s.params.get v = some p → Params.validate (E.withScripts B) p = .ok ()

/-- States that creating delegations, signing them and every other message lead to. A creation
may name any number of finality providers. -/
inductive Reached (E : Env) : State → Prop where
  | genesis {s : State} (none : s.btcDelegations = .empty)
      (params : ∀ v p, s.params.get v = some p → Params.validate E p = .ok ()) : Reached E s
  | create {s s' : State} {ctx : Ctx} {pm : ParsedCreateDelegationMessage} (before : Reached E s)
      (parsed : ParsedKeys E pm) (run : s.createBTCDelegation E ctx pm = .ok s') : Reached E s'
  | sign {s s' : State} {ctx : Ctx} {msg : MsgAddCovenantSigs} (before : Reached E s)
      (run : addCovenantSigs E s ctx msg = .ok s') : Reached E s'
  | prove {s s' : State} {ctx : Ctx} {msg : MsgAddBTCDelegationInclusionProof}
      (before : Reached E s)
      (run : addBTCDelegationInclusionProof E s ctx msg = .ok s') : Reached E s'
  | undelegate {s s' : State} {ctx : Ctx} {msg : MsgBTCUndelegate} (before : Reached E s)
      (run : btcUndelegate E s ctx msg = .ok s') : Reached E s'
  | updateParams {s s' : State} {ctx : Ctx} {msg : MsgUpdateParams} (before : Reached E s)
      (run : updateParams E s ctx msg = .ok s') : Reached E s'
  /-- Finality providers, power distribution events and what else is not a delegation. -/
  | other {s s' : State} (before : Reached E s) (delegations : s'.btcDelegations = s.btcDelegations)
      (params : s'.params = s.params) : Reached E s'

variable {E : Env} {B : Bitcoin} {s s' : State} {ctx : Ctx} {d : BTCDelegation} {p : Params}

theorem Contracts.set (h : Contracts E B s) {k : Hash}
    (hd : s'.btcDelegations = s.btcDelegations.set k d) (hp : s'.params = s.params)
    (hv : s.params.get d.paramsVersion = some p) (hc : Contract B p d) (hs : Signed B p d) :
    Contracts E B s' where
  delegations := by
    rw [hd,hp]
    exact KVStore.forall_set ⟨p,hv,hc,hs⟩ h.delegations
  params := by
    rw [hp]
    exact h.params

theorem Contracts.create (h : Contracts E B s) {pm : ParsedCreateDelegationMessage}
    (hk : ParsedKeys (E.withScripts B) pm)
    (run : s.createBTCDelegation (E.withScripts B) ctx pm = .ok s') : Contracts E B s' := by
  simp only [State.createBTCDelegation,ok_iff] at run
  obtain ⟨_,_,_,_,⟨timeInfo,p,v⟩,ht,idx,hvl,_,rfl⟩ := run
  have hv := (getTimeInfoAndParams_spec ht).1
  obtain ⟨hd,hp,_⟩ := addBTCDelegation_frame (E.withScripts B) s ctx
    (newBTCDelegation pm timeInfo v idx)
  exact h.set hd hp hv (contract_of_validate timeInfo hk (h.params v p hv) hvl)
    (signed_new pm p timeInfo v idx)

theorem Contracts.sign (h : Contracts E B s) {msg : MsgAddCovenantSigs}
    (run : BtcStaking.addCovenantSigs (E.withScripts B) s ctx msg = .ok s') : Contracts E B s' := by
  simp only [BtcStaking.addCovenantSigs,ok_iff] at run
  obtain ⟨info,hin,hm,hn,⟨st,tip⟩,_,_,hl,sl,hsl,hl',_,us,hu,_,_,rfl⟩ := run
  obtain ⟨hd,hp⟩ := getBTCDelWithParamsAux_spec hin
  obtain ⟨p,hv,hc,hs⟩ := h.delegations _ _ hd
  rw [hp,some.injEq] at hv
  subst hv
  obtain ⟨parsed,hpr,rfl⟩ := map_eq_some_iff.mp hsl
  obtain ⟨parsed',hpr',rfl⟩ := map_eq_some_iff.mp hu
  have hf : msg.pk ∉ info.delegation.covenantSigs.map covPk := by
    rw [← isSigned_iff hs,hn]
    simp
  have hsg := hs.addCovenantSigs msg.unbondingTxSig msg.stakeExpansionTxSig
    (by simpa [Params.hasCovenantPK] using hm) hf
    (fun _ hi => parseCovSlashingSigs_spec hc hl (toOption_eq_some.mp hpr) hi)
    (fun _ hi => parseCovUnbondingSlashingSigs_spec hc hl' (toOption_eq_some.mp hpr') hi)
  refine Contracts.set h (k := B.btc.txHash info.delegation.stakingTx) ?_ ?_ ?_ ?_ hsg
  case refine_3 => exact hp
  case refine_4 => exact { hc with }
  all_goals
    simp only [addCovenantSigsToBTCDelegation]
    split <;> rfl

theorem Contracts.include (h : Contracts E B s) {k : Hash} {proof : InclusionProof}
    (hd : s.btcDelegations.get k = some d)
    (run : s.addBTCDelegationInclusionProof (E.withScripts B) ctx d proof = .ok s') :
    Contracts E B s' := by
  obtain ⟨params,info,_,_,_,_,_,rfl⟩ := State.addBTCDelegationInclusionProof_spec run
  obtain ⟨p,hv,hc,hs⟩ := h.delegations k d hd
  exact h.set (k := B.btc.txHash d.stakingTx) rfl rfl hv { hc with } { hs with }

theorem Contracts.undelegate (h : Contracts E B s) {msg : MsgBTCUndelegate}
    (run : BtcStaking.btcUndelegate (E.withScripts B) s ctx msg = .ok s') : Contracts E B s' := by
  obtain ⟨info,_,s₁,_,u,hin,_,_,_,hs₁,_,run⟩ := btcUndelegate_spec run
  obtain ⟨hd,hp⟩ := getBTCDelWithParamsAux_spec hin
  obtain ⟨p,hv,hc,hs⟩ := h.delegations _ _ hd
  have hpr : s₁.params = s.params := by
    rcases hs₁ with rfl | ⟨exp,_,_,hi⟩
    · rfl
    · obtain ⟨_,_,_,_,_,_,_,rfl⟩ := State.addBTCDelegationInclusionProof_spec hi
      rfl
  have h₁ : Contracts E B s₁ := by
    rcases hs₁ with rfl | ⟨exp,he,_,hi⟩
    · exact h
    · exact h.include he hi
  obtain ⟨hst,hp',_⟩ := btcUndelegate_delegations run
  exact h₁.set hst hp' (by rw [hpr]; exact hv) { hc with } { hs with }

theorem Contracts.updateParams (h : Contracts E B s) {msg : MsgUpdateParams}
    (run : BtcStaking.updateParams (E.withScripts B) s ctx msg = .ok s') : Contracts E B s' := by
  simp only [BtcStaking.updateParams,setParams,ok_iff] at run
  obtain ⟨_,_,_,hv,pairs,_,_,_,rfl⟩ := run
  refine ⟨?_,?_⟩
  · intro k d hd
    obtain ⟨p,hp,hc⟩ := h.delegations k d hd
    exact ⟨p,(Extends.setParams _ pairs).params _ _ hp,hc⟩
  · exact KVStore.forall_set hv h.params

theorem Reached.contracts (h : Reached (E.withScripts B) s) : Contracts E B s := by
  induction h with
  | genesis none params => exact ⟨by simp [none],params⟩
  | create _ parsed run ih => exact ih.create parsed run
  | sign _ run ih => exact ih.sign run
  | prove _ run ih =>
    obtain ⟨d,hd,_,run⟩ := addBTCDelegationInclusionProof_spec run
    exact ih.include hd run
  | undelegate _ run ih => exact ih.undelegate run
  | updateParams _ run ih => exact ih.updateParams run
  | other _ hd hp ih =>
    refine ⟨?_,by rw [hp]; exact ih.params⟩
    rw [hd,hp]
    exact ih.delegations

end AnonChain.BtcStaking
