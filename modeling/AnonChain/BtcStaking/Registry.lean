import AnonChain.BtcStaking.Transitions

/-! The delegations of a state as a registry, with the covenant quorums along stake expansions. -/

namespace AnonChain.BtcStaking

open Lib BtcLightClient KVStore State
open KVStore (get_set get_set_ne forall_set get_set_cases)

structure DelegationTerms where
  fpBtcPkList : List BIP340PubKey
  totalSat : Nat
  stakingTx : MsgTx
  stakingOutputIdx : Nat
  unbondingTime : Nat
  paramsVersion : Nat
  previous : Option Hash

def BTCDelegation.terms (d : BTCDelegation) : DelegationTerms where
  fpBtcPkList := d.fpBtcPkList
  totalSat := d.totalSat
  stakingTx := d.stakingTx
  stakingOutputIdx := d.stakingOutputIdx
  unbondingTime := d.unbondingTime
  paramsVersion := d.paramsVersion
  previous := d.stkExp.map (·.previousStakingTxHash)

/-- Nothing that is stored goes away or changes its terms. -/
structure Extends (s s' : State) : Prop where
  params : ∀ v p, s.params.get v = some p → s'.params.get v = some p
  terms : ∀ k d, s.btcDelegations.get k = some d →
    ∃ d', s'.btcDelegations.get k = some d' ∧ d'.terms = d.terms
  size : s.btcDelegations.entries.length ≤ s'.btcDelegations.entries.length
  providers : ∀ pk fp, s.finalityProviders.get pk = some fp →
    ∃ fp', s'.finalityProviders.get pk = some fp'

section

variable {s s' : State}

theorem Extends.refl (s : State) : Extends s s where
  params _ _ h := h
  terms _ d h := ⟨d,h,rfl⟩
  size := le_rfl
  providers _ fp h := ⟨fp,h⟩

theorem Extends.trans {t : State} (h : Extends s s') (h' : Extends s' t) : Extends s t where
  params v p hp := h'.params v p (h.params v p hp)
  terms k d hd := by
    obtain ⟨d',hd',ht⟩ := h.terms k d hd
    obtain ⟨d'',hd'',ht'⟩ := h'.terms k d' hd'
    exact ⟨d'',hd'',ht'.trans ht⟩
  size := h.size.trans h'.size
  providers pk fp hf := by
    obtain ⟨fp',hf'⟩ := h.providers pk fp hf
    exact h'.providers pk fp' hf'

theorem getBTCDelWithParamsAux_spec {n : Nat} {k : Hash} {info : DelWithParams}
    (h : s.getBTCDelWithParamsAux n k = .ok info) :
    s.btcDelegations.get k = some info.delegation ∧
      s.params.get info.delegation.paramsVersion = some info.params := by
  cases n with
  | zero => simp [getBTCDelWithParamsAux] at h
  | succ n =>
    simp only [getBTCDelWithParamsAux,getParamsByVersion,ok_iff] at h
    obtain ⟨d,hd,p,hp,h⟩ := h
    cases he : d.stkExp with
    | none =>
      simp only [he,pure_eq_ok] at h
      rw [← h]
      exact ⟨hd,hp⟩
    | some e =>
      simp only [he,ok_iff] at h
      obtain ⟨_,_,rfl⟩ := h
      exact ⟨hd,hp⟩

theorem getBTCDelWithParamsAux_mono (hx : Extends s s') {n n' : Nat} (hn : n ≤ n') {k : Hash}
    {info : DelWithParams} (h : s.getBTCDelWithParamsAux n k = .ok info) :
    ∃ info', s'.getBTCDelWithParamsAux n' k = .ok info' ∧ info'.params = info.params ∧
      info'.prev.map (·.2) = info.prev.map (·.2) := by
  induction n generalizing n' k info with
  | zero => simp [getBTCDelWithParamsAux] at h
  | succ n ih =>
    obtain ⟨m,rfl⟩ : ∃ m, n' = m+1 := ⟨n'-1,by omega⟩
    simp only [getBTCDelWithParamsAux,getParamsByVersion,ok_iff] at h ⊢
    obtain ⟨d,hd,p,hp,h⟩ := h
    obtain ⟨d',hd',ht⟩ := hx.terms k d hd
    have hv : d'.paramsVersion = d.paramsVersion := congrArg (·.paramsVersion) ht
    have hpv : d'.stkExp.map (·.previousStakingTxHash) = d.stkExp.map (·.previousStakingTxHash) :=
      congrArg (·.previous) ht
    have hp' : s'.params.get d'.paramsVersion = some p := by
      rw [hv]
      exact hx.params _ _ hp
    cases he : d.stkExp with
    | none =>
      have he' : d'.stkExp = none := by simpa [he] using hpv
      simp only [he,pure_eq_ok] at h
      refine ⟨⟨d',p,none⟩,⟨d',hd',p,hp',by simp [he',pure_eq_ok]⟩,?_,?_⟩ <;> rw [← h]
    | some e =>
      obtain ⟨e',he',hh⟩ : ∃ e', d'.stkExp = some e' ∧
          e'.previousStakingTxHash = e.previousStakingTxHash := by simpa [he] using hpv
      simp only [he,ok_iff] at h
      obtain ⟨i,hi,rfl⟩ := h
      obtain ⟨i',hi',hpr,_⟩ := ih (Nat.le_of_succ_le_succ hn) hi
      refine ⟨⟨d',p,some (i'.delegation,i'.params)⟩,⟨d',hd',p,hp',?_⟩,rfl,?_⟩
      · simp only [he',ok_iff,hh]
        exact ⟨i',hi',rfl⟩
      · simp [hpr]

end

/-- What is true of the terms of every stored delegation. -/
structure Registered (E : Env) (s : State) (k : Hash) (t : DelegationTerms) : Prop where
  keyed : E.btc.txHash t.stakingTx = k
  resolved : ∃ info, s.getBTCDelWithParams k = .ok info
  params : ∃ p, s.params.get t.paramsVersion = some p ∧ t.unbondingTime = p.unbondingTimeBlocks
  provider : ∃ pk fp, t.fpBtcPkList = [pk] ∧ s.finalityProviders.get pk = some fp
  /-- A stake expansion spends the staking output of a delegation registered before it. -/
  previous : ∀ prev, t.previous = some prev → prev ≠ k ∧
    ∃ d tx₀, s.btcDelegations.get prev = some d ∧
    t.stakingTx.txIn[0]? = some tx₀ ∧ tx₀.previousOutPoint = ⟨prev,d.stakingOutputIdx⟩

structure Registry (E : Env) (s : State) : Prop where
  delegations : ∀ k d, s.btcDelegations.get k = some d → Registered E s k d.terms
  params : ∀ v p, s.params.get v = some p → Params.validate E p = .ok ()

structure Amends (s s' : State) : Prop extends Extends s s' where
  back : ∀ k d', s'.btcDelegations.get k = some d' →
    ∃ d, s.btcDelegations.get k = some d ∧ d'.terms = d.terms
  sameParams : s'.params = s.params

variable {E : Env} {ctx : Ctx} {s s' : State} {k : Hash} {d : BTCDelegation}
  {u : DelegatorUnbondingInfo}

theorem Registered.mono {t : DelegationTerms} (h : Registered E s k t) (hx : Extends s s') :
    Registered E s' k t where
  keyed := h.keyed
  resolved := by
    obtain ⟨info,hi⟩ := h.resolved
    have hn : s.btcDelegations.entries.length+1 ≤ s'.btcDelegations.entries.length+1 :=
      Nat.add_le_add_right hx.size 1
    obtain ⟨info',hi',_⟩ := getBTCDelWithParamsAux_mono hx hn hi
    exact ⟨info',hi'⟩
  params := by
    obtain ⟨p,hp,ht⟩ := h.params
    exact ⟨p,hx.params _ _ hp,ht⟩
  provider := by
    obtain ⟨pk,fp,hpk,hf⟩ := h.provider
    obtain ⟨fp',hf'⟩ := hx.providers pk fp hf
    exact ⟨pk,fp',hpk,hf'⟩
  previous prev hpr := by
    obtain ⟨hne,d,tx₀,hd,htx,ho⟩ := h.previous prev hpr
    obtain ⟨d',hd',htr⟩ := hx.terms prev d hd
    have hid : d'.stakingOutputIdx = d.stakingOutputIdx := congrArg (·.stakingOutputIdx) htr
    exact ⟨hne,d',tx₀,hd',htx,by rw [hid]; exact ho⟩

theorem Registry.amends (h : Registry E s) (ha : Amends s s') : Registry E s' where
  delegations k d' hd' := by
    obtain ⟨d,hd,ht⟩ := ha.back k d' hd'
    rw [ht]
    exact (h.delegations k d hd).mono ha.toExtends
  params v p hp := by
    rw [ha.sameParams] at hp
    exact h.params v p hp

theorem Amends.refl (s : State) : Amends s s where
  toExtends := .refl s
  back _ d h := ⟨d,h,rfl⟩
  sameParams := rfl

theorem Amends.trans {t : State} (h : Amends s s') (h' : Amends s' t) : Amends s t where
  toExtends := h.toExtends.trans h'.toExtends
  back k d'' hd'' := by
    obtain ⟨d',hd',ht'⟩ := h'.back k d'' hd''
    obtain ⟨d,hd,ht⟩ := h.back k d' hd'
    exact ⟨d,hd,ht'.trans ht⟩
  sameParams := h'.sameParams.trans h.sameParams

theorem Amends.of_eq (hp : s'.params = s.params) (hd : s'.btcDelegations = s.btcDelegations)
    (hf : ∀ pk fp, s.finalityProviders.get pk = some fp →
      ∃ fp', s'.finalityProviders.get pk = some fp') :
    Amends s s' where
  params v p h := by
    rw [hp]
    exact h
  terms k d h := ⟨d,by rw [hd]; exact h,rfl⟩
  size := by rw [hd]
  providers := hf
  back k d h := ⟨d,by rw [← hd]; exact h,rfl⟩
  sameParams := hp

theorem Amends.set {d d' : BTCDelegation} (hd : s'.btcDelegations = s.btcDelegations.set k d')
    (stored : s.btcDelegations.get k = some d) (terms : d'.terms = d.terms)
    (hp : s'.params = s.params) (hf : s'.finalityProviders = s.finalityProviders) :
    Amends s s' where
  params v p h := by
    rw [hp]
    exact h
  terms k₁ d₁ h := by
    rw [hd,get_set]
    by_cases hk : k₁ = k
    · subst hk
      rw [stored,Option.some.injEq] at h
      subst h
      exact ⟨d',by simp,terms⟩
    · exact ⟨d₁,by simpa [hk] using h,rfl⟩
  size := by rw [hd,length_set_old d' stored]
  providers pk fp h := ⟨fp,by rw [hf]; exact h⟩
  back k₁ d₁ h := by
    rw [hd] at h
    rcases get_set_cases h with ⟨rfl,rfl⟩ | ⟨_,h⟩
    · exact ⟨d,stored,terms⟩
    · exact ⟨d₁,h,rfl⟩
  sameParams := hp

theorem FpStep.amends (h : FpStep ctx s s') : Amends s s' := by
  obtain ⟨fp',hf,hd,hp,_⟩ := h.write
  refine .of_eq hp hd ?_
  intro pk fp hfp
  rw [hf,get_set]
  by_cases hpk : pk = fp'.btcPk
  · exact ⟨fp',by simp [hpk]⟩
  · exact ⟨fp,by simpa [hpk] using hfp⟩

theorem FpSteps.amends (h : FpSteps ctx s s') : Amends s s' := by
  induction h with
  | refl => exact .refl s
  | tail _ hs ih => exact ih.trans hs.amends

theorem nextParamsVersion_fresh (s : State) : s.params.get s.nextParamsVersion = none := by
  unfold nextParamsVersion
  cases hl : s.params.last with
  | none =>
    have hn : s.params.entries = [] := List.getLast?_eq_none_iff.mp hl
    simp [KVStore.get,hn]
  | some e =>
    cases hg : s.params.get (e.1+1) with
    | none => rfl
    | some p =>
      have hle := (last_spec hl).2 _ _ hg
      omega

theorem Extends.setParams (p : Params) (pairs : List HeightVersionPair) : Extends s { s with
    params := s.params.set s.nextParamsVersion p, heightToVersionMap := pairs } where
  params v q h := by
    have hn : v ≠ s.nextParamsVersion := by
      rintro rfl
      simp [nextParamsVersion_fresh] at h
    exact (get_set_ne _ _ hn).trans h
  terms _ d h := ⟨d,h,rfl⟩
  size := le_rfl
  providers _ fp h := ⟨fp,h⟩

theorem addBTCDelegation_frame (E : Env) (s : State) (ctx : Ctx) (d : BTCDelegation) :
    (s.addBTCDelegation E ctx d).btcDelegations =
      s.btcDelegations.set (E.btc.txHash d.stakingTx) d ∧
      (s.addBTCDelegation E ctx d).params = s.params ∧
      (s.addBTCDelegation E ctx d).finalityProviders = s.finalityProviders := by
  simp only [addBTCDelegation]
  split <;> exact ⟨rfl,rfl,rfl⟩

theorem Extends.create (hfr : s.btcDelegations.get (E.btc.txHash d.stakingTx) = none) :
    Extends s (s.addBTCDelegation E ctx d) := by
  obtain ⟨hd,hp,hf⟩ := addBTCDelegation_frame E s ctx d
  refine ⟨?_,?_,?_,?_⟩
  · intro v p h
    rw [hp]
    exact h
  · intro k d₁ h
    have hn : k ≠ E.btc.txHash d.stakingTx := by
      rintro rfl
      simp [hfr] at h
    exact ⟨d₁,by rw [hd,get_set_ne _ _ hn]; exact h,rfl⟩
  · rw [hd,length_set_new d hfr]
    omega
  · intro pk fp h
    exact ⟨fp,by rw [hf]; exact h⟩

theorem Registered.create (hnw : NewDelegation E ctx s d) :
    Registered E (s.addBTCDelegation E ctx d) (E.btc.txHash d.stakingTx) d.terms := by
  obtain ⟨hd,hp,hf⟩ := addBTCDelegation_frame E s ctx d
  have hx : Extends s (s.addBTCDelegation E ctx d) := .create hnw.fresh
  obtain ⟨p,hpr,ht⟩ := hnw.params
  refine ⟨rfl,?_,⟨p,hx.params _ _ hpr,ht⟩,?_,?_⟩
  · have hg : (s.addBTCDelegation E ctx d).btcDelegations.get (E.btc.txHash d.stakingTx) =
        some d := by
      rw [hd,get_set_self]
    have hv : (s.addBTCDelegation E ctx d).params.get d.paramsVersion = some p := by
      rw [hp]
      exact hpr
    simp only [getBTCDelWithParams,getBTCDelWithParamsAux,getParamsByVersion,ok_iff]
    cases he : d.stkExp with
    | none => exact ⟨⟨d,p,none⟩,d,hg,p,hv,by simp [he,pure_eq_ok]⟩
    | some e =>
      obtain ⟨_,_,info,_,hi,_⟩ := hnw.expansion e he
      have hn : s.btcDelegations.entries.length+1 ≤
          (s.addBTCDelegation E ctx d).btcDelegations.entries.length := by
        rw [hd,length_set_new d hnw.fresh]
      obtain ⟨info',hi',_⟩ := getBTCDelWithParamsAux_mono hx hn hi
      refine ⟨⟨d,p,some (info'.delegation,info'.params)⟩,d,hg,p,hv,?_⟩
      simp only [he,ok_iff]
      exact ⟨info',hi',rfl⟩
  · obtain ⟨pk,hpk⟩ := List.length_eq_one_iff.mp hnw.single
    obtain ⟨fp,hfp,_⟩ := hnw.providers pk (by simp [hpk])
    exact ⟨pk,fp,hpk,by rw [hf]; exact hfp⟩
  · intro prev hpv
    obtain ⟨e,he,rfl⟩ : ∃ e, d.stkExp = some e ∧ e.previousStakingTxHash = prev := by
      simpa [BTCDelegation.terms] using hpv
    obtain ⟨_,_,info,tx₀,hi,htx,ho⟩ := hnw.expansion e he
    have hs := (getBTCDelWithParamsAux_spec hi).1
    have hne : e.previousStakingTxHash ≠ E.btc.txHash d.stakingTx := by
      intro heq
      rw [heq,hnw.fresh] at hs
      simp at hs
    exact ⟨hne,info.delegation,tx₀,by rw [hd,get_set_ne _ _ hne]; exact hs,htx,ho⟩

theorem Open.stored {h : Hash} {info : DelWithParams} {tip : BTCHeaderInfo}
    (ho : Open ctx s h info tip) : s.btcDelegations.get h = some info.delegation :=
  (getBTCDelWithParamsAux_spec ho.found).1

theorem withInclusion_delegations (ctx : Ctx) (params : Params)
    (info : DelegationTimeRangeInfo) (hr : Registry E s)
    (stored : s.btcDelegations.get k = some d) :
    (s.withInclusion E ctx d params info).btcDelegations = s.btcDelegations.set k
      { d with startHeight := info.startHeight, endHeight := info.endHeight } := by
  have hk : E.btc.txHash d.stakingTx = k := (hr.delegations k d stored).keyed
  rw [← hk]
  rfl

theorem withInclusion_amends (ctx : Ctx) (params : Params)
    (info : DelegationTimeRangeInfo) (hr : Registry E s)
    (stored : s.btcDelegations.get k = some d) : Amends s (s.withInclusion E ctx d params info) :=
  .set (withInclusion_delegations ctx params info hr stored) stored rfl rfl rfl

theorem btcUndelegate_delegations (h : s.btcUndelegate E ctx d u = .ok s') :
    s'.btcDelegations = s.btcDelegations.set (E.btc.txHash d.stakingTx) (d.withUnbonding u) ∧
      s'.params = s.params ∧ s'.finalityProviders = s.finalityProviders := by
  rcases State.btcUndelegate_spec h with ⟨_,rfl⟩ | ⟨_,_,_,rfl⟩ <;> exact ⟨rfl,rfl,rfl⟩

theorem btcUndelegate_amends {d d₀ : BTCDelegation}
    (hr : Registry E s) (stored : s.btcDelegations.get k = some d₀) (terms : d.terms = d₀.terms)
    (run : s.btcUndelegate E ctx d u = .ok s') : Amends s s' := by
  have hk : E.btc.txHash d.stakingTx = k := by
    have htx : d.stakingTx = d₀.stakingTx := congrArg (·.stakingTx) terms
    rw [htx]
    exact (hr.delegations k d₀ stored).keyed
  have ht : (d.withUnbonding u).terms = d₀.terms := terms
  obtain ⟨hd,hp,hf⟩ := btcUndelegate_delegations run
  rw [hk] at hd
  exact .set hd stored ht hp hf

theorem terms_addCovenantSigs (d : BTCDelegation) (covPk : BIP340PubKey) (slashingSigs : List Bytes)
    (unbondingSig : Bytes) (unbondingSlashingSigs : List Bytes) (expansionSig : Option Bytes) :
    (d.addCovenantSigs covPk slashingSigs unbondingSig unbondingSlashingSigs expansionSig).terms =
      d.terms := by
  simp only [BTCDelegation.terms,BTCDelegation.addCovenantSigs,Option.map_map]
  rfl

theorem addCovenantSigs_delegations {info : DelWithParams} {covPk : BIP340PubKey}
    {slashingSigs unbondingSlashingSigs : List Bytes} {unbondingSig : Bytes}
    {expansionSig : Option Bytes}
    {btcTipHeight : Nat} (hr : Registry E s)
    (stored : s.btcDelegations.get k = some info.delegation)
    (h : s' = s.addCovenantSigsToBTCDelegation E ctx info covPk slashingSigs unbondingSig
      unbondingSlashingSigs expansionSig btcTipHeight) :
    s'.btcDelegations = s.btcDelegations.set k (info.delegation.addCovenantSigs covPk slashingSigs
        unbondingSig unbondingSlashingSigs expansionSig) ∧
      s'.params = s.params ∧ s'.finalityProviders = s.finalityProviders := by
  have hk : E.btc.txHash info.delegation.stakingTx = k := (hr.delegations _ _ stored).keyed
  rw [h,← hk]
  simp only [addCovenantSigsToBTCDelegation]
  split <;> exact ⟨rfl,rfl,rfl⟩

theorem DelStep.registry {shown : Shown} (h : DelStep E ctx shown s s') (hr : Registry E s) :
    Extends s s' ∧ Registry E s' := by
  cases h with
  | @params p pairs valid =>
    have hx : Extends s { s with
        params := s.params.set s.nextParamsVersion p, heightToVersionMap :=
          pairs } := .setParams p pairs
    exact ⟨hx,⟨fun k d hd => (hr.delegations k d hd).mono hx,forall_set valid hr.params⟩⟩
  | @create d new =>
    obtain ⟨hd,hp,_⟩ := addBTCDelegation_frame E s ctx d
    have hx : Extends s (s.addBTCDelegation E ctx d) := .create new.fresh
    refine ⟨hx,⟨?_,by rw [hp]; exact hr.params⟩⟩
    rw [hd]
    exact forall_set (.create new) fun k d hd => (hr.delegations k d hd).mono hx
  | @prove h d params info _ stored _ _ _ =>
    have ha := withInclusion_amends ctx params info hr stored
    exact ⟨ha.toExtends,hr.amends ha⟩
  | @sign h info tip covPk sl us usig esig isOpen =>
    generalize hs' : s.addCovenantSigsToBTCDelegation E ctx info covPk sl usig us
      esig tip.height = s'
    obtain ⟨hd,hp,hf⟩ := addCovenantSigs_delegations hr isOpen.stored hs'.symm
    have ha : Amends s s' := .set hd isOpen.stored (terms_addCovenantSigs ..) hp hf
    exact ⟨ha.toExtends,hr.amends ha⟩
  | unbond isOpen run =>
    have ha := btcUndelegate_amends hr isOpen.stored rfl run
    exact ⟨ha.toExtends,hr.amends ha⟩
  | @expand h _ _ _ tx params tinfo _ u _ s' isOpen _ stored _ _ _ _ run =>
    have ha := withInclusion_amends ctx params tinfo hr stored
    obtain ⟨d₁,hd₁,ht⟩ := ha.terms _ _ isOpen.stored
    have ha' := ha.trans (btcUndelegate_amends (hr.amends ha) hd₁ ht.symm run)
    exact ⟨ha'.toExtends,hr.amends ha'⟩

end AnonChain.BtcStaking
