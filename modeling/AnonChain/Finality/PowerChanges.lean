import AnonChain.BtcStaking.Moves
import AnonChain.Finality.PowerDist

/-! The processing of the events of a block as a list of changes of stake. -/

namespace AnonChain.Finality

open Lib List
open KVStore (getD_set)
open ProcessingState (fpState setFpState new addStateForFp)
open BtcStaking (BTCDelegation EventPowerDistUpdate StakeChange Registry Stake)
open BtcStaking.EventPowerDistUpdate (live)

structure PowerChange where
  stakingTxHash : Hash
  kind : StakeChange

def statusChange (stk : BtcStaking.State) : EventPowerDistUpdate → Option PowerChange
  | .btcDelStateUpdate h st =>
    (stk.stake h).bind (fun x => (x.onStatus st).map (fun kind => ⟨h,kind⟩))
  | _ => none

def expiryChange (stk : BtcStaking.State) (h : Hash) : Option PowerChange :=
  (stk.stake h).bind (fun x => if !x.unbonded && x.signed then some ⟨h,.remove⟩ else none)

def expired (events : List EventPowerDistUpdate) : List Hash :=
  (events.filter (fun ev => !ev.live)).filterMap (·.ofDelegation)

def powerChanges (stk : BtcStaking.State) (events : List EventPowerDistUpdate) : List PowerChange :=
  events.filterMap (statusChange stk) ++ (expired events).filterMap (expiryChange stk)

theorem powerChanges_congr {stk stk' : BtcStaking.State} (h : ∀ k, stk'.stake k = stk.stake k)
    (events : List EventPowerDistUpdate) : powerChanges stk' events = powerChanges stk events := by
  have hs : statusChange stk' = statusChange stk := by
    funext ev
    cases ev <;> simp only [statusChange,h]
  have he : expiryChange stk' = expiryChange stk := by
    funext k
    simp only [expiryChange,h]
  rw [powerChanges,powerChanges,hs,he]

def applyChange (stk : BtcStaking.State) (ps : ProcessingState) (c : PowerChange) :
    ProcessingState :=
  match stk.btcDelegations.get c.stakingTxHash with
  | none => ps
  | some d =>
    match c.kind with
    | .add => processPowerDistUpdateEventActive ps d
    | .remove => processPowerDistUpdateEventUnbond ps d

/-- The parts of two processing states that the stakes of delegations change. -/
structure SameStakes (ps ps' : ProcessingState) : Prop where
  deltas : ps.deltaSatsByFpBtcPk = ps'.deltaSatsByFpBtcPk
  active : ps.activeDelegations = ps'.activeDelegations
  unbonding : ps.unbondingDelegations = ps'.unbondingDelegations

structure SameProviders (ps ps' : ProcessingState) : Prop where
  states : ps.fpStatesByBtcPk = ps'.fpStatesByBtcPk
  expired : ps.expiredEvents = ps'.expiredEvents
  slashed : ps.slashedEvents = ps'.slashedEvents

section

variable {stk : BtcStaking.State} {ps ps' : ProcessingState}

theorem SameStakes.refl (ps : ProcessingState) : SameStakes ps ps := ⟨rfl,rfl,rfl⟩

theorem SameProviders.refl (ps : ProcessingState) : SameProviders ps ps := ⟨rfl,rfl,rfl⟩

theorem SameStakes.active_foldl (h : SameStakes ps ps') (d : BTCDelegation) :
    SameStakes (processPowerDistUpdateEventActive ps d)
      (processPowerDistUpdateEventActive ps' d) := by
  unfold processPowerDistUpdateEventActive
  induction d.fpBtcPkList generalizing ps ps' with
  | nil => exact h
  | cons pk l ih =>
    refine ih ⟨?_,?_,h.unbonding⟩
    · simp only [ProcessingState.deltaSats,h.deltas]
    · simp only [h.active]

theorem SameStakes.unbond_foldl (h : SameStakes ps ps') (d : BTCDelegation) :
    SameStakes (processPowerDistUpdateEventUnbond ps d)
      (processPowerDistUpdateEventUnbond ps' d) := by
  unfold processPowerDistUpdateEventUnbond
  induction d.fpBtcPkList generalizing ps ps' with
  | nil => exact h
  | cons pk l ih =>
    refine ih ⟨?_,h.active,?_⟩
    · simp only [ProcessingState.deltaSats,h.deltas]
    · simp only [h.unbonding]

theorem SameStakes.applyChange (h : SameStakes ps ps') (c : PowerChange) :
    SameStakes (applyChange stk ps c) (applyChange stk ps' c) := by
  unfold Finality.applyChange
  split
  · exact h
  · split
    · exact h.active_foldl _
    · exact h.unbond_foldl _

theorem SameStakes.foldl (h : SameStakes ps ps') (l : List PowerChange) :
    SameStakes (l.foldl (Finality.applyChange stk) ps)
      (l.foldl (Finality.applyChange stk) ps') := by
  induction l generalizing ps ps' with
  | nil => exact h
  | cons c l ih => exact ih (h.applyChange c)

theorem SameStakes.trans {ps'' : ProcessingState} (h : SameStakes ps ps')
    (h' : SameStakes ps' ps'') : SameStakes ps ps'' :=
  ⟨h.deltas.trans h'.deltas,h.active.trans h'.active,h.unbonding.trans h'.unbonding⟩

theorem SameProviders.trans {ps'' : ProcessingState} (h : SameProviders ps ps')
    (h' : SameProviders ps' ps'') : SameProviders ps ps'' :=
  ⟨h.states.trans h'.states,h.expired.trans h'.expired,h.slashed.trans h'.slashed⟩

theorem active_providers (ps : ProcessingState) (d : BTCDelegation) :
    SameProviders (processPowerDistUpdateEventActive ps d) ps := by
  refine foldl_keeps (P := fun t => SameProviders t ps) ?_ (.refl ps)
  intro pk _ t ht
  exact ⟨ht.states,ht.expired,ht.slashed⟩

theorem unbond_providers (ps : ProcessingState) (d : BTCDelegation) :
    SameProviders (processPowerDistUpdateEventUnbond ps d) ps := by
  refine foldl_keeps (P := fun t => SameProviders t ps) ?_ (.refl ps)
  intro pk _ t ht
  exact ⟨ht.states,ht.expired,ht.slashed⟩

end

variable {E : BtcStaking.Env} {stk : BtcStaking.State}

theorem delHasQuorum_eq (hr : Registry E stk) {h : Hash} {d : BTCDelegation}
    (hd : stk.btcDelegations.get h = some d) :
    delHasQuorum stk d = .ok (d.stake (stk.quorums h)).signed := by
  obtain ⟨p,hp,hq,_⟩ := hr.quorums_fst hd
  have hqr := hr.btcDelHasCovenantQuorums_eq hd rfl p.covenantQuorum
  simp only [delHasQuorum,BtcStaking.State.getParamsByVersion,ok_iff]
  refine ⟨p,hp,?_⟩
  rw [hqr,← hq]
  rfl

/-- What the processing of some events does, given the changes they make at once. -/
structure EventEffect (stk : BtcStaking.State) (ps ps' : ProcessingState)
    (events : List EventPowerDistUpdate) : Prop where
  stakes : SameStakes ps' ((events.filterMap (statusChange stk)).foldl (applyChange stk) ps)
  expired : ps'.expiredEvents = ps.expiredEvents ++ expired events
  slashed : ∀ pk, pk ∈ ps'.slashedEvents → pk ∈ ps.slashedEvents ∨ .slashedFp pk ∈ events
  states : ∀ pk, ps'.fpState pk = .SLASHED → ps.fpState pk = .SLASHED

theorem SameProviders.slashed_of {ps ps' : ProcessingState} (h : SameProviders ps' ps) :
    ps'.expiredEvents = ps.expiredEvents ++ [] ∧
    (∀ pk, pk ∈ ps'.slashedEvents → pk ∈ ps.slashedEvents ∨ False) ∧
    ∀ pk, ps'.fpState pk = .SLASHED → ps.fpState pk = .SLASHED := by
  refine ⟨by rw [h.expired,append_nil],?_,?_⟩
  · intro pk hp
    exact .inl (h.slashed ▸ hp)
  · intro pk hs
    rwa [fpState,h.states] at hs

theorem fpState_setFpState {ps : ProcessingState} {pk pk' : BIP340PubKey}
    {st : FinalityProviderState}
    (hn : st ≠ .SLASHED) (h : (ps.setFpState pk st).fpState pk' = .SLASHED) :
    ps.fpState pk' = .SLASHED := by
  simp only [fpState,setFpState,getD_set] at h
  split at h
  · exact absurd h hn
  · exact h

/-- One event makes its change at once; an expiry or a slashing is put aside. -/
theorem processEvent_effect (hr : Registry E stk) (ps : ProcessingState) (ev : EventPowerDistUpdate)
    (hsr : ∀ h, ev.ofDelegation = some h → ∃ d, stk.btcDelegations.get h = some d) :
    ∃ ps', processEvent stk ps ev = .ok ps' ∧ EventEffect stk ps ps' [ev] := by
  cases ev with
  | slashedFp pk =>
    refine ⟨_,rfl,⟨rfl,rfl,rfl⟩,by simp [expired,live],?_,fun _ h => h⟩
    simp
  | jailedFp pk =>
    exact ⟨_,rfl,⟨rfl,rfl,rfl⟩,by simp [expired,live,setFpState],
      fun _ h => .inl h,fun _ h => fpState_setFpState (by simp) h⟩
  | unjailedFp pk =>
    exact ⟨_,rfl,⟨rfl,rfl,rfl⟩,by simp [expired,live,setFpState],
      fun _ h => .inl h,fun _ h => fpState_setFpState (by simp) h⟩
  | btcDelStateUpdate h st =>
    obtain ⟨d,hd⟩ := hsr h rfl
    have hsta := BtcStaking.stake_of_get hd
    have hg : orFail (stk.btcDelegations.get h) (Failure.panic "the BTC delegation is not found") =
        .ok d := orFail_eq_ok.mpr hd
    cases st with
    | EXPIRED =>
      refine ⟨_,rfl,?_,?_,fun _ h => .inl h,fun _ h => h⟩
      · simpa [statusChange,hsta,Stake.onStatus] using ⟨rfl,rfl,rfl⟩
      · simp [expired,live,EventPowerDistUpdate.ofDelegation]
    | PENDING =>
      refine ⟨ps,by simp only [processEvent,processBtcDelUpdate,hg]; rfl,?_,?_,
        fun _ h => .inl h,fun _ h => h⟩
      · simpa [statusChange,hsta,Stake.onStatus] using SameStakes.refl _
      · simp [expired,live]
    | VERIFIED =>
      refine ⟨ps,by simp only [processEvent,processBtcDelUpdate,hg]; rfl,?_,?_,
        fun _ h => .inl h,fun _ h => h⟩
      · simpa [statusChange,hsta,Stake.onStatus] using SameStakes.refl _
      · simp [expired,live]
    | ACTIVE =>
      obtain ⟨he,hsl,hst⟩ := (active_providers ps d).slashed_of
      refine ⟨processPowerDistUpdateEventActive ps d,
        by simp only [processEvent,processBtcDelUpdate,hg]; rfl,?_,?_,?_,hst⟩
      · simpa [statusChange,hsta,Stake.onStatus,applyChange,hd] using SameStakes.refl _
      · simpa [expired,live] using he
      · simpa using hsl
    | UNBONDED =>
      have hrn : processEvent stk ps (.btcDelStateUpdate h .UNBONDED) =
          .ok (if (d.stake (stk.quorums h)).signed then processPowerDistUpdateEventUnbond ps
            d else ps) := by
        simp only [processEvent,processBtcDelUpdate,bind_eq_ok]
        exact ⟨d,hg,_,delHasQuorum_eq hr hd,rfl⟩
      rw [hrn]
      cases hs : (d.stake (stk.quorums h)).signed with
      | false =>
        refine ⟨ps,rfl,?_,by simp [expired,live],fun _ h => .inl h,fun _ h => h⟩
        simpa [statusChange,hsta,Stake.onStatus,hs] using SameStakes.refl _
      | true =>
        obtain ⟨he,hsl,hst⟩ := (unbond_providers ps d).slashed_of
        refine ⟨processPowerDistUpdateEventUnbond ps d,rfl,?_,?_,?_,hst⟩
        · simpa [statusChange,hsta,Stake.onStatus,hs,applyChange,hd] using
            SameStakes.refl _
        · simpa [expired,live] using he
        · simpa using hsl

theorem processEvents_effect (hr : Registry E stk) (ps : ProcessingState)
    (events : List EventPowerDistUpdate)
    (hsr : ∀ ev ∈ events, ∀ h, ev.ofDelegation = some h → ∃ d, stk.btcDelegations.get h = some d) :
    ∃ ps', events.foldlM (processEvent stk) ps = .ok ps' ∧ EventEffect stk ps ps' events := by
  induction events generalizing ps with
  | nil => exact ⟨ps,rfl,.refl ps,by simp [expired],fun _ h => .inl h,fun _ h => h⟩
  | cons ev events ih =>
    obtain ⟨ps₁,hrn,hef⟩ := processEvent_effect hr ps ev (hsr ev mem_cons_self)
    obtain ⟨ps₂,hrs,hef'⟩ := ih ps₁ (fun e he => hsr e (mem_cons_of_mem _ he))
    refine ⟨ps₂,by rw [foldlM_cons,hrn]; exact hrs,?_,?_,?_,?_⟩
    · have hs : (ev :: events).filterMap (statusChange stk) =
          [ev].filterMap (statusChange stk) ++ events.filterMap (statusChange stk) := by
        rw [← filterMap_append]
        rfl
      rw [hs,foldl_append]
      exact hef'.stakes.trans (hef.stakes.foldl _)
    · have hs : expired (ev :: events) = expired [ev] ++ expired events := by
        rw [expired,expired,expired,← filterMap_append,← filter_append]
        rfl
      rw [hef'.expired,hef.expired,hs,append_assoc]
    · intro pk hp
      rcases hef'.slashed pk hp with hold | hn
      · rcases hef.slashed pk hold with h | h
        · exact .inl h
        · exact .inr (by simp [mem_singleton.mp h])
      · exact .inr (mem_cons_of_mem _ hn)
    · intro pk hst
      exact hef.states pk (hef'.states pk hst)

theorem processExpiredEvent_change (hr : Registry E stk) (ps : ProcessingState) {h : Hash}
    {d : BTCDelegation} (hd : stk.btcDelegations.get h = some d) :
    processExpiredEvent stk ps h =
      .ok ((expiryChange stk h).toList.foldl (applyChange stk) ps) := by
  have hst := BtcStaking.stake_of_get hd
  simp only [processExpiredEvent,ok_iff]
  refine ⟨d,hd,?_⟩
  cases hu : d.isUnbondedEarly with
  | true => simp [expiryChange,hst,BTCDelegation.stake,hu,pure_eq_ok]
  | false =>
    simp only [Bool.false_eq_true,if_false,delHasQuorum_eq hr hd]
    cases hs : (d.stake (stk.quorums h)).signed with
    | false => simp [expiryChange,hst,hs]
    | true =>
      have hu' : (d.stake (stk.quorums h)).unbonded = false := hu
      simp [expiryChange,hst,hs,hu',applyChange,hd]

theorem processExpired_foldlM (hr : Registry E stk) (ps : ProcessingState) (l : List Hash)
    (hs : ∀ h ∈ l, ∃ d, stk.btcDelegations.get h = some d) :
    l.foldlM (processExpiredEvent stk) ps =
      .ok ((l.filterMap (expiryChange stk)).foldl (applyChange stk) ps) := by
  induction l generalizing ps with
  | nil => rfl
  | cons h l ih =>
    obtain ⟨d,hd⟩ := hs h mem_cons_self
    rw [foldlM_cons,processExpiredEvent_change hr ps hd]
    refine (ih _ (fun h' hh' => hs h' (mem_cons_of_mem _ hh'))).trans ?_
    cases hc : expiryChange stk h <;> simp [hc]

theorem applyChange_providers (ps : ProcessingState) (l : List PowerChange) :
    SameProviders (l.foldl (applyChange stk) ps) ps := by
  refine foldl_keeps (P := fun t => SameProviders t ps) ?_ (.refl ps)
  intro c _ t ht
  unfold applyChange
  split
  · exact ht
  · split
    · exact (active_providers t _).trans ht
    · exact (unbond_providers t _).trans ht

theorem processSlashedEvents_spec (ps : ProcessingState) : SameStakes (processSlashedEvents ps) ps ∧
    ∀ pk, (processSlashedEvents ps).fpState pk = .SLASHED → pk ∈ ps.slashedEvents ∨
      ps.fpState pk = .SLASHED := by
  refine foldl_keeps (P := fun t => SameStakes t ps ∧
    ∀ pk, t.fpState pk = .SLASHED → pk ∈ ps.slashedEvents ∨ ps.fpState pk = .SLASHED) ?_
    ⟨.refl ps,fun _ h => .inr h⟩
  rintro pk hp t ⟨ht,hs⟩
  refine ⟨⟨ht.deltas,ht.active,ht.unbonding⟩,?_⟩
  intro pk' hp'
  simp only [fpState,setFpState,getD_set] at hp'
  split at hp'
  case isTrue he => exact .inl (he ▸ hp)
  case isFalse => exact hs pk' hp'

theorem setPrevActive_same (ps : ProcessingState) (isActive : Bool) (pk : BIP340PubKey) :
    SameStakes (ps.setPrevActive isActive pk) ps ∧
      SameProviders (ps.setPrevActive isActive pk) ps := by
  unfold ProcessingState.setPrevActive
  split <;> exact ⟨⟨rfl,rfl,rfl⟩,rfl,rfl,rfl⟩

theorem addStateForFp_same (ps : ProcessingState) (fp : FinalityProviderDistInfo) :
    SameStakes (ps.addStateForFp fp) ps ∧ (ps.addStateForFp fp).expiredEvents = ps.expiredEvents ∧
      (ps.addStateForFp fp).slashedEvents = ps.slashedEvents := by
  unfold addStateForFp
  split <;> split <;> exact ⟨⟨rfl,rfl,rfl⟩,rfl,rfl⟩

theorem slashed_of_addStateForFp {ps : ProcessingState} {fp : FinalityProviderDistInfo}
    {pk : BIP340PubKey} (h : (ps.addStateForFp fp).fpState pk = .SLASHED) :
    (fp.btcPk = pk ∧ fp.isSlashed = true) ∨ ps.fpState pk = .SLASHED := by
  have hs : (if fp.isSlashed then ps.setFpState fp.btcPk .SLASHED else ps).fpState pk =
      .SLASHED := by
    by_cases hj : fp.isJailed = true
    · simp only [addStateForFp,hj,if_true] at h
      exact fpState_setFpState (by simp) h
    · simpa only [addStateForFp,if_neg hj] using h
  split at hs
  case isTrue hsl =>
    simp only [fpState,setFpState,getD_set] at hs
    split at hs
    case isTrue he => exact .inl ⟨he.symm,hsl⟩
    case isFalse => exact .inr hs
  case isFalse => exact .inr hs

theorem fillByPrevVpDstCache_spec (dc : VotingPowerDistCache) :
    SameStakes (new.fillByPrevVpDstCache dc) .new ∧
    (new.fillByPrevVpDstCache dc).expiredEvents = [] ∧
    (new.fillByPrevVpDstCache dc).slashedEvents = [] ∧
    ∀ pk, (new.fillByPrevVpDstCache dc).fpState pk = .SLASHED →
      ∃ fp ∈ dc.finalityProviders, fp.btcPk = pk ∧ fp.isSlashed = true := by
  refine foldl_keeps (P := fun t => SameStakes t .new ∧ t.expiredEvents = [] ∧
    t.slashedEvents = [] ∧
    ∀ pk, t.fpState pk = .SLASHED → ∃ fp ∈ dc.finalityProviders, fp.btcPk = pk ∧
    fp.isSlashed = true) ?_ ⟨.refl _,rfl,rfl,?_⟩
  · rintro ⟨fp,idx⟩ hf t ⟨ht,he,hsl,hst⟩
    obtain ⟨hp,hpp⟩ := setPrevActive_same t (idx < dc.numActiveFps) fp.btcPk
    obtain ⟨ha,hae,has⟩ := addStateForFp_same (t.setPrevActive (idx < dc.numActiveFps) fp.btcPk) fp
    refine ⟨ha.trans (hp.trans ht),hae.trans (hpp.expired.trans he),
      has.trans (hpp.slashed.trans hsl),?_⟩
    intro pk hs
    rcases slashed_of_addStateForFp hs with hf' | hold
    · exact ⟨fp,fst_mem_of_mem_zipIdx hf,hf'⟩
    · exact hst pk (hpp.slashed_of.2.2 pk hold)
  · intro pk hp
    simp [fpState,new,KVStore.getD] at hp

theorem processEvents_changes (hr : Registry E stk) (dc : VotingPowerDistCache) {last cur : Nat}
    (hs : ∀ ev ∈ stk.getAllPowerDistUpdateEvents last cur, ∀ h, ev.ofDelegation = some h →
      ∃ d, stk.btcDelegations.get h = some d) :
    ∃ ps, processEvents stk dc last cur = .ok ps ∧
      SameStakes ps ((powerChanges stk (stk.getAllPowerDistUpdateEvents last cur)).foldl
        (applyChange stk) .new) ∧
      ∀ pk, ps.fpState pk = .SLASHED → .slashedFp pk ∈ stk.getAllPowerDistUpdateEvents last cur ∨
        ∃ fp ∈ dc.finalityProviders, fp.btcPk = pk ∧ fp.isSlashed = true := by
  obtain ⟨hn,hep,hsl,hst⟩ := fillByPrevVpDstCache_spec dc
  obtain ⟨ps,hrn,hef⟩ := processEvents_effect hr (new.fillByPrevVpDstCache dc) _ hs
  have he : ps.expiredEvents = expired (stk.getAllPowerDistUpdateEvents last cur) := by
    rw [hef.expired,hep,nil_append]
  have hs' : ∀ h ∈ ps.expiredEvents, ∃ d, stk.btcDelegations.get h = some d := by
    intro h hh
    simp only [he,expired,mem_filterMap,mem_filter] at hh
    obtain ⟨ev,⟨hev,_⟩,ho⟩ := hh
    exact hs ev hev h ho
  have hrn' := processExpired_foldlM hr ps ps.expiredEvents hs'
  generalize hps₁ : (ps.expiredEvents.filterMap (expiryChange stk)).foldl
    (applyChange stk) ps = ps₁ at hrn'
  have hp : SameProviders ps₁ ps := hps₁ ▸ applyChange_providers ps _
  obtain ⟨hsm,hss⟩ := processSlashedEvents_spec ps₁
  refine ⟨processSlashedEvents ps₁,?_,?_,?_⟩
  · rw [processEvents_eq,hrn]
    simp only [bind_eq_ok,processExpiredEvents]
    exact ⟨ps,rfl,ps₁,hrn',rfl⟩
  · rw [powerChanges,foldl_append,← he]
    refine hsm.trans ?_
    rw [← hps₁]
    exact (hef.stakes.trans (hn.foldl _)).foldl _
  · intro pk hpk
    rcases hss pk hpk with hm | hold
    · rw [hp.slashed] at hm
      rcases hef.slashed pk hm with h | h
      · rw [hsl] at h
        simp at h
      · exact .inl h
    · rw [fpState,hp.states] at hold
      exact .inr (hst pk (hef.states pk hold))

end AnonChain.Finality
