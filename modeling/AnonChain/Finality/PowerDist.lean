import AnonChain.Finality.PowerTable

/-! The new distribution as a function of the old one and the processed events. -/

namespace AnonChain.Finality

open Lib List KVStore
open ProcessingState (deltaSats)
open FinalityProviderDistInfo (new)

theorem changeDeltaSats_eq_ok {fp fp' : FinalityProviderDistInfo} {delta : Int} :
    fp.changeDeltaSats delta = .ok fp' ↔ 0 ≤ fp.totalBondedSat+delta ∧
      { fp with totalBondedSat := (fp.totalBondedSat+delta).toNat } = fp' := by
  unfold FinalityProviderDistInfo.changeDeltaSats
  split
  case isTrue hp =>
    have hn : fp.totalBondedSat+delta.toNat = (fp.totalBondedSat+delta).toNat := by omega
    have hl : 0 ≤ (fp.totalBondedSat : Int)+delta := by omega
    simp only [Except.ok.injEq,hn,hl,true_and]
  case isFalse hp =>
    split
    case isTrue hng =>
      have hl : delta.natAbs ≤ fp.totalBondedSat ↔ 0 ≤ (fp.totalBondedSat : Int)+delta := by omega
      have hn : fp.totalBondedSat-delta.natAbs = (fp.totalBondedSat+delta).toNat := by omega
      simp only [FinalityProviderDistInfo.removeBondedSats,ok_iff,hl,hn]
    case isFalse hng =>
      have hz : delta = 0 := by omega
      simp [hz]

def ProcessingState.jailing (ps : ProcessingState) (fp : FinalityProviderDistInfo) :
    FinalityProviderDistInfo :=
  if ps.fpState fp.btcPk = .JAILED then { fp with isJailed := true }
  else if ps.fpState fp.btcPk = .UNJAILED then { fp with isJailed := false }
  else fp

def FinalityProviderDistInfo.restaked (fp : FinalityProviderDistInfo) (delta : Int) :
    Option FinalityProviderDistInfo :=
  if 0 < (fp.totalBondedSat+delta).toNat then
    some { fp with totalBondedSat := (fp.totalBondedSat+delta).toNat }
  else none

def reconciled (ps : ProcessingState) (deltas : KVStore BIP340PubKey Int)
    (fp : FinalityProviderDistInfo) : Option FinalityProviderDistInfo :=
  if ps.fpState fp.btcPk = .SLASHED then none
  else (ps.jailing fp).restaked (deltas.getD fp.btcPk 0)

def newcomer (stk : BtcStaking.State) (ps : ProcessingState) (deltas : KVStore BIP340PubKey Int)
    (pk : BIP340PubKey) : Option FinalityProviderDistInfo :=
  match stk.finalityProviders.get pk with
  | none => none
  | some fp =>
    if fp.isSlashed then none
    else (ps.jailing (FinalityProviderDistInfo.new fp)).restaked (deltas.getD pk 0)

section

variable {ps : ProcessingState} {deltas : KVStore BIP340PubKey Int}
  {fp fp' : FinalityProviderDistInfo} {r : VotingPowerDistCache × KVStore BIP340PubKey Int}

theorem jailing_keeps (ps : ProcessingState) (fp : FinalityProviderDistInfo) :
    (ps.jailing fp).btcPk = fp.btcPk ∧ (ps.jailing fp).totalBondedSat = fp.totalBondedSat ∧
      (ps.jailing fp).isSlashed = fp.isSlashed := by
  unfold ProcessingState.jailing
  split
  · exact ⟨rfl,rfl,rfl⟩
  · split <;> exact ⟨rfl,rfl,rfl⟩

theorem restaked_eq_some {delta : Int} (h : fp.restaked delta = some fp') :
    fp'.btcPk = fp.btcPk ∧ fp'.isSlashed = fp.isSlashed ∧
      fp'.totalBondedSat = (fp.totalBondedSat+delta).toNat ∧ 0 < fp'.totalBondedSat := by
  unfold FinalityProviderDistInfo.restaked at h
  split at h
  case isTrue hp =>
    rw [← Option.some.inj h]
    exact ⟨rfl,rfl,rfl,hp⟩
  case isFalse => simp at h

theorem reconciled_eq_some (h : reconciled ps deltas fp = some fp') :
    ps.fpState fp.btcPk ≠ .SLASHED ∧ fp'.btcPk = fp.btcPk ∧ fp'.isSlashed = fp.isSlashed ∧
      fp'.totalBondedSat = (fp.totalBondedSat+deltas.getD fp.btcPk 0).toNat ∧
      0 < fp'.totalBondedSat := by
  unfold reconciled at h
  split at h
  case isTrue => simp at h
  case isFalse hst =>
    obtain ⟨hp,hsl,hs,hps⟩ := restaked_eq_some h
    obtain ⟨hp',hs',hsl'⟩ := jailing_keeps ps fp
    exact ⟨hst,hp.trans hp',hsl.trans hsl',by rw [hs,hs'],hps⟩

theorem newcomer_eq_some {stk : BtcStaking.State} {pk : BIP340PubKey}
    {fp' : FinalityProviderDistInfo} (hk : stk.FpKeyed) (h : newcomer stk ps deltas pk = some fp') :
    fp'.btcPk = pk ∧ fp'.isSlashed = false ∧ fp'.totalBondedSat = (deltas.getD pk 0).toNat ∧
      0 < fp'.totalBondedSat := by
  unfold newcomer at h
  split at h
  case h_1 => simp at h
  case h_2 fp hf =>
    split at h
    case isTrue => simp at h
    case isFalse hc =>
      obtain ⟨hp,hs,hst,hps⟩ := restaked_eq_some h
      obtain ⟨hp',hst',hs'⟩ := jailing_keeps ps (new fp)
      refine ⟨(hp.trans hp').trans (hk pk fp hf),?_,?_,hps⟩
      · rw [hs,hs']
        exact Bool.eq_false_iff.mpr hc
      · rw [hst,hst']
        simp [new]

theorem reconcileFp_eq_ok {dc : VotingPowerDistCache} {fp : FinalityProviderDistInfo} :
    reconcileFp ps (dc,deltas) fp = .ok r ↔
      (ps.fpState fp.btcPk ≠ .SLASHED → 0 ≤ fp.totalBondedSat+deltas.getD fp.btcPk 0) ∧
      r = ({ dc with
        finalityProviders := dc.finalityProviders ++ (reconciled ps deltas fp).toList },
        if ps.fpState fp.btcPk = .SLASHED then deltas else deltas.delete fp.btcPk) := by
  by_cases hs : ps.fpState fp.btcPk = .SLASHED
  · simp [reconcileFp,reconciled,hs,eq_comm]
  · have hr : reconcileFp ps (dc,deltas) fp =
        Result.orPanic ((ps.jailing fp).changeDeltaSats (deltas.getD fp.btcPk 0)) >>= fun fp₂ =>
          pure (if 0 < fp₂.totalBondedSat then dc.addFinalityProviderDistInfo fp₂ else dc,
            deltas.delete fp.btcPk) := if_neg hs
    have he : ∀ fp₂, { ps.jailing fp with
        totalBondedSat := (fp.totalBondedSat+deltas.getD fp.btcPk 0).toNat } = fp₂ →
        (if 0 < fp₂.totalBondedSat then dc.addFinalityProviderDistInfo fp₂ else dc) =
          { dc with
            finalityProviders := dc.finalityProviders ++ (reconciled ps deltas fp).toList } := by
      rintro fp₂ rfl
      simp only [reconciled,if_neg hs,FinalityProviderDistInfo.restaked,(jailing_keeps ps fp).2.1,
        VotingPowerDistCache.addFinalityProviderDistInfo]
      split <;> simp
    rw [hr]
    simp only [ok_iff,changeDeltaSats_eq_ok,(jailing_keeps ps fp).2.1,ne_eq,hs,
      not_false_eq_true,forall_const,if_false]
    constructor
    · rintro ⟨fp₂,⟨hl,hf₂⟩,rfl⟩
      exact ⟨hl,by rw [he fp₂ hf₂]⟩
    · rintro ⟨hl,rfl⟩
      exact ⟨_,⟨hl,rfl⟩,by rw [he _ rfl]⟩

def remainingDeltas (ps : ProcessingState) (l : List FinalityProviderDistInfo)
    (deltas : KVStore BIP340PubKey Int) : KVStore BIP340PubKey Int :=
  l.foldl (fun d fp => if ps.fpState fp.btcPk = .SLASHED then d else d.delete fp.btcPk) deltas

theorem get_remainingDeltas (ps : ProcessingState) (l : List FinalityProviderDistInfo)
    (deltas : KVStore BIP340PubKey Int) (pk : BIP340PubKey) :
    (remainingDeltas ps l deltas).get pk =
      if ps.fpState pk ≠ .SLASHED ∧ pk ∈ l.map (·.btcPk) then none else deltas.get pk := by
  unfold remainingDeltas
  induction l generalizing deltas with
  | nil => simp
  | cons fp l ih =>
    simp only [foldl_cons,ih,map_cons,mem_cons]
    by_cases hp : pk = fp.btcPk
    · subst hp
      by_cases hs : ps.fpState fp.btcPk = .SLASHED <;> simp [hs,KVStore.get_delete]
    · by_cases hs : ps.fpState fp.btcPk = .SLASHED <;> simp [hs,hp,KVStore.get_delete]

theorem reconcile_foldlM {dc : VotingPowerDistCache} {l : List FinalityProviderDistInfo}
    (hn : (l.map (·.btcPk)).Nodup) :
    l.foldlM (reconcileFp ps) (dc,deltas) = .ok r ↔
      (∀ fp ∈ l, ps.fpState fp.btcPk ≠ .SLASHED → 0 ≤ fp.totalBondedSat+deltas.getD fp.btcPk 0) ∧
      r = ({ dc with
        finalityProviders := dc.finalityProviders ++ l.filterMap (reconciled ps deltas) },
        remainingDeltas ps l deltas) := by
  induction l generalizing dc deltas with
  | nil =>
    rw [foldlM_nil,pure_eq_ok]
    simp [remainingDeltas,eq_comm]
  | cons fp l ih =>
    rw [map_cons,nodup_cons] at hn
    have ho : ∀ fp' ∈ l, (if ps.fpState fp.btcPk = .SLASHED then deltas
        else deltas.delete fp.btcPk).getD fp'.btcPk 0 = deltas.getD fp'.btcPk 0 := by
      intro fp' hf'
      have hne : fp'.btcPk ≠ fp.btcPk := by
        intro he
        exact hn.1 (mem_map.mpr ⟨fp',hf',he⟩)
      split
      · rfl
      · simp [KVStore.getD,KVStore.get_delete,hne]
    have hm : l.filterMap (reconciled ps (if ps.fpState fp.btcPk = .SLASHED then deltas
        else deltas.delete fp.btcPk)) = l.filterMap (reconciled ps deltas) := by
      refine filterMap_congr ?_
      intro fp' hf'
      simp only [reconciled,ho fp' hf']
    simp only [foldlM_cons,bind_eq_ok,reconcileFp_eq_ok]
    constructor
    · rintro ⟨_,⟨hh,rfl⟩,hrs⟩
      obtain ⟨ht,rfl⟩ := (ih hn.2).mp hrs
      refine ⟨?_,?_⟩
      · intro fp' hf' hs
        cases mem_cons.mp hf' with
        | inl he => exact he ▸ hh (he ▸ hs)
        | inr hmm =>
          have hl := ht fp' hmm hs
          rwa [ho fp' hmm] at hl
      · rw [hm,filterMap_cons]
        cases hr : reconciled ps deltas fp <;> simp [remainingDeltas]
    · rintro ⟨ha,rfl⟩
      refine ⟨_,⟨ha fp (mem_cons_self ..),rfl⟩,(ih hn.2).mpr ⟨?_,?_⟩⟩
      · intro fp' hf' hs
        rw [ho fp' hf']
        exact ha fp' (mem_cons_of_mem _ hf') hs
      · rw [hm,filterMap_cons]
        cases hr : reconciled ps deltas fp <;> simp [remainingDeltas]

end

section

variable {stk : BtcStaking.State} {ps : ProcessingState} {deltas : KVStore BIP340PubKey Int}
  {dc dc' : VotingPowerDistCache}

/-- A provider that can enter the cache: it is registered, and slashed or not left with less than
nothing. -/
def Admissible (stk : BtcStaking.State) (deltas : KVStore BIP340PubKey Int)
    (pk : BIP340PubKey) : Prop :=
  ∃ fp, stk.finalityProviders.get pk = some fp ∧ (fp.isSlashed = false → 0 ≤ deltas.getD pk 0)

theorem addNewFp_eq_ok (hk : stk.FpKeyed) {pk : BIP340PubKey} :
    addNewFp stk ps deltas dc pk = .ok dc' ↔ Admissible stk deltas pk ∧
      { dc with finalityProviders := dc.finalityProviders ++ (newcomer stk ps deltas pk).toList } =
        dc' := by
  simp only [addNewFp,BtcStaking.State.getFinalityProvider,ok_iff,Admissible,newcomer]
  cases hf : stk.finalityProviders.get pk with
  | none => simp
  | some fp =>
    have hp : fp.btcPk = pk := hk pk fp hf
    have hj : (if ps.fpState pk = .JAILED then { new fp with isJailed := true }
        else if ps.fpState pk = .UNJAILED then { new fp with isJailed := false }
        else new fp) = ps.jailing (new fp) := by
      rw [← hp]
      rfl
    have hz : (ps.jailing (new fp)).totalBondedSat = 0 :=
      (jailing_keeps ps _).2.1
    cases hs : fp.isSlashed with
    | true => simp [hs,pure_eq_ok]
    | false =>
      simp only [Option.some.injEq,exists_eq_left',hs,hj,Bool.false_eq_true,if_false,ok_iff,
        changeDeltaSats_eq_ok,hz,forall_const,Nat.cast_zero,zero_add,
        FinalityProviderDistInfo.restaked,VotingPowerDistCache.addFinalityProviderDistInfo]
      constructor
      · rintro ⟨fp₂,⟨hl,rfl⟩,rfl⟩
        refine ⟨hl,?_⟩
        split <;> simp
      · rintro ⟨hl,rfl⟩
        refine ⟨_,⟨hl,rfl⟩,?_⟩
        split <;> simp

theorem addNewFp_foldlM (hk : stk.FpKeyed) {l : List BIP340PubKey} :
    l.foldlM (addNewFp stk ps deltas) dc = .ok dc' ↔ (∀ pk ∈ l, Admissible stk deltas pk) ∧
      { dc with finalityProviders :=
        dc.finalityProviders ++ l.filterMap (newcomer stk ps deltas) } = dc' := by
  induction l generalizing dc with
  | nil =>
    rw [foldlM_nil,pure_eq_ok]
    simp
  | cons pk l ih =>
    simp only [foldlM_cons,bind_eq_ok,addNewFp_eq_ok hk,ih,forall_mem_cons,filterMap_cons]
    constructor
    · rintro ⟨_,⟨hh,rfl⟩,ht,rfl⟩
      refine ⟨⟨hh,ht⟩,?_⟩
      cases newcomer stk ps deltas pk <;> simp
    · rintro ⟨⟨hh,ht⟩,rfl⟩
      refine ⟨_,⟨hh,rfl⟩,ht,?_⟩
      cases newcomer stk ps deltas pk <;> simp

end

theorem processEventsAtHeight_foldlM (stk : BtcStaking.State) (l : List Nat)
    (ps : ProcessingState) :
    l.foldlM (processEventsAtHeight stk) ps = (l.flatMap stk.eventsAt).foldlM
      (processEvent stk) ps := by
  induction l generalizing ps with
  | nil => rfl
  | cons x l ih =>
    rw [foldlM_cons,flatMap_cons,foldlM_append]
    simp only [ih,processEventsAtHeight]

theorem processEvents_eq (stk : BtcStaking.State) (dc : VotingPowerDistCache) (last cur : Nat) :
    processEvents stk dc last cur = (stk.getAllPowerDistUpdateEvents last cur).foldlM
      (processEvent stk)
      (ProcessingState.new.fillByPrevVpDstCache dc) >>=
        fun ps => processExpiredEvents stk ps >>= fun ps' =>
        pure (processSlashedEvents ps') := by
  rw [processEvents,processEventsAtHeight_foldlM]
  rfl

variable {stk : BtcStaking.State} {dc dc' : VotingPowerDistCache} {ps : ProcessingState}
  {last cur : Nat}

def newPks (dc : VotingPowerDistCache) (ps : ProcessingState) : List BIP340PubKey :=
  (remainingDeltas ps dc.finalityProviders ps.deltaSatsByFpBtcPk).keys.filter
    (fun pk => ps.fpState pk ≠ .SLASHED)

theorem mem_newPks {pk : BIP340PubKey} : pk ∈ newPks dc ps ↔ ps.fpState pk ≠ .SLASHED ∧
    pk ∉ dc.finalityProviders.map (·.btcPk) ∧ ∃ d, ps.deltaSatsByFpBtcPk.get pk = some d := by
  simp only [newPks,mem_filter,KVStore.mem_keys,get_remainingDeltas,decide_eq_true_eq]
  by_cases hs : ps.fpState pk = .SLASHED
  · simp [hs]
  · by_cases hm : pk ∈ dc.finalityProviders.map (·.btcPk)
    · simp [hs,hm]
    · simp [hs,hm]

theorem newPks_getD {pk : BIP340PubKey} (h : pk ∈ newPks dc ps) :
    (remainingDeltas ps dc.finalityProviders ps.deltaSatsByFpBtcPk).getD pk 0 =
      ps.deltaSats pk := by
  obtain ⟨_,hm,_⟩ := mem_newPks.mp h
  simp only [KVStore.getD,deltaSats,get_remainingDeltas,hm,and_false,if_false]

def newDist (stk : BtcStaking.State) (dc : VotingPowerDistCache) (ps : ProcessingState) :
    VotingPowerDistCache :=
  ⟨0,dc.finalityProviders.filterMap (reconciled ps ps.deltaSatsByFpBtcPk) ++
    (newPks dc ps).filterMap (newcomer stk ps ps.deltaSatsByFpBtcPk),0⟩

theorem processAll_eq_ok (hk : stk.FpKeyed) (hn : (dc.finalityProviders.map (·.btcPk)).Nodup) :
    processAllPowerDistUpdateEvents stk dc last cur = .ok (dc',ps) ↔
      processEvents stk dc last cur = .ok ps ∧
      (∀ fp ∈ dc.finalityProviders, ps.fpState fp.btcPk ≠ .SLASHED →
        0 ≤ fp.totalBondedSat+ps.deltaSats fp.btcPk) ∧
      (∀ pk ∈ newPks dc ps, Admissible stk ps.deltaSatsByFpBtcPk pk) ∧ newDist stk dc ps = dc' := by
  have ha : ∀ pk ∈ newPks dc ps, (Admissible stk (remainingDeltas ps dc.finalityProviders
      ps.deltaSatsByFpBtcPk) pk ↔ Admissible stk ps.deltaSatsByFpBtcPk pk) := by
    intro pk hp
    simp only [Admissible,newPks_getD hp,deltaSats]
  have hnw : (newPks dc ps).filterMap (newcomer stk ps (remainingDeltas ps dc.finalityProviders
      ps.deltaSatsByFpBtcPk)) = (newPks dc ps).filterMap
        (newcomer stk ps ps.deltaSatsByFpBtcPk) := by
    refine filterMap_congr ?_
    intro pk hp
    simp only [newcomer,newPks_getD hp,deltaSats]
  simp only [processAllPowerDistUpdateEvents,ok_iff,reconcile_foldlM hn,
    addNewFp_foldlM hk,Prod.mk.injEq]
  constructor
  · rintro ⟨ps',hps,_,⟨hal,rfl⟩,dc₂,⟨ha',rfl⟩,rfl,rfl⟩
    refine ⟨hps,hal,fun pk hp => (ha pk hp).mp (ha' pk hp),?_⟩
    simp only [newDist,← hnw]
    rfl
  · rintro ⟨hps,hal,ha',rfl⟩
    refine ⟨ps,hps,_,⟨hal,rfl⟩,_,⟨fun pk hp => (ha pk hp).mpr (ha' pk hp),rfl⟩,?_,rfl⟩
    simp only [newDist,← hnw]
    rfl

theorem newDist_bonded (hk : stk.FpKeyed) {fp : FinalityProviderDistInfo}
    (h : fp ∈ (newDist stk dc ps).finalityProviders) : 0 < fp.totalBondedSat := by
  simp only [newDist,mem_append,mem_filterMap] at h
  rcases h with ⟨fp₀,_,hf⟩ | ⟨pk,_,hf⟩
  · exact (reconciled_eq_some hf).2.2.2.2
  · exact (newcomer_eq_some hk hf).2.2.2

theorem newDist_nodup (hk : stk.FpKeyed) (hn : (dc.finalityProviders.map (·.btcPk)).Nodup) :
    ((newDist stk dc ps).finalityProviders.map (·.btcPk)).Nodup := by
  simp only [newDist,map_append]
  refine List.Nodup.append ?_ ?_ ?_
  · exact nodup_map_filterMap (·.btcPk) (fun _ _ h => (reconciled_eq_some h).2.1) hn
  · refine nodup_map_filterMap id (fun _ _ h => (newcomer_eq_some hk h).1) ?_
    rw [map_id]
    exact (keys_nodup _).filter _
  · intro pk hold hne
    simp only [mem_map,mem_filterMap] at hold hne
    obtain ⟨fp',⟨fp,hf,hr⟩,rfl⟩ := hold
    obtain ⟨fp'',⟨pk,hp,hnw⟩,he⟩ := hne
    have hp' := (newcomer_eq_some hk hnw).1
    rw [he,(reconciled_eq_some hr).2.1] at hp'
    exact (mem_newPks.mp hp).2.1 (mem_map.mpr ⟨fp,hf,hp'⟩)

end AnonChain.Finality
