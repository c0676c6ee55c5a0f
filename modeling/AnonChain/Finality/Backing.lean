import AnonChain.Finality.Caches
import AnonChain.Finality.PowerChanges

/-! The distribution cache holds what the changes so far add up to. -/

namespace AnonChain.Finality

open Lib KVStore
open FinalityProviderDistInfo (restaked new)
open VotingPowerDistCache (bonds)
open KVStore (has_iff getD)
open ProcessingState (deltaSats)
open BtcStaking (BTCDelegation EventPowerDistUpdate StakeChange Registry Extends Stake)
open BtcStaking.EventPowerDistUpdate (statusOf live expires)

def weight (pk : BIP340PubKey) (d : BTCDelegation) : Int := d.fpBtcPkList.count pk*d.totalSat

def sign : StakeChange → Int
  | .add => 1
  | .remove => -1

def PowerChange.sats (stk : BtcStaking.State) (pk : BIP340PubKey) (c : PowerChange) : Int :=
  ((stk.btcDelegations.get c.stakingTxHash).map (fun d => sign c.kind*weight pk d)).getD 0

def staked (stk : BtcStaking.State) (hist : List PowerChange) (pk : BIP340PubKey) : Int :=
  (hist.map (fun c => c.sats stk pk)).sum

def changesOf (k : Hash) (hist : List PowerChange) : List StakeChange :=
  (hist.filter (fun c => c.stakingTxHash = k)).map (·.kind)

def net (l : List StakeChange) : Int := (l.map sign).sum

section

variable {stk stk' : BtcStaking.State} {hist hist' : List PowerChange} {pk : BIP340PubKey}

theorem changesOf_append (k : Hash) (hist hist' : List PowerChange) :
    changesOf k (hist ++ hist') = changesOf k hist ++ changesOf k hist' := by simp [changesOf]

theorem staked_append : staked stk (hist ++ hist') pk = staked stk hist pk+staked stk hist' pk := by
  simp [staked]

theorem net_of_once {l : List StakeChange} (h : l <+: [.add,.remove]) : net l = 0 ∨ net l = 1 := by
  rw [List.prefix_cons_iff] at h
  rcases h with rfl | ⟨t,rfl,h⟩
  · exact .inl rfl
  · rw [List.prefix_cons_iff] at h
    rcases h with rfl | ⟨t',rfl,h⟩
    · exact .inr rfl
    · rw [List.prefix_nil.mp h]
      exact .inl rfl

theorem staked_eq_sumBy (stk : BtcStaking.State) (hist : List PowerChange) (pk : BIP340PubKey) :
    staked stk hist pk =
      KVStore.sumBy (fun k d => net (changesOf k hist)*weight pk d) stk.btcDelegations := by
  induction hist with
  | nil => simpa [staked,changesOf,net] using (sumBy_zero stk.btcDelegations).symm
  | cons c hist ih =>
    have hs : ∀ (k : Hash) (d : BTCDelegation), net (changesOf k (c :: hist))*weight pk d =
        (if k = c.stakingTxHash then sign c.kind*weight pk d else 0) +
          net (changesOf k hist)*weight pk d := by
      intro k d
      by_cases hk : c.stakingTxHash = k
      · simp [changesOf,net,hk,add_mul]
      · simp [changesOf,net,hk,Ne.symm hk]
    simp only [hs,sumBy_add,← ih,staked,List.map_cons,List.sum_cons,PowerChange.sats]
    rw [← sumBy_single]
    congr 2
    funext k d
    congr

theorem staked_nonneg (h : ∀ k, changesOf k hist <+: [.add,.remove]) (pk : BIP340PubKey) :
    0 ≤ staked stk hist pk := by
  rw [staked_eq_sumBy,sumBy]
  refine List.sum_nonneg ?_
  intro x hx
  obtain ⟨e,_,rfl⟩ := List.mem_map.mp hx
  have hw : 0 ≤ weight pk e.2 := Int.mul_nonneg (Int.natCast_nonneg _) (Int.natCast_nonneg _)
  rcases net_of_once (h e.1) with hn | hn <;> simp [hn,hw]

theorem staked_extends (hx : Extends stk stk')
    (hst : ∀ c ∈ hist, ∃ d, stk.btcDelegations.get c.stakingTxHash = some d) :
    staked stk' hist pk = staked stk hist pk := by
  unfold staked
  congr 1
  refine List.map_congr_left ?_
  intro c hc
  obtain ⟨d,hd⟩ := hst c hc
  obtain ⟨d',hd',ht⟩ := hx.terms _ _ hd
  have hf : d'.fpBtcPkList = d.fpBtcPkList := congrArg (·.fpBtcPkList) ht
  have hs : d'.totalSat = d.totalSat := congrArg (·.totalSat) ht
  simp [PowerChange.sats,hd,hd',weight,hf,hs]

end

section

variable {stk : BtcStaking.State} {k : Hash} {x : Stake}

theorem statusChange_of (hx : stk.stake k = some x) (ev : EventPowerDistUpdate) :
    (statusChange stk ev).filter (fun c => c.stakingTxHash = k) =
      ((ev.statusOf k).bind x.onStatus).map (fun kind => ⟨k,kind⟩) := by
  cases ev with
  | btcDelStateUpdate h st =>
    by_cases hk : h = k
    · subst hk
      cases st <;>
        simp [statusChange,statusOf,hx,Stake.onStatus]
      split <;> simp
    · have hn : (statusChange stk (.btcDelStateUpdate h st)).filter
          (fun c => c.stakingTxHash = k) = none := by
        simp only [statusChange,Option.filter_eq_none_iff]
        intro c hc
        simp only [Option.bind_eq_some_iff,Option.map_eq_some_iff] at hc
        obtain ⟨_,_,_,_,rfl⟩ := hc
        simpa using hk
      simp [hn,statusOf,hk]
  | _ => simp [statusChange,statusOf]

theorem changesOf_statuses (hx : stk.stake k = some x) (events : List EventPowerDistUpdate) :
    changesOf k (events.filterMap (statusChange stk)) =
      (events.filterMap (·.statusOf k)).filterMap x.onStatus := by
  rw [changesOf,List.filter_filterMap,List.map_filterMap,List.filterMap_filterMap]
  refine List.filterMap_congr ?_
  intro ev _
  rw [statusChange_of hx]
  cases (ev.statusOf k).bind x.onStatus <;> rfl

theorem changesOf_expiries (hx : stk.stake k = some x) (l : List Hash) :
    changesOf k (l.filterMap (expiryChange stk)) =
      if !x.unbonded && x.signed then List.replicate (l.count k) .remove else [] := by
  induction l with
  | nil => simp [changesOf]
  | cons h l ih =>
    by_cases hk : h = k
    · subst hk
      cases hc : !x.unbonded && x.signed with
      | false =>
        have hn : expiryChange stk h = none := by
          simp only [expiryChange,hx,Option.bind_some,hc,Bool.false_eq_true,if_false]
        rw [List.filterMap_cons_none hn,ih,hc]
        rfl
      | true =>
        have hs : expiryChange stk h = some ⟨h,.remove⟩ := by
          simp only [expiryChange,hx,Option.bind_some,hc,if_true]
        rw [List.filterMap_cons_some hs,List.count_cons_self,if_pos rfl,List.replicate_succ]
        rw [if_pos hc] at ih
        simp [changesOf] at ih ⊢
        exact ih
    · have ho : ∀ c, expiryChange stk h = some c → c.stakingTxHash ≠ k := by
        intro c hc
        simp only [expiryChange,Option.bind_eq_some_iff] at hc
        obtain ⟨y,_,hy⟩ := hc
        split at hy
        · rw [← Option.some.inj hy]
          exact hk
        · simp at hy
      rw [List.count_cons_of_ne hk,← ih]
      cases hc : expiryChange stk h with
      | none => rw [List.filterMap_cons_none hc]
      | some c =>
        rw [List.filterMap_cons_some hc]
        simp [changesOf,ho c hc]

theorem count_expired (k : Hash) (events : List EventPowerDistUpdate) :
    (expired events).count k = events.countP (·.expires k) := by
  induction events with
  | nil => rfl
  | cons ev events ih =>
    have hs : expired (ev :: events) = expired [ev] ++ expired events := by
      rw [expired,expired,expired,← List.filterMap_append,← List.filter_append]
      rfl
    rw [hs,List.count_append,ih,List.countP_cons,Nat.add_comm]
    cases ev with
    | btcDelStateUpdate h st =>
      cases st <;> simp [expired,live,expires,
        EventPowerDistUpdate.ofDelegation,List.count_singleton]
    | _ => simp [expired,live,expires]

theorem changesOf_powerChanges (hx : stk.stake k = some x) (events : List EventPowerDistUpdate) :
    changesOf k (powerChanges stk events) =
      (events.filterMap (·.statusOf k)).filterMap x.onStatus ++
        if !x.unbonded && x.signed then List.replicate (events.countP (·.expires k))
          .remove else [] := by
  rw [powerChanges,changesOf_append,changesOf_statuses hx,changesOf_expiries hx,count_expired]

theorem powerChanges_stored {events : List EventPowerDistUpdate} {c : PowerChange}
    (hc : c ∈ powerChanges stk events) : ∃ d, stk.btcDelegations.get c.stakingTxHash = some d := by
  have hs : ∃ x, stk.stake c.stakingTxHash = some x := by
    simp only [powerChanges,List.mem_append,List.mem_filterMap] at hc
    rcases hc with ⟨ev,_,he⟩ | ⟨h,_,he⟩
    · cases ev with
      | btcDelStateUpdate h st =>
        simp only [statusChange,Option.bind_eq_some_iff,Option.map_eq_some_iff] at he
        obtain ⟨x,hx,_,_,rfl⟩ := he
        exact ⟨x,hx⟩
      | _ => simp [statusChange] at he
    · simp only [expiryChange,Option.bind_eq_some_iff] at he
      obtain ⟨x,hx,he⟩ := he
      split at he
      · rw [← Option.some.inj he]
        exact ⟨x,hx⟩
      · simp at he
  obtain ⟨x,hx⟩ := hs
  simp only [BtcStaking.State.stake,Option.map_eq_some_iff] at hx
  obtain ⟨d,hd,_⟩ := hx
  exact ⟨d,hd⟩

end

section

variable {E : BtcStaking.Env} {stk : BtcStaking.State}

theorem foldl_deltaSats {step : ProcessingState → BIP340PubKey → ProcessingState} {sats : Int}
    (hs : ∀ ps pk' pk, (step ps pk').deltaSats pk = ps.deltaSats pk+if pk = pk' then sats else 0)
    (l : List BIP340PubKey) (ps : ProcessingState) (pk : BIP340PubKey) :
    (l.foldl step ps).deltaSats pk = ps.deltaSats pk+l.count pk*sats := by
  induction l generalizing ps with
  | nil => simp
  | cons pk' l ih =>
    rw [List.foldl_cons,ih,hs,List.count_cons]
    by_cases hp : pk = pk'
    · simp [hp,Int.add_mul]
      omega
    · simp [hp,Ne.symm hp]

theorem deltaSats_active (ps : ProcessingState) (d : BTCDelegation) (pk : BIP340PubKey) :
    (processPowerDistUpdateEventActive ps d).deltaSats pk = ps.deltaSats pk+weight pk d :=
  foldl_deltaSats (fun ps pk' pk => by
    by_cases hp : pk = pk' <;> simp [deltaSats,getD_set,hp]) _ ps pk

theorem deltaSats_unbond (ps : ProcessingState) (d : BTCDelegation) (pk : BIP340PubKey) :
    (processPowerDistUpdateEventUnbond ps d).deltaSats pk = ps.deltaSats pk-weight pk d := by
  rw [weight,Int.sub_eq_add_neg,← Int.mul_neg]
  exact foldl_deltaSats (fun ps pk' pk => by
    by_cases hp : pk = pk' <;>
      simp [deltaSats,getD_set,hp,Int.sub_eq_add_neg]) _ ps pk

theorem deltaSats_changes (ps : ProcessingState) (l : List PowerChange) (pk : BIP340PubKey) :
    (l.foldl (applyChange stk) ps).deltaSats pk = ps.deltaSats pk+staked stk l pk := by
  induction l generalizing ps with
  | nil => simp [staked]
  | cons c l ih =>
    have ho : (applyChange stk ps c).deltaSats pk = ps.deltaSats pk+c.sats stk pk := by
      unfold applyChange PowerChange.sats
      cases stk.btcDelegations.get c.stakingTxHash with
      | none => simp
      | some d => cases c.kind <;> simp [deltaSats_active,deltaSats_unbond,sign,sub_eq_add_neg]
    rw [List.foldl_cons,ih,ho]
    simp [staked,add_assoc]

structure NamesRegistered (stk : BtcStaking.State) (ps : ProcessingState) : Prop where
  deltas : ∀ pk x, ps.deltaSatsByFpBtcPk.get pk = some x → stk.finalityProviders.has pk = true
  delegations : ∀ i ∈ ps.activeDelegations ++ ps.unbondingDelegations,
    stk.finalityProviders.has i.fpBtcPk = true

theorem namesRegistered_changes (hr : Registry E stk) (l : List PowerChange) :
    NamesRegistered stk (l.foldl (applyChange stk) .new) := by
  refine foldl_keeps (P := NamesRegistered stk) ?_ ⟨?_,?_⟩
  · intro c _ ps hps
    unfold applyChange
    split
    case h_1 => exact hps
    case h_2 d hd =>
      obtain ⟨pk₀,fp,hl,hf⟩ := (hr.delegations _ d hd).provider
      have hh : ∀ pk ∈ d.fpBtcPkList, stk.finalityProviders.has pk = true := by
        intro pk hp
        rw [show d.fpBtcPkList = [pk₀] from hl,List.mem_singleton] at hp
        exact hp ▸ has_iff.mpr ⟨fp,hf⟩
      split
      all_goals
        refine foldl_keeps (P := NamesRegistered stk) ?_ hps
        intro pk hp t ht
        refine ⟨?_,?_⟩
        · exact forall_set (hh pk hp) ht.deltas
        · intro i hi
          have hc : i ∈ t.activeDelegations ++ t.unbondingDelegations ∨ i.fpBtcPk = pk := by
            grind
          rcases hc with hold | he
          · exact ht.delegations i hold
          · exact he ▸ hh pk hp
  · intro pk x hx
    simp [ProcessingState.new] at hx
  · simp [ProcessingState.new]

end

/-- The cache has every provider that is not slashed with the stake its delegations have left. -/
structure Backed (stk : BtcStaking.State) (hist : List PowerChange) (dc : VotingPowerDistCache) :
    Prop where
  nodup : (dc.finalityProviders.map (·.btcPk)).Nodup
  unslashed : ∀ fp ∈ dc.finalityProviders, fp.isSlashed = false
  bonded : ∀ fp ∈ dc.finalityProviders, (fp.totalBondedSat : Int) = staked stk hist fp.btcPk
  absent : ∀ pk, pk ∉ dc.finalityProviders.map (·.btcPk) → stk.isSlashedFp pk ∨
    staked stk hist pk = 0

variable {stk : BtcStaking.State} {hist new : List PowerChange} {dc : VotingPowerDistCache}
  {ps : ProcessingState} {pk : BIP340PubKey} {deltas : KVStore BIP340PubKey Int}

theorem mem_bonds :
    pk ∈ dc.finalityProviders.map (·.btcPk) ↔ ∃ b ∈ dc.bonds, b.1 = pk := by
  simp [bonds,FinalityProviderDistInfo.bond]

theorem Backed.perm {dc' : VotingPowerDistCache} (hb : Backed stk hist dc)
    (h : dc'.bonds.Perm dc.bonds) : Backed stk hist dc' := by
  have hf : ∀ fp' ∈ dc'.finalityProviders, ∃ fp ∈ dc.finalityProviders, fp.bond = fp'.bond := by
    intro fp' hfp'
    exact List.mem_map.mp (h.mem_iff.mp (List.mem_map_of_mem hfp'))
  refine ⟨?_,?_,?_,?_⟩
  · have hk := h.map Prod.fst
    simp only [bonds,List.map_map] at hk
    exact hk.nodup_iff.mpr hb.nodup
  · intro fp' hfp'
    obtain ⟨fp,hfp,he⟩ := hf fp' hfp'
    exact (congrArg (·.2.2) he).symm.trans (hb.unslashed fp hfp)
  · intro fp' hfp'
    obtain ⟨fp,hfp,he⟩ := hf fp' hfp'
    have hp : fp.btcPk = fp'.btcPk := congrArg (·.1) he
    have hs : fp.totalBondedSat = fp'.totalBondedSat := congrArg (·.2.1) he
    rw [← hp,← hs]
    exact hb.bonded fp hfp
  · intro pk hp
    refine hb.absent pk ?_
    rw [mem_bonds] at hp ⊢
    rintro ⟨b,hm,he⟩
    exact hp ⟨b,h.mem_iff.mpr hm,he⟩

theorem Backed.extends {stk' : BtcStaking.State} (hb : Backed stk hist dc)
    (hx : Extends stk stk')
    (hs : ∀ c ∈ hist, ∃ d, stk.btcDelegations.get c.stakingTxHash = some d)
    (hsl : ∀ pk, stk.isSlashedFp pk → stk'.isSlashedFp pk) : Backed stk' hist dc := by
  refine ⟨hb.nodup,hb.unslashed,?_,?_⟩
  · intro fp hf
    rw [staked_extends hx hs]
    exact hb.bonded fp hf
  · intro pk hp
    rw [staked_extends hx hs]
    exact (hb.absent pk hp).imp_left (hsl pk)

theorem Admissible.of_nonneg (hr : stk.finalityProviders.has pk = true)
    (h : ¬ stk.isSlashedFp pk → 0 ≤ ps.deltaSats pk) : Admissible stk ps.deltaSatsByFpBtcPk pk := by
  obtain ⟨fp,hf⟩ := has_iff.mp hr
  refine ⟨fp,hf,?_⟩
  intro hc
  refine h ?_
  rintro ⟨fp',hf',hs⟩
  rw [hf,Option.some.injEq] at hf'
  rw [← hf',hc] at hs
  simp at hs

theorem newcomer_of_slashed (h : stk.isSlashedFp pk) : newcomer stk ps deltas pk = none := by
  obtain ⟨fp,hf,hs⟩ := h
  simp [newcomer,hf,hs]

theorem newcomer_eq_none
    (hr : stk.finalityProviders.has pk = true) (h : newcomer stk ps deltas pk = none) :
    stk.isSlashedFp pk ∨ deltas.getD pk 0 ≤ 0 := by
  obtain ⟨fp,hf⟩ := has_iff.mp hr
  simp only [newcomer,hf] at h
  split at h
  case isTrue hs => exact .inl ⟨fp,hf,hs⟩
  case isFalse =>
    simp only [restaked,(jailing_keeps ps _).2.1,new] at h
    split at h
    case isTrue => simp at h
    case isFalse hl => exact .inr (by omega)

theorem reconciled_eq_none {fp : FinalityProviderDistInfo} (h : reconciled ps deltas fp = none) :
    ps.fpState fp.btcPk = .SLASHED ∨ fp.totalBondedSat+deltas.getD fp.btcPk 0 ≤ 0 := by
  unfold reconciled at h
  split at h
  case isTrue hs => exact .inl hs
  case isFalse =>
    simp only [restaked,(jailing_keeps ps fp).2.1] at h
    split at h
    case isTrue => simp at h
    case isFalse hl => exact .inr (by omega)

theorem Backed.newDist (hb : Backed stk hist dc) (hk : stk.FpKeyed)
    (hdl : ∀ pk, ps.deltaSats pk = staked stk new pk) (hnm : NamesRegistered stk ps)
    (hss : ∀ pk, ps.fpState pk = .SLASHED → stk.isSlashedFp pk)
    (hnn : ∀ pk, 0 ≤ staked stk (hist ++ new) pk) :
    Backed stk (hist ++ new) (newDist stk dc ps) := by
  have hdl' : ∀ pk, ps.deltaSatsByFpBtcPk.getD pk 0 = staked stk new pk := hdl
  refine ⟨newDist_nodup hk hb.nodup,?_,?_,?_⟩
  · intro fp hf
    simp only [Finality.newDist,List.mem_append,List.mem_filterMap] at hf
    rcases hf with ⟨fp₀,hf₀,hr⟩ | ⟨pk,_,hn⟩
    · exact (reconciled_eq_some hr).2.2.1.trans (hb.unslashed fp₀ hf₀)
    · exact (newcomer_eq_some hk hn).2.1
  · intro fp hf
    simp only [Finality.newDist,List.mem_append,List.mem_filterMap] at hf
    rcases hf with ⟨fp₀,hf₀,hr⟩ | ⟨pk,hp,hn⟩
    · obtain ⟨_,hp,_,hsa,hps⟩ := reconciled_eq_some hr
      have hold := hb.bonded fp₀ hf₀
      rw [hp,staked_append,← hold,← hdl']
      omega
    · obtain ⟨rfl,_,hsa,hps⟩ := newcomer_eq_some hk hn
      have hold : staked stk hist fp.btcPk = 0 := by
        rcases hb.absent fp.btcPk (mem_newPks.mp hp).2.1 with hs | hz
        · rw [newcomer_of_slashed hs] at hn
          simp at hn
        · exact hz
      rw [staked_append,hold,← hdl']
      omega
  · intro pk hp
    simp only [Finality.newDist,List.map_append,List.mem_append,not_or,List.mem_map,
      List.mem_filterMap,not_exists,not_and] at hp
    have hle := hnn pk
    by_cases hm : pk ∈ dc.finalityProviders.map (·.btcPk)
    · obtain ⟨fp,hf,rfl⟩ := List.mem_map.mp hm
      cases hr : reconciled ps ps.deltaSatsByFpBtcPk fp with
      | some fp' => exact absurd (reconciled_eq_some hr).2.1 (hp.1 fp' ⟨fp,hf,hr⟩)
      | none =>
        rcases reconciled_eq_none hr with hst | hl
        · exact .inl (hss _ hst)
        · rw [hb.bonded fp hf,hdl',← staked_append] at hl
          exact .inr (le_antisymm hl hle)
    · rcases hb.absent pk hm with hs | hold
      · exact .inl hs
      · by_cases hst : ps.fpState pk = .SLASHED
        · exact .inl (hss pk hst)
        · rw [staked_append,hold,← hdl',zero_add] at hle ⊢
          cases hd : ps.deltaSatsByFpBtcPk.get pk with
          | none => exact .inr (by simp [getD,hd])
          | some x =>
            have hnp : pk ∈ newPks dc ps := mem_newPks.mpr ⟨hst,hm,x,hd⟩
            cases hn : newcomer stk ps ps.deltaSatsByFpBtcPk pk with
            | some fp => exact absurd (newcomer_eq_some hk hn).1 (hp.2 fp ⟨pk,hnp,hn⟩)
            | none =>
              rcases newcomer_eq_none (hnm.deltas pk x hd) hn with hs | hl
              · exact .inl hs
              · exact .inr (le_antisymm hl hle)

theorem Backed.processAll {E : BtcStaking.Env} {last cur : Nat} (hb : Backed stk hist dc)
    (hr : Registry E stk) (hk : stk.FpKeyed)
    (hsr : ∀ ev ∈ stk.getAllPowerDistUpdateEvents last cur, ∀ h, ev.ofDelegation = some h →
      ∃ d, stk.btcDelegations.get h = some d)
    (hss : ∀ pk, .slashedFp pk ∈ stk.getAllPowerDistUpdateEvents last cur → stk.isSlashedFp pk)
    (new_eq : new = powerChanges stk (stk.getAllPowerDistUpdateEvents last cur))
    (hnn : ∀ pk, 0 ≤ staked stk (hist ++ new) pk) :
    ∃ dc' ps, processAllPowerDistUpdateEvents stk dc last cur = .ok (dc',ps) ∧
      SameStakes ps (new.foldl (applyChange stk) .new) ∧ NamesRegistered stk ps ∧
      Backed stk (hist ++ new) dc' := by
  obtain ⟨ps,hps,hs,hst⟩ := processEvents_changes hr dc hsr
  rw [← new_eq] at hs
  have hd : ∀ pk, ps.deltaSats pk = staked stk new pk := by
    intro pk
    rw [deltaSats,hs.deltas]
    refine (deltaSats_changes .new new pk).trans ?_
    simp [deltaSats,ProcessingState.new,getD]
  have hn : NamesRegistered stk ps := by
    have h := namesRegistered_changes hr new
    exact ⟨hs.deltas ▸ h.deltas,by rw [hs.active,hs.unbonding]; exact h.delegations⟩
  have hss' : ∀ pk, ps.fpState pk = .SLASHED → stk.isSlashedFp pk := by
    intro pk hp
    rcases hst pk hp with he | ⟨fp,hf,_,hsl⟩
    · exact hss pk he
    · rw [hb.unslashed fp hf] at hsl
      simp at hsl
  refine ⟨Finality.newDist stk dc ps,ps,(processAll_eq_ok hk hb.nodup).mpr ⟨hps,?_,?_,rfl⟩,
    hs,hn,hb.newDist hk hd hn hss' hnn⟩
  · intro fp hf _
    rw [hb.bonded fp hf,hd,← staked_append]
    exact hnn _
  · intro pk hp
    obtain ⟨_,hm,x,hx⟩ := mem_newPks.mp hp
    refine Admissible.of_nonneg (hn.deltas pk x hx) ?_
    intro hc
    have hold := (hb.absent pk hm).resolve_left hc
    have hl := hnn pk
    rw [staked_append,hold,zero_add] at hl
    rw [hd]
    exact hl

end AnonChain.Finality
