import AnonChain.Finality.Backing
import AnonChain.Safety.Consumption

/-! Every block turns the events of the previous one and the due expiries into changes of stake. -/

namespace AnonChain

open Lib List KVStore
open BtcLightClient (BTCHeaderInfo)
open BtcStaking (Ctx FpSteps Moves Registry Extends Amends RecordedEvent EventPowerDistUpdate Stake
  Phase statuses expiries State stake_eq_none clear_frame)
open Finality (Stores PowerChange powerChanges changesOf staked Backed applyChange SameStakes Env
  bondsAt_congr)
open BtcStaking.EventPowerDistUpdate (live statusOf ofDelegation)

/-- The tip of the Bitcoin chain does not fall, no message shows a transaction in its first block,
and no spending transaction that is shown spends an output of its own. -/
structure SteadyBitcoin (E : Env) (c : Chain) (a : Action) (c' : Chain) : Prop where
  aboveGenesis : a.shown.AboveGenesis c.ctx.btclc
  noSelfSpend : a.shown.NoSelfSpend E.stk.btc
  tips : ∀ t t', c.ctx.btclc.getTip = some t → c'.ctx.btclc.getTip = some t' → t.height ≤ t'.height

def Chain.nextChanges (c : Chain) (time : Nat) (appHash : Bytes) : List PowerChange :=
  match c.nextEvents time appHash with
  | .ok events => powerChanges c.stores.stk events
  | .error _ => []

def Chain.changesMade (c : Chain) : Action → List PowerChange
  | .beginBlock time appHash => c.nextChanges time appHash
  | _ => []

def ledger (E : Env) : System (Chain × List PowerChange) Action :=
  ((chain E).restrict (SteadyBitcoin E)).recorded Chain.changesMade

def Chain.indexedTip (c : Chain) : Nat := (c.stores.stk.btcHeights.get c.ctx.header.height).getD 0

structure LedgerInv (c : Chain) (hist : List PowerChange) : Prop where
  events : EventInv c
  tips : c.TipAbove
  fresh : c.stores.stk.btcHeights.get c.ctx.header.height = none → ∀ k, c.stores.stk.stake k = none
  phases : ∀ k, Phase c.indexedTip (c.stores.stk.stake k) (statuses k c.blockLog) (changesOf k hist)
  expiring : ∀ k x, (c.stores.stk.eventsAt x).countP (·.expires k) =
    Stake.filedAt c.indexedTip (c.stores.stk.stake k) x
  slashed : ∀ e ∈ c.blockLog, ∀ pk, e.event = .slashedFp pk → c.stores.stk.isSlashedFp pk
  backed : Backed c.stores.stk hist (c.stores.fin.lastVotingPowerDistCache c.ctx.header.height)

section

variable {E : Env} {c c' : Chain}

theorem StakingEffect.moves {ctx : Ctx} {a : Action} {s s' : State} (h : StakingEffect E ctx a s s')
    (hr : Registry E.stk s) (hk : s.FpKeyed) (hp : 0 < ctx.header.height) (hw : ctx.btclc.WF)
    (hgs : a.shown.AboveGenesis ctx.btclc) (hs : a.shown.NoSelfSpend E.stk.btc)
    {t : BTCHeaderInfo} (ht : ctx.btclc.getTip = some t) :
    ∃ new, Moves ctx s s' t.height new := by
  cases h with
  | providers steps => exact FpSteps.moves steps hr hk hp
  | message step => exact step.moves hr hw hgs hs ht
  | reorg eq =>
    have ha : Amends s s' := .of_eq (by rw [eq]) (by rw [eq])
      (fun _ fp h => ⟨fp,by rw [eq]; exact h⟩)
    refine ⟨[],.nothing (by rw [eq]) (by rw [eq]) (by rw [eq]),?_,by simp⟩
    intro k
    rw [ha.toExtends.stake_eq hr (by rw [eq])]
    exact .stay _

theorem StepEffect.header {a : Action} (h : StepEffect E c a c')
    (hn : ∀ time appHash, a ≠ .beginBlock time appHash) : c'.ctx.header = c.ctx.header := by
  cases h with
  | beginBlock => exact absurd rfl (hn _ _)
  | endBlock => rfl
  | between header => exact header

theorem StepEffect.bonds {a : Action} (h : StepEffect E c a c') (hb : c.stores.fin.BlocksKeyed)
    (ht : 0 < c.stores.fin.params.finalitySigTimeout) (hh : c'.ctx.header = c.ctx.header) :
    (c'.stores.fin.bondsAt c.ctx.header.height).Perm
      (c.stores.fin.bondsAt c.ctx.header.height) := by
  cases h with
  | beginBlock _ ctx_eq =>
    have hhg := congrArg (·.height) hh
    simp only [ctx_eq] at hhg
    omega
  | endBlock _ _ run =>
    exact .of_eq (bondsAt_congr ((Finality.endBlocker_effect hb run).current ht))
  | between _ _ effect =>
    cases effect with
    | quiet fin => rw [fin]
    | vote _ effect => exact .of_eq (bondsAt_congr (by rw [effect.caches]))
    | commit effect => exact .of_eq (bondsAt_congr (by rw [effect.fin]))
    | params _ fin => exact .of_eq (bondsAt_congr (by rw [fin]))
    | resume _ run => exact Finality.resumeFinalityProposal_bonds run _

theorem finParams_valid (h : (chain E).Reachable c) : c.stores.fin.params.validate = .ok () := by
  refine h.invariant (P := fun c => c.stores.fin.params.validate = .ok ())
    (fun _ (hg : Genesis E _) => hg.finParams) ?_
  rintro c a c' hr hp (ho | ⟨_,_,rfl⟩)
  · cases deliver_effect ho with
    | beginBlock _ _ run =>
      obtain ⟨_,_,_,_,_,_,_,_,_,he⟩ := Finality.updatePowerDist_effect run
      rw [he.fin]
      exact hp
    | endBlock _ _ run =>
      rw [(Finality.endBlocker_effect (baseInv hr).blocks run).fin]
      exact hp
    | between _ _ effect =>
      cases effect with
      | quiet fin => rw [fin]; exact hp
      | vote _ effect => rw [effect.frame.1]; exact hp
      | commit effect => rw [effect.fin]; exact hp
      | params _ fin valid => rw [fin]; exact valid
      | resume _ run => rw [(Finality.resumeFinalityProposal_effect run).fin]; exact hp
  · exact hp

theorem finalitySigTimeout_pos (h : (chain E).Reachable c) :
    0 < c.stores.fin.params.finalitySigTimeout := by
  have hv := finParams_valid h
  simp only [Finality.Params.validate,ok_iff] at hv
  exact hv.2.2.1

theorem indexBTCHeight_amends (s : State) (ctx : Ctx) : Amends s (s.indexBTCHeight ctx) := by
  unfold State.indexBTCHeight
  split <;> exact .of_eq rfl rfl (fun _ fp h => ⟨fp,h⟩)

theorem exists_beginRange (hw : c.ctx.btclc.WF) {ctx : Ctx} {time : Nat} {appHash : Bytes}
    (ctx_eq : ctx = c.nextCtx time appHash) :
    ∃ last cur, (c.stores.stk.indexBTCHeight ctx).getCurrentBTCHeight ctx = .ok cur ∧
      (c.stores.stk.indexBTCHeight ctx).getBTCHeightAtAnonHeight ctx c.ctx.header.height =
        .ok last ∧
      BeginRange c ctx last cur := by
  obtain ⟨t,ht,_,_⟩ := hw.getTip_spec
  have hbt : ctx.btclc = c.ctx.btclc := by rw [ctx_eq]
  have hh : ctx.header.height-1 = c.ctx.header.height := by rw [ctx_eq]; rfl
  have hin := BtcStaking.indexBTCHeight_eq (s := c.stores.stk) (hbt ▸ ht)
  have hc : (c.stores.stk.indexBTCHeight ctx).getCurrentBTCHeight ctx = .ok t.height := by
    simp [hin,State.getCurrentBTCHeight,State.getBTCHeightAtAnonHeight]
  have hl : ∃ last, (c.stores.stk.indexBTCHeight ctx).getBTCHeightAtAnonHeight ctx
      c.ctx.header.height = .ok last := by
    unfold State.getBTCHeightAtAnonHeight
    split
    case h_1 i _ => exact ⟨i,rfl⟩
    case h_2 =>
      cases hb : c.ctx.btclc.baseHeader with
      | some base => exact ⟨base.height,by simp [hbt,hb,orFail]⟩
      | none =>
        obtain ⟨x,i,hi⟩ := hw.nonempty
        rw [BtcLightClient.State.baseHeader,Option.map_eq_none_iff,first_eq_none] at hb
        simp [hb x] at hi
  obtain ⟨last,hl⟩ := hl
  exact ⟨last,t.height,hc,hl,beginRange_spec hw ctx_eq hc (by rw [hh]; exact hl)⟩

end

section

variable {E : Env} {c c' : Chain} {hist : List PowerChange} {t : BTCHeaderInfo}

theorem ledgerInv_genesis (hg : Genesis E c) : LedgerInv c [] := by
  have hl : c.blockLog = [] := by simp [Chain.blockLog,hg.noLog]
  have hs : ∀ k, c.stores.stk.stake k = none := by simp [stake_eq_none,hg.noDelegations]
  have hb : c.stores.fin.bondsAt c.ctx.header.height = [] := by
    simp [Finality.bondsAt_eq,hg.noCache]
  have hn : (c.stores.fin.lastVotingPowerDistCache c.ctx.header.height).finalityProviders = [] :=
    map_eq_nil_iff.mp hb
  refine ⟨eventInv_genesis hg,?_,fun _ => hs,?_,?_,by simp [hl],?_⟩
  · intro tip _
    simp [hg.noHeights,hl]
  · simpa [hs,hl,statuses,changesOf] using Phase.absent
  · simp [hs,Stake.filedAt,State.eventsAt,hg.noEvents,KVStore.getD]
  · exact ⟨by simp [hn],by simp [hn],by simp [hn],by simp [staked]⟩

theorem statuses_live (k : Hash) (l : List RecordedEvent) :
    statuses k (l.filter (fun e => e.event.live)) = statuses k l := by
  rw [statuses,statuses,filterMap_filter]
  refine filterMap_congr ?_
  intro e _
  cases he : e.event with
  | btcDelStateUpdate h st =>
    cases st <;> simp [live,statusOf]
  | _ => simp [statusOf]

theorem count_expiries (k : Hash) (x : Nat) (l : List RecordedEvent) :
    ((l.filter (fun e => e.btcHeight = x)).map (·.event)).countP (·.expires k) =
      (expiries k l).count x := by
  simp only [expiries,count_eq_countP,countP_map,countP_filter]
  refine countP_congr ?_
  simp [and_comm]

theorem LedgerInv.indexed_le (hi : LedgerInv c hist) (ht : c.ctx.btclc.getTip = some t) :
    c.indexedTip ≤ t.height := by
  unfold Chain.indexedTip
  cases hg : c.stores.stk.btcHeights.get c.ctx.header.height with
  | none => simp
  | some i => exact (hi.tips t ht).1 i hg

theorem LedgerInv.stored (hi : LedgerInv c hist) {p : PowerChange} (hp : p ∈ hist) :
    ∃ d, c.stores.stk.btcDelegations.get p.stakingTxHash = some d := by
  cases hd : c.stores.stk.btcDelegations.get p.stakingTxHash with
  | some d => exact ⟨d,rfl⟩
  | none =>
    have hph := hi.phases p.stakingTxHash
    rw [stake_eq_none.mpr hd] at hph
    have hn := hph.pending_of_none.2
    simp only [changesOf,map_eq_nil_iff,filter_eq_nil_iff] at hn
    have hne := hn p hp
    simp at hne

theorem LedgerInv.within {new : List RecordedEvent} (hi : LedgerInv c hist)
    (ht : c.ctx.btclc.getTip = some t) (hm : Moves c.ctx c.stores.stk c'.stores.stk t.height new)
    (hx : Extends c.stores.stk c'.stores.stk) (header : c'.ctx.header = c.ctx.header)
    (busy : c'.stores.stk = c.stores.stk ∨ c.inBlock = true) (hev : EventInv c')
    (hr : ∀ t', c'.ctx.btclc.getTip = some t' → t.height ≤ t'.height)
    (hs : ∀ pk, c.stores.stk.isSlashedFp pk → c'.stores.stk.isSlashedFp pk)
    (hb : (c'.stores.fin.bondsAt c.ctx.header.height).Perm
      (c.stores.fin.bondsAt c.ctx.header.height)) :
    LedgerInv c' hist := by
  have hlg := blockLog_append header hm.records
  have hh : c'.stores.stk.btcHeights.get c'.ctx.header.height =
      c.stores.stk.btcHeights.get c.ctx.header.height := by rw [hm.records.heights,header]
  have hid : c'.indexedTip = c.indexedTip := by rw [Chain.indexedTip,hh,Chain.indexedTip]
  have hle := hi.indexed_le ht
  refine ⟨hev,?_,?_,?_,?_,?_,?_⟩
  · intro t' ht'
    have hu := hr t' ht'
    refine ⟨?_,?_⟩
    · intro i hg
      rw [hh] at hg
      have := (hi.tips t ht).1 i hg
      omega
    · intro e he
      rw [hlg] at he
      cases mem_append.mp he with
      | inl hold =>
        have := (hi.tips t ht).2 e hold
        omega
      | inr hn =>
        obtain ⟨hmm,hl⟩ := mem_filter.mp hn
        obtain ⟨t₀,ht₀,hat⟩ := hm.records.tip e hmm hl
        rw [ht,Option.some.injEq] at ht₀
        rw [hat,← ht₀]
        exact hu
  · intro hnn k
    rw [hh] at hnn
    rcases busy with hsm | hin
    · rw [hsm]
      exact hi.fresh hnn k
    · obtain ⟨i,hg⟩ := hi.events.indexed hin
      simp [hnn] at hg
  · intro k
    have ha : statuses k c'.blockLog = statuses k c.blockLog ++ statuses k new := by
      rw [hlg,← statuses_live k new]
      exact filterMap_append
    rw [hid,ha]
    exact (hi.phases k).move (hm.move k) hle
  · intro k x
    rw [hm.records.filed,countP_append,hi.expiring,hid,count_expiries,(hm.move k).filedAt hle]
  · intro e he pk hpk
    rw [hlg] at he
    cases mem_append.mp he with
    | inl hold => exact hs pk (hi.slashed e hold pk hpk)
    | inr hn => exact hm.slashed e (mem_filter.mp hn).1 pk hpk
  · rw [header]
    exact (hi.backed.extends hx (fun p hp => hi.stored hp) hs).perm hb

end

section

variable {E : Env} {c c' : Chain} {hist : List PowerChange} {ctx : Ctx} {last cur : Nat}

theorem statusOf_live (k : Hash) (l : List EventPowerDistUpdate) :
    (l.filter (·.live)).filterMap (·.statusOf k) = l.filterMap (·.statusOf k) := by
  rw [filterMap_filter]
  refine filterMap_congr ?_
  intro ev _
  cases ev with
  | btcDelStateUpdate h st =>
    cases st <;> simp [live,statusOf]
  | _ => simp [statusOf]

theorem BeginRange.eventsAt (hr : BeginRange c ctx last cur) (x : Nat) :
    (c.stores.stk.indexBTCHeight ctx).eventsAt x = c.stores.stk.eventsAt x := by
  rw [hr.indexed]
  rfl

theorem LedgerInv.last_eq (hi : LedgerInv c hist) (hr : BeginRange c ctx last cur)
    {k : Hash} {x : Stake} (hx : c.stores.stk.stake k = some x) : last = c.indexedTip := by
  cases hg : c.stores.stk.btcHeights.get c.ctx.header.height with
  | some i => simpa [Chain.indexedTip,hg] using hr.last i hg
  | none => simp [hi.fresh hg k] at hx

theorem LedgerInv.indexed_le_cur (hi : LedgerInv c hist) (hr : BeginRange c ctx last cur) :
    c.indexedTip ≤ cur := by
  obtain ⟨t,ht,rfl⟩ := hr.tip
  exact hi.indexed_le ht

theorem LedgerInv.changes_next (hi : LedgerInv c hist) (hr : BeginRange c ctx last cur) {k : Hash}
    {x : Stake} (hx : c.stores.stk.stake k = some x) :
    changesOf k (powerChanges c.stores.stk
      ((c.stores.stk.indexBTCHeight ctx).getAllPowerDistUpdateEvents last cur)) =
      x.changes (statuses k c.blockLog) c.indexedTip cur := by
  have hs : ((c.stores.stk.indexBTCHeight ctx).getAllPowerDistUpdateEvents last cur).filterMap
      (·.statusOf k) = statuses k c.blockLog := by
    rw [← statusOf_live,hr.consumed hi.events (fun _ => hi.tips),filterMap_map]
    rfl
  have hc : ((c.stores.stk.indexBTCHeight ctx).getAllPowerDistUpdateEvents last cur).countP
      (·.expires k) = if x.due c.indexedTip cur then 1 else 0 := by
    rw [← x.sum_filedAt,← hi.last_eq hr hx]
    simp only [State.getAllPowerDistUpdateEvents,State.heightRange,countP_flatMap]
    congr 1
    refine map_congr_left ?_
    intro h _
    simp only [Function.comp_apply,hr.eventsAt,hi.expiring,hx,hi.last_eq hr hx]
  rw [Finality.changesOf_powerChanges hx,hs,hc,Stake.changes]
  cases x.due c.indexedTip cur <;> cases x.unbonded <;> cases x.signed <;> simp

theorem changesOf_eq_nil {k : Hash} {l : List PowerChange} (h : ∀ p ∈ l, p.stakingTxHash ≠ k) :
    changesOf k l = [] := by
  simp only [changesOf,map_eq_nil_iff,filter_eq_nil_iff,decide_eq_true_eq]
  exact h

theorem LedgerInv.next_phase (hi : LedgerInv c hist) (hr : BeginRange c ctx last cur) (k : Hash) :
    Phase cur (c.stores.stk.stake k) [] (changesOf k (hist ++ powerChanges c.stores.stk
      ((c.stores.stk.indexBTCHeight ctx).getAllPowerDistUpdateEvents last cur))) := by
  have hph := hi.phases k
  rw [Finality.changesOf_append]
  cases hx : c.stores.stk.stake k with
  | none =>
    rw [hx] at hph
    have hn := stake_eq_none.mp hx
    rw [hph.pending_of_none.2,changesOf_eq_nil]
    · exact .absent
    · intro p hp he
      obtain ⟨d,hd⟩ := Finality.powerChanges_stored hp
      rw [he,hn] at hd
      simp at hd
  | some x =>
    rw [hx] at hph
    rw [hi.changes_next hr hx]
    exact hph.beginBlock (hi.indexed_le_cur hr)

theorem LedgerInv.event_stored (hi : LedgerInv c hist) {x : Nat} {ev : EventPowerDistUpdate}
    (hev : ev ∈ c.stores.stk.eventsAt x) {h : Hash} (ho : ev.ofDelegation = some h) :
    ∃ d, c.stores.stk.btcDelegations.get h = some d := by
  cases hd : c.stores.stk.btcDelegations.get h with
  | some d => exact ⟨d,rfl⟩
  | none =>
    have hnn := stake_eq_none.mpr hd
    cases hl : ev.live with
    | false =>
      have hc := hi.expiring h x
      rw [hnn,Stake.filedAt,countP_eq_zero] at hc
      refine absurd ?_ (hc ev hev)
      cases ev with
      | btcDelStateUpdate h' st =>
        cases st <;> simp_all [live,ofDelegation,
          EventPowerDistUpdate.expires]
      | _ => simp [ofDelegation] at ho
    | true =>
      have hm : ev ∈ (c.stores.stk.eventsAt x).filter (·.live) := mem_filter.mpr ⟨hev,hl⟩
      rw [hi.events.filed,mem_map] at hm
      obtain ⟨e,he,rfl⟩ := hm
      have hp := hi.phases h
      rw [hnn] at hp
      have hn := hp.pending_of_none.1
      rw [statuses,filterMap_eq_nil_iff] at hn
      have hs := hn e (mem_filter.mp he).1
      cases hev' : e.event with
      | btcDelStateUpdate h' st =>
        cases st <;> simp_all [live,ofDelegation,
          statusOf]
      | _ => simp [hev',ofDelegation] at ho

theorem LedgerInv.turn (hi : LedgerInv c hist) (hrg : Registry E.stk c.stores.stk)
    (hk : c.stores.stk.FpKeyed) (hr : BeginRange c ctx last cur) {new : List PowerChange}
    (new_eq : new = powerChanges c.stores.stk
      ((c.stores.stk.indexBTCHeight ctx).getAllPowerDistUpdateEvents last cur)) :
    ∃ dc ps, Finality.processAllPowerDistUpdateEvents (c.stores.stk.indexBTCHeight ctx)
        (c.stores.fin.lastVotingPowerDistCache c.ctx.header.height) last cur = .ok (dc,ps) ∧
      SameStakes ps (new.foldl (applyChange c.stores.stk) .new) ∧
      Finality.NamesRegistered (c.stores.stk.indexBTCHeight ctx) ps ∧
      Backed c.stores.stk (hist ++ new) dc := by
  have ha := indexBTCHeight_amends c.stores.stk ctx
  have hsta : ∀ k, (c.stores.stk.indexBTCHeight ctx).stake k = c.stores.stk.stake k := by
    intro k
    refine ha.toExtends.stake_eq hrg ?_
    rw [hr.indexed]
  have hn : new = powerChanges (c.stores.stk.indexBTCHeight ctx)
      ((c.stores.stk.indexBTCHeight ctx).getAllPowerDistUpdateEvents last cur) := by
    rw [new_eq,Finality.powerChanges_congr hsta]
  have hls : ∀ ev ∈ (c.stores.stk.indexBTCHeight ctx).getAllPowerDistUpdateEvents last cur,
      ∃ x, ev ∈ c.stores.stk.eventsAt x := by
    intro ev hev
    obtain ⟨x,_,hx⟩ := mem_flatMap.mp hev
    exact ⟨x,hr.eventsAt x ▸ hx⟩
  have hb : Backed (c.stores.stk.indexBTCHeight ctx) hist
      (c.stores.fin.lastVotingPowerDistCache c.ctx.header.height) := by
    refine hi.backed.extends ha.toExtends (fun p hp => hi.stored hp) ?_
    intro pk hpk
    rw [hr.indexed]
    exact hpk
  have hst : ∀ ev ∈ (c.stores.stk.indexBTCHeight ctx).getAllPowerDistUpdateEvents last cur, ∀ h,
      ev.ofDelegation = some h →
      ∃ d, (c.stores.stk.indexBTCHeight ctx).btcDelegations.get h = some d := by
    intro ev hev h ho
    obtain ⟨x,hx⟩ := hls ev hev
    rw [hr.indexed]
    exact hi.event_stored hx ho
  have hsl : ∀ pk, .slashedFp pk ∈
      (c.stores.stk.indexBTCHeight ctx).getAllPowerDistUpdateEvents last cur →
      (c.stores.stk.indexBTCHeight ctx).isSlashedFp pk := by
    intro pk hpk
    have hl : EventPowerDistUpdate.slashedFp pk ∈
        ((c.stores.stk.indexBTCHeight ctx).getAllPowerDistUpdateEvents last cur).filter (·.live) :=
      mem_filter.mpr ⟨hpk,rfl⟩
    rw [hr.consumed hi.events (fun _ => hi.tips),mem_map] at hl
    obtain ⟨e,he,heq⟩ := hl
    rw [hr.indexed]
    exact hi.slashed e he pk heq
  have hnn : ∀ pk, 0 ≤ staked (c.stores.stk.indexBTCHeight ctx) (hist ++ new) pk := by
    refine Finality.staked_nonneg ?_
    intro k
    rw [new_eq]
    exact (hi.next_phase hr k).once
  obtain ⟨dc,ps,hrn,hs,hnm,hbc⟩ := hb.processAll (hrg.amends ha)
    (by rw [hr.indexed]; exact hk) hst hsl hn hnn
  refine ⟨dc,ps,hrn,?_,hnm,?_⟩
  · rw [hr.indexed] at hs
    exact hs
  · rw [hr.indexed] at hbc
    exact ⟨hbc.nodup,hbc.unslashed,hbc.bonded,hbc.absent⟩

theorem BeginRange.nextChanges (hr : BeginRange c ctx last cur) {time : Nat} {appHash : Bytes}
    (ctx_eq : ctx = c.nextCtx time appHash)
    (hc : (c.stores.stk.indexBTCHeight ctx).getCurrentBTCHeight ctx = .ok cur)
    (hl : (c.stores.stk.indexBTCHeight ctx).getBTCHeightAtAnonHeight ctx c.ctx.header.height =
      .ok last) : c.nextChanges time appHash = powerChanges c.stores.stk
        ((c.stores.stk.indexBTCHeight ctx).getAllPowerDistUpdateEvents last cur) := by
  subst ctx_eq
  have he : c.nextEvents time appHash = .ok ((c.stores.stk.indexBTCHeight
      (c.nextCtx time appHash)).getAllPowerDistUpdateEvents last cur) := by
    simp only [Chain.nextEvents,ok_iff]
    exact ⟨cur,hc,last,hl,rfl⟩
  rw [Chain.nextChanges,he]

theorem LedgerInv.expiring_next (hi : LedgerInv c hist) (hr : BeginRange c ctx last cur) (k : Hash)
    (x : Nat) : (((State.heightRange last cur).foldl State.clearPowerDistUpdateEvents
      (c.stores.stk.indexBTCHeight ctx)).eventsAt x).countP (·.expires k) =
      Stake.filedAt cur (c.stores.stk.stake k) x := by
  have hle := hi.indexed_le_cur hr
  have hold := hi.expiring k x
  rw [BtcStaking.eventsAt_clear,hr.eventsAt]
  cases hx : c.stores.stk.stake k with
  | none =>
    rw [hx,Stake.filedAt] at hold
    split
    · rfl
    · exact hold
  | some y =>
    have hl := hi.last_eq hr hx
    simp only [hx,Stake.filedAt] at hold ⊢
    split
    case isTrue hm =>
      have hrn := mem_range'_1.mp hm
      rw [if_neg (by omega)]
      rfl
    case isFalse hm =>
      have hrn : ¬ (last ≤ x ∧ x < last+(cur+1-last)) := fun h => hm (mem_range'_1.mpr h)
      have hif : y.included = true ∧ y.expiry = x ∧ c.indexedTip < x ↔
          y.included = true ∧ y.expiry = x ∧ cur < x := by
        constructor <;> rintro ⟨hin,he,hlt⟩ <;> exact ⟨hin,he,by omega⟩
      simp only [hold,hif]

theorem beginBlock_indexedTip {stores : Stores} (hr : BeginRange c ctx last cur)
    (run : c.beginBlocker ctx = .ok stores) :
    Chain.indexedTip ⟨ctx,true,stores⟩ = cur := by
  obtain ⟨cur',last',_,_,_,_,_,hs,_,_⟩ := Finality.updatePowerDist_effect run
  have hg : stores.stk.btcHeights.get ctx.header.height = some cur := by
    rw [hs,(clear_frame _ _).2,hr.indexed]
    exact get_set_self _ _ _
  simp [Chain.indexedTip,hg]

theorem LedgerInv.beginBlock {stores : Stores} {time : Nat} {appHash : Bytes}
    (hi : LedgerInv c hist)
    (hrg : Registry E.stk c.stores.stk) (hk : c.stores.stk.FpKeyed) (hw : c.ctx.btclc.WF)
    (ctx_eq : ctx = c.nextCtx time appHash)
    (run : c.beginBlocker ctx = .ok stores) :
    LedgerInv ⟨ctx,true,stores⟩ (hist ++ c.nextChanges time appHash) := by
  have hpr : ctx.header.height-1 = c.ctx.header.height := by rw [ctx_eq]; rfl
  obtain ⟨hev,he,_⟩ := hi.events.beginBlock hw ctx_eq run (fun _ => hi.tips)
  obtain ⟨cur,last,dc,ps,hc,hl,hps,hs,_,hef⟩ := Finality.updatePowerDist_effect run
  have hr := beginRange_spec hw ctx_eq hc hl
  rw [hpr] at hl hps
  have hn := hr.nextChanges ctx_eq hc hl
  obtain ⟨dc',ps',hps',_,_,hb⟩ := hi.turn hrg hk hr hn
  have hdc : dc' = dc := by
    rw [hps',Except.ok.injEq,Prod.mk.injEq] at hps
    exact hps.1
  subst hdc
  obtain ⟨hd,hp,hf⟩ := beginBlock_frame run
  have ha : Amends c.stores.stk stores.stk := .of_eq hp hd (fun _ fp h => ⟨fp,by rw [hf]; exact h⟩)
  have hst : ∀ k, stores.stk.stake k = c.stores.stk.stake k := by
    intro k
    exact ha.toExtends.stake_eq hrg (by rw [hd])
  have hg : stores.stk.btcHeights.get ctx.header.height = some cur := by
    rw [hs,(clear_frame _ _).2,hr.indexed]
    exact get_set_self _ _ _
  have hin : Chain.indexedTip ⟨ctx,true,stores⟩ = cur := by simp [Chain.indexedTip,hg]
  refine ⟨hev,?_,?_,?_,?_,by simp [he],?_⟩
  · intro t ht
    obtain ⟨t₀,ht₀,hc₀⟩ := hr.tip
    have heq : t₀ = t := by
      simp only [ctx_eq] at ht
      exact Option.some.inj (ht₀.symm.trans ht)
    refine ⟨?_,by simp [he]⟩
    intro i hg'
    rw [hg,Option.some.injEq] at hg'
    rw [← hg',hc₀,heq]
  · intro hnn
    simp [hg] at hnn
  · intro k
    rw [hin,he,hst,hn]
    exact hi.next_phase hr k
  · intro k x
    rw [hin,hst,hs]
    exact hi.expiring_next hr k x
  · have hsr : ∀ p ∈ hist ++ c.nextChanges time appHash,
        ∃ d, c.stores.stk.btcDelegations.get p.stakingTxHash = some d := by
      intro p hp
      cases mem_append.mp hp with
      | inl hold => exact hi.stored hold
      | inr hm =>
        rw [hn] at hm
        exact Finality.powerChanges_stored hm
    have hsl : ∀ pk, c.stores.stk.isSlashedFp pk → stores.stk.isSlashedFp pk := by
      intro pk hpk
      rw [State.isSlashedFp,hf]
      exact hpk
    refine (hb.extends ha.toExtends hsr hsl).perm ?_
    exact (List.Perm.of_eq hef.bonds).trans (Finality.recordVotingPowerAndCache_bonds _ _ _)

end

variable {E : Env}

theorem deliver_moves {c c' : Chain} {a : Action} {t : BTCHeaderInfo}
    (hr : (chain E).Reachable c) (hs : SteadyBitcoin E c a c') (ho : deliver E c a = .ok c')
    (header : c'.ctx.header = c.ctx.header) (ht : c.ctx.btclc.getTip = some t) :
    (∃ new, Moves c.ctx c.stores.stk c'.stores.stk t.height new) ∧
      Extends c.stores.stk c'.stores.stk ∧ (c'.stores.stk = c.stores.stk ∨ c.inBlock = true) := by
  have hb := baseInv hr
  have hrg := registry hr
  cases deliver_stakingStep hb.blocks ho with
  | beginBlock _ ctx_eq =>
    have hh := congrArg (·.height) header
    simp only [ctx_eq] at hh
    omega
  | within _ _ busy effect =>
    refine ⟨?_,(effect.registry hrg).1,busy⟩
    rcases busy with he | hi
    · refine ⟨[],.nothing (by rw [he]) (by rw [he]) (by rw [he]),?_,by simp⟩
      intro k
      rw [he]
      exact .stay _
    · exact effect.moves hrg hb.providers (hb.positive hi) (btclc_wf hr) hs.aboveGenesis
        hs.noSelfSpend ht

theorem LedgerInv.deliver {c c' : Chain} {hist : List PowerChange} {a : Action}
    (hi : LedgerInv c hist)
    (hr : (chain E).Reachable c) (hs : SteadyBitcoin E c a c') (ho : deliver E c a = .ok c')
    (header : c'.ctx.header = c.ctx.header) : LedgerInv c' hist := by
  have hb := baseInv hr
  have hw := btclc_wf hr
  obtain ⟨t,ht,_,_⟩ := hw.getTip_spec
  have hef := deliver_effect ho
  have hbn := hef.bonds hb.blocks (finalitySigTimeout_pos hr) header
  have he := hi.events.step hw (deliver_stakingStep hb.blocks ho) (fun _ => hi.tips)
  obtain ⟨⟨new,hm⟩,hx,busy⟩ := deliver_moves hr hs ho header ht
  exact hi.within ht hm hx header busy he (fun t' ht' => hs.tips t t' ht ht')
    (fun pk hp => hef.slashed hb hp) hbn

theorem ledgerInv {l : Chain × List PowerChange} (h : (ledger E).Reachable l) :
    LedgerInv l.1 l.2 := by
  refine h.invariant (P := fun l => LedgerInv l.1 l.2) ?_ ?_
  · rintro ⟨c,hist⟩ ⟨hg,hn⟩
    rw [hn]
    exact ledgerInv_genesis hg
  · rintro ⟨c,hist⟩ a ⟨c',hist'⟩ hr hi ⟨⟨ho | ⟨hm,_,hs⟩,hst⟩,hh⟩
    · have hc := hr.of_recorded.of_restrict
      cases a with
      | beginBlock _ _ =>
        rw [hh]
        obtain ⟨_,ctx_eq,run⟩ := deliver_cases ho
        exact hi.beginBlock (registry hc) (baseInv hc).providers (btclc_wf hc) ctx_eq run
      | _ =>
        rw [hh]
        simp only [Chain.changesMade,append_nil]
        exact hi.deliver hc hst ho ((deliver_effect ho).header (by simp))
    · have hnn : c.changesMade a = [] := by cases a <;> simp [Action.isMsg] at hm <;> rfl
      rw [hs,hh,hnn,append_nil]
      exact hi

def Regtest.steadyBitcoin (c : Chain) (a : Action) (c' : Chain) : Bool :=
  a.shown.proofs.all (fun p => (c.ctx.btclc.getHeaderByHash p.headerHash).toOption.all
      (fun i => decide (0 < i.height))) &&
    a.shown.spending.all (fun tx => tx.txIn.all
      (fun i => decide (i.previousOutPoint.hash ≠ env.stk.btc.txHash tx))) &&
    c.ctx.btclc.getTip.all (fun t => c'.ctx.btclc.getTip.all
      (fun t' => decide (t.height ≤ t'.height)))

theorem Regtest.steadyBitcoin_spec (c : Chain) (a : Action) (c' : Chain)
    (h : steadyBitcoin c a c' = true) : SteadyBitcoin env c a c' := by
  simp only [steadyBitcoin,Bool.and_eq_true,Option.all_eq_true,all_eq_true,decide_eq_true_eq] at h
  obtain ⟨⟨hg,hs⟩,ht⟩ := h
  exact ⟨fun p hp i hi => hg p hp i (by rw [hi]; rfl),hs,fun t t' h h' => ht t h t' h'⟩

end AnonChain
