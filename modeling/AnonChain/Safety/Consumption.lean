import AnonChain.Lib.Agenda
import AnonChain.Regtest
import AnonChain.StakingSteps

/-! Events are filed under the Bitcoin tip and consumed by a range of heights at the next block. -/

namespace AnonChain

open Lib List KVStore
open BtcStaking (Ctx RecordedEvent Records EventPowerDistUpdate State)
open Finality (Stores Env)

def Chain.blockLog (c : Chain) : List RecordedEvent :=
  c.stores.stk.eventLog.filter (fun e => e.anonHeight = c.ctx.header.height ∧ e.event.live = true)

/-- The tip is not below the indexed tip of the block nor below a live event of the block. -/
def Chain.TipAbove (c : Chain) : Prop :=
  ∀ tip, c.ctx.btclc.getTip = some tip →
    (∀ i, c.stores.stk.btcHeights.get c.ctx.header.height = some i → i ≤ tip.height) ∧
    ∀ e ∈ c.blockLog, e.btcHeight ≤ tip.height

structure EventInv (c : Chain) : Prop where
  past : ∀ e ∈ c.stores.stk.eventLog, e.anonHeight ≤ c.ctx.header.height
  filed : ∀ x, (c.stores.stk.eventsAt x).filter (·.live) =
    (c.blockLog.filter (fun e => e.btcHeight = x)).map (·.event)
  sorted : c.blockLog.Pairwise (fun e f => e.btcHeight ≤ f.btcHeight)
  above : ∀ e ∈ c.blockLog, ∃ i, c.stores.stk.btcHeights.get c.ctx.header.height = some i ∧
    i ≤ e.btcHeight
  indexed : c.inBlock = true → ∃ i, c.stores.stk.btcHeights.get c.ctx.header.height = some i

section

variable {E : Env} {c c' : Chain} {new : List RecordedEvent} {ctx : Ctx} {last cur : Nat}

theorem eventInv_genesis (hg : Genesis E c) : EventInv c := by
  have hl : c.blockLog = [] := by simp [Chain.blockLog,hg.noLog]
  refine ⟨?_,?_,?_,?_,?_⟩
  · simp [hg.noLog]
  · simp [hl,State.eventsAt,hg.noEvents,KVStore.getD]
  · simp [hl]
  · simp [hl]
  · simp [hg.inBlock]

theorem blockLog_append (header : c'.ctx.header = c.ctx.header)
    (hr : Records c.ctx c.stores.stk c'.stores.stk new) :
    c'.blockLog = c.blockLog ++ new.filter (fun e => e.event.live) := by
  simp only [Chain.blockLog,hr.log,header,filter_append]
  congr 1
  refine filter_congr ?_
  intro e he
  simp [hr.block e he]

theorem newLive_spec (header : c'.ctx.header = c.ctx.header)
    (hr : Records c.ctx c.stores.stk c'.stores.stk new) (ht : c'.blockLog ≠ c.blockLog → c.TipAbove)
    {e : RecordedEvent} (he : e ∈ new.filter (fun e => e.event.live)) :
    ∃ tip, c.ctx.btclc.getTip = some tip ∧ e.btcHeight = tip.height ∧
      (∀ i, c.stores.stk.btcHeights.get c.ctx.header.height = some i → i ≤ e.btcHeight) ∧
      ∀ f ∈ c.blockLog, f.btcHeight ≤ e.btcHeight := by
  obtain ⟨hm,hl⟩ := mem_filter.mp he
  obtain ⟨tip,htp,hh⟩ := hr.tip e hm hl
  have hc : c'.blockLog ≠ c.blockLog := by
    rw [blockLog_append header hr]
    intro heq
    rw [append_right_eq_self] at heq
    rw [heq] at he
    simp at he
  obtain ⟨hi,hlg⟩ := ht hc tip htp
  rw [hh]
  exact ⟨tip,htp,rfl,hi,hlg⟩

theorem EventInv.within (hi : EventInv c) (header : c'.ctx.header = c.ctx.header)
    (still : c'.inBlock = true → c.inBlock = true)
    (busy : c'.stores.stk = c.stores.stk ∨ c.inBlock = true)
    (hr : Records c.ctx c.stores.stk c'.stores.stk new)
    (htp : c'.blockLog ≠ c.blockLog → c.TipAbove) : EventInv c' := by
  have hl := blockLog_append header hr
  have hh : c'.stores.stk.btcHeights.get c'.ctx.header.height =
      c.stores.stk.btcHeights.get c.ctx.header.height := by rw [hr.heights,header]
  refine ⟨?_,?_,?_,?_,?_⟩
  · intro e he
    rw [hr.log] at he
    rw [header]
    cases mem_append.mp he with
    | inl hold => exact hi.past e hold
    | inr hn => exact (hr.block e hn).le
  · intro x
    rw [hr.filed,filter_append,hi.filed,hl,filter_append,map_append,
      filter_map,filter_filter,filter_filter]
    congr 2
    refine filter_congr ?_
    simp [Bool.and_comm]
  · rw [hl,pairwise_append]
    refine ⟨hi.sorted,pairwise_of_forall_mem_list ?_,?_⟩
    · intro e he f hf
      obtain ⟨t,ht,heq,_⟩ := newLive_spec header hr htp he
      obtain ⟨t',ht',heq',_⟩ := newLive_spec header hr htp hf
      rw [ht,Option.some.injEq] at ht'
      rw [heq,heq',ht']
    · intro e he f hf
      obtain ⟨_,_,_,_,hle⟩ := newLive_spec header hr htp hf
      exact hle e he
  · intro e he
    rw [hh]
    rw [hl] at he
    cases mem_append.mp he with
    | inl hold => exact hi.above e hold
    | inr hn =>
      obtain ⟨_,_,_,hle,_⟩ := newLive_spec header hr htp hn
      have hin : c.inBlock = true := by
        rcases busy with heq | hin
        · have hnl : new = [] := by
            have hs := hr.log
            rw [heq] at hs
            exact self_eq_append_right.mp hs
          rw [hnl] at hn
          simp at hn
        · exact hin
      obtain ⟨i,hg⟩ := hi.indexed hin
      exact ⟨i,hg,hle i hg⟩
  · intro hin
    rw [hh]
    exact hi.indexed (still hin)

structure BeginRange (c : Chain) (ctx : Ctx) (last cur : Nat) : Prop where
  header : ctx.header.height = c.ctx.header.height+1
  tip : ∃ t, c.ctx.btclc.getTip = some t ∧ cur = t.height
  last : ∀ i, c.stores.stk.btcHeights.get c.ctx.header.height = some i → last = i
  indexed : c.stores.stk.indexBTCHeight ctx =
    { c.stores.stk with btcHeights := c.stores.stk.btcHeights.set ctx.header.height cur }

theorem beginRange_spec (hw : c.ctx.btclc.WF) {time : Nat} {appHash : Bytes}
    (ctx_eq : ctx = c.nextCtx time appHash)
    (hc : (c.stores.stk.indexBTCHeight ctx).getCurrentBTCHeight ctx = .ok cur)
    (hl : (c.stores.stk.indexBTCHeight ctx).getBTCHeightAtAnonHeight ctx (ctx.header.height-1) =
      .ok last) : BeginRange c ctx last cur := by
  obtain ⟨t,ht,_,_⟩ := hw.getTip_spec
  have hh : ctx.header.height = c.ctx.header.height+1 := by rw [ctx_eq]
  have hb : ctx.btclc = c.ctx.btclc := by rw [ctx_eq]
  have hin := BtcStaking.indexBTCHeight_eq (s := c.stores.stk) (hb ▸ ht)
  rw [hin] at hc hl
  have hc' : cur = t.height := by
    simp only [State.getCurrentBTCHeight,State.getBTCHeightAtAnonHeight,
      get_set_self,Except.ok.injEq] at hc
    exact hc.symm
  refine ⟨hh,⟨t,ht,hc'⟩,?_,by rw [hin,hc']⟩
  intro i hi
  have hn : ctx.header.height-1 ≠ ctx.header.height := by omega
  have hp : ctx.header.height-1 = c.ctx.header.height := by omega
  simp only [State.getBTCHeightAtAnonHeight,get_set_ne _ _ hn] at hl
  rw [hp,hi,Except.ok.injEq] at hl
  exact hl.symm

theorem BeginRange.covers (hr : BeginRange c ctx last cur) (hi : EventInv c)
    (htp : c.blockLog ≠ [] → c.TipAbove) {e : RecordedEvent} (he : e ∈ c.blockLog) :
    last ≤ e.btcHeight ∧ e.btcHeight ≤ cur := by
  obtain ⟨i,hg,hl⟩ := hi.above e he
  obtain ⟨t,ht,rfl⟩ := hr.tip
  rw [hr.last i hg]
  exact ⟨hl,(htp (ne_nil_of_mem he) t ht).2 e he⟩

theorem BeginRange.consumed (hr : BeginRange c ctx last cur)
    (hi : EventInv c) (ht : c.blockLog ≠ [] → c.TipAbove) :
    ((c.stores.stk.indexBTCHeight ctx).getAllPowerDistUpdateEvents last cur).filter (·.live) =
      c.blockLog.map (·.event) := by
  have hrd : (State.heightRange last cur).flatMap (fun x =>
      c.blockLog.filter (fun e => e.btcHeight = x)) = c.blockLog := by
    refine flatMap_range_filter hi.sorted ?_ ?_
    · intro e he
      exact (hr.covers hi ht he).1
    · intro e he
      have := hr.covers hi ht he
      omega
  conv_rhs => rw [← hrd]
  rw [State.getAllPowerDistUpdateEvents,hr.indexed,filter_flatMap,map_flatMap]
  exact flatMap_congr (fun x _ => hi.filed x)

theorem BeginRange.cleared (hr : BeginRange c ctx last cur)
    (hi : EventInv c) (ht : c.blockLog ≠ [] → c.TipAbove) (x : Nat) :
    (((State.heightRange last cur).foldl State.clearPowerDistUpdateEvents
      (c.stores.stk.indexBTCHeight ctx)).eventsAt x).filter (·.live) = [] := by
  rw [BtcStaking.eventsAt_clear,hr.indexed]
  split
  case isTrue => rfl
  case isFalse hx =>
    refine (hi.filed x).trans ?_
    rw [map_eq_nil_iff,filter_eq_nil_iff]
    intro e he heq
    have hc := hr.covers hi ht he
    simp only [decide_eq_true_eq] at heq
    refine hx (mem_range'_1.mpr ?_)
    omega

theorem EventInv.blockLog_beginBlock {stores : Stores} (hi : EventInv c)
    (hr : BeginRange c ctx last cur)
    (hl : stores.stk.eventLog = c.stores.stk.eventLog) : Chain.blockLog ⟨ctx,true,stores⟩ = [] := by
  have hh := hr.header
  simp only [Chain.blockLog,hl,filter_eq_nil_iff]
  intro e he
  have hp := hi.past e he
  simp only [Bool.decide_and,Bool.decide_eq_true,Bool.and_eq_true,decide_eq_true_eq,not_and]
  omega

theorem EventInv.beginBlock {stores : Stores} {time : Nat} {appHash : Bytes}
    (hi : EventInv c) (hw : c.ctx.btclc.WF)
    (ctx_eq : ctx = c.nextCtx time appHash)
    (run : c.beginBlocker ctx = .ok stores)
    (ht : Chain.blockLog ⟨ctx,true,stores⟩ ≠ c.blockLog → c.TipAbove) :
    EventInv ⟨ctx,true,stores⟩ ∧ Chain.blockLog ⟨ctx,true,stores⟩ = [] ∧
    ∃ last cur, (c.stores.stk.indexBTCHeight ctx).getCurrentBTCHeight ctx = .ok cur ∧
      (c.stores.stk.indexBTCHeight ctx).getBTCHeightAtAnonHeight ctx c.ctx.header.height =
        .ok last ∧
      ((c.stores.stk.indexBTCHeight ctx).getAllPowerDistUpdateEvents last cur).filter (·.live) =
        c.blockLog.map (·.event) ∧
      ∀ x, (stores.stk.eventsAt x).filter (·.live) = [] := by
  obtain ⟨cur,last,_,_,hcr,hl,_,hs,_,_⟩ := Finality.updatePowerDist_effect run
  have hr := beginRange_spec hw ctx_eq hcr hl
  obtain ⟨hlg,hh⟩ := BtcStaking.clear_frame (c.stores.stk.indexBTCHeight ctx)
    (State.heightRange last cur)
  rw [← hs] at hlg hh
  rw [hr.indexed] at hlg hh
  have hem := hi.blockLog_beginBlock hr hlg
  have ht' : c.blockLog ≠ [] → c.TipAbove := by
    intro hn
    refine ht ?_
    rw [hem]
    exact hn.symm
  have hc : ∀ x, (stores.stk.eventsAt x).filter (·.live) = [] := by
    intro x
    rw [hs]
    exact hr.cleared hi ht' x
  have hp : ctx.header.height-1 = c.ctx.header.height := by
    have := hr.header
    omega
  rw [hp] at hl
  refine ⟨⟨?_,?_,by simp [hem],by simp [hem],?_⟩,hem,last,cur,hcr,hl,hr.consumed hi ht',hc⟩
  · intro e he
    simp only [hlg] at he
    have hps := hi.past e he
    simp only
    omega
  · intro x
    rw [hem]
    exact hc x
  · intro _
    exact ⟨cur,by rw [hh]; exact get_set_self _ _ _⟩

theorem EventInv.step {a : Action} (hi : EventInv c) (hw : c.ctx.btclc.WF)
    (h : StakingStep E c a c') (ht : c'.blockLog ≠ c.blockLog → c.TipAbove) : EventInv c' := by
  cases h with
  | beginBlock _ ctx_eq run => exact (hi.beginBlock hw ctx_eq run ht).1
  | within header still busy effect =>
    obtain ⟨new,hr⟩ := effect.records
    exact hi.within header still busy hr ht

end

def Chain.nextEvents (c : Chain) (time : Nat) (appHash : Bytes) :
    Result (List EventPowerDistUpdate) := do
  let ctx := c.nextCtx time appHash
  let stk := c.stores.stk.indexBTCHeight ctx
  let btcTipHeight ← stk.getCurrentBTCHeight ctx
  let lastBTCTipHeight ← stk.getBTCHeightAtAnonHeight ctx c.ctx.header.height
  pure (stk.getAllPowerDistUpdateEvents lastBTCTipHeight btcTipHeight)

def Regtest.firstBlock : List Action := [beginBlock 1] ++ join 1 10 ++ [.endBlock]

end AnonChain
