import AnonChain.Safety.Ledger

/-! The power of a provider against the status of its delegations. -/

namespace AnonChain

open Lib List Option
open KVStore (get_set_ne get_set_self)
open BtcStaking (BTCDelegation BTCDelegationStatus Ctx FpSteps Registry Extends Amends Stake Phase
  Timely State)
open Finality (Stores PowerChange changesOf staked net weight Env sign)

namespace BtcStaking

def SameSigs (s s' : State) (k : Hash) : Prop :=
  ∀ d d', s.btcDelegations.get k = some d → s'.btcDelegations.get k = some d' →
    ∀ q q', d'.hasCovenantQuorums q q' = d.hasCovenantQuorums q q'

section

variable {E : Env} {ctx : Ctx} {s s' : State} {k : Hash}

theorem SameSigs.of_get (h : s'.btcDelegations.get k = s.btcDelegations.get k) :
    SameSigs s s' k := by
  intro d d' hd hd' q q'
  rw [h,hd,some.injEq] at hd'
  rw [hd']

theorem SameSigs.of_set {k₀ : Hash} {d₀ d₀' : BTCDelegation}
    (hs : s'.btcDelegations = s.btcDelegations.set k₀ d₀') (h₀ : s.btcDelegations.get k₀ = some d₀)
    (hsg : ∀ q q', d₀'.hasCovenantQuorums q q' = d₀.hasCovenantQuorums q q') : SameSigs s s' k := by
  by_cases hk : k = k₀
  · subst hk
    intro d d' hd hd' q q'
    rw [hs,get_set_self,some.injEq] at hd'
    rw [h₀,some.injEq] at hd
    rw [← hd',← hd]
    exact hsg q q'
  · exact .of_get (by rw [hs,get_set_ne _ _ hk])

theorem sameSigs_create {d : BTCDelegation} (hn : NewDelegation E ctx s d) :
    SameSigs s (s.addBTCDelegation E ctx d) k := by
  obtain ⟨hd,_,_⟩ := addBTCDelegation_frame E s ctx d
  by_cases hk : k = E.btc.txHash d.stakingTx
  · intro d₀ d' hd₀
    rw [hk,hn.fresh] at hd₀
    simp at hd₀
  · exact .of_get (by rw [hd,get_set_ne _ _ hk])

theorem sameSigs_withInclusion {k₀ : Hash} {d : BTCDelegation} (params : Params)
    (info : DelegationTimeRangeInfo) (hr : Registry E s)
    (stored : s.btcDelegations.get k₀ = some d) :
    SameSigs s (s.withInclusion E ctx d params info) k :=
  .of_set (withInclusion_delegations ctx params info hr stored) stored (fun _ _ => rfl)

theorem sameSigs_btcUndelegate {msg : MsgBTCUndelegate} (hr : Registry E s)
    (h : btcUndelegate E s ctx msg = .ok s') : SameSigs s s' k := by
  obtain ⟨info,tip,s₁,idx,u,hin,ht,hn,hn',hs₁,_,hrn⟩ := btcUndelegate_spec h
  have ho : Open ctx s msg.stakingTxHash info tip := ⟨hin,ht,hn,hn'⟩
  have hky : E.btc.txHash info.delegation.stakingTx = msg.stakingTxHash :=
    (hr.delegations _ _ ho.stored).keyed
  have hst := (btcUndelegate_delegations hrn).1
  rw [hky] at hst
  rcases hs₁ with rfl | ⟨exp,he,_,hi⟩
  · exact .of_set hst ho.stored (fun _ _ => rfl)
  · obtain ⟨params,tinfo,_,rfl⟩ := canInclude_spec hi
    by_cases hk : k = msg.stakingTxHash
    · intro d d' hd hd' q q'
      rw [hst,hk,get_set_self,some.injEq] at hd'
      rw [hk,ho.stored,some.injEq] at hd
      rw [← hd',← hd]
      rfl
    · have hsm : SameSigs s (s.withInclusion E ctx _ params tinfo) k :=
        sameSigs_withInclusion params tinfo hr he
      intro d d' hd hd'
      rw [hst,get_set_ne _ _ hk] at hd'
      exact hsm d d' hd hd'

theorem SameSigs.signed (h : SameSigs s s' k) (hr : Registry E s) (hx : Extends s s') {x x' : Stake}
    (hs : s.stake k = some x) (hs' : s'.stake k = some x') : x'.signed = x.signed := by
  simp only [State.stake,map_eq_some_iff] at hs hs'
  obtain ⟨d,hd,rfl⟩ := hs
  obtain ⟨d',hd',rfl⟩ := hs'
  obtain ⟨info,hi⟩ := (hr.delegations k d hd).resolved
  rw [hx.quorums hi]
  exact h d d' hd hd' _ _

end

def State.statusAt (s : State) (stakingTxHash : Hash) (btcHeight : Nat) :
    Option BTCDelegationStatus :=
  match s.getBTCDelWithParams stakingTxHash with
  | .ok info => some (info.statusAt btcHeight)
  | .error _ => none

theorem getStatus_active_iff {d : BTCDelegation} {h : Nat} {q : Nat × Nat} :
    d.getStatus h q.1 q.2 = .ACTIVE ↔ (d.stake q).activeAt h = true := by
  rw [Stake.activeAt,decide_eq_true_eq]
  simp only [BTCDelegation.getStatus,BTCDelegation.stake]
  cases d.isUnbondedEarly <;> cases d.hasCovenantQuorums q.1 q.2 <;>
    cases d.hasInclusionProof <;> simp
  split
  · simp only [reduceCtorEq,false_iff,not_and,not_lt]
    omega
  · split
    · simp only [reduceCtorEq,false_iff,not_and,not_lt]
      omega
    · simp only [true_iff]
      omega

theorem Registry.statusAt_active {E : Env} {s : State} (hr : Registry E s) {k : Hash}
    {d : BTCDelegation} (hd : s.btcDelegations.get k = some d) (h : Nat) :
    s.statusAt k h = some .ACTIVE ↔ (d.stake (s.quorums k)).activeAt h = true := by
  obtain ⟨info,hi⟩ := (hr.delegations k d hd).resolved
  obtain ⟨hg,_⟩ := getBTCDelWithParamsAux_spec hi
  rw [hd,some.injEq] at hg
  rw [← getStatus_active_iff,quorums_eq hi,hg]
  simp only [State.statusAt,hi,some.injEq]
  rfl

end BtcStaking

section

variable {E : Env} {c c' : Chain}

theorem handleStk_sameSigs {ctx : Ctx} {s s' : State} {msg : StkMsg} {k : Hash}
    (hr : Registry E.stk s) (h : handleStk E s ctx msg = .ok s')
    (hk : ∀ m, msg = .addCovenantSigs m → m.stakingTxHash ≠ k) : BtcStaking.SameSigs s s' k := by
  cases msg with
  | createFinalityProvider m =>
    exact .of_get (by rw [FpSteps.delegations (BtcStaking.createFinalityProvider_step h).steps])
  | editFinalityProvider m =>
    exact .of_get (by rw [FpSteps.delegations (BtcStaking.editFinalityProvider_step h).steps])
  | selectiveSlashingEvidence m =>
    exact .of_get (by rw [FpSteps.delegations (BtcStaking.selectiveSlashingEvidence_step h).steps])
  | createBTCDelegation m =>
    obtain ⟨d,hn,rfl⟩ := BtcStaking.createBTCDelegation_spec h
    exact BtcStaking.sameSigs_create hn
  | btcStakeExpand m =>
    obtain ⟨d,hn,rfl⟩ := BtcStaking.btcStakeExpand_spec h
    exact BtcStaking.sameSigs_create hn
  | addBTCDelegationInclusionProof m =>
    obtain ⟨d,hd,_,h⟩ := BtcStaking.addBTCDelegationInclusionProof_spec h
    obtain ⟨params,info,_,rfl⟩ := BtcStaking.canInclude_spec h
    exact BtcStaking.sameSigs_withInclusion params info hr hd
  | addCovenantSigs m =>
    obtain ⟨info,tip,sl,us,hi,ht,hne,hne',he⟩ := BtcStaking.addCovenantSigs_spec h
    have ho : BtcStaking.Open ctx s m.stakingTxHash info tip := ⟨hi,ht,hne,hne'⟩
    have hs := (BtcStaking.addCovenantSigs_delegations hr ho.stored he).1
    exact .of_get (by rw [hs,get_set_ne _ _ (Ne.symm (hk m rfl))])
  | btcUndelegate m => exact BtcStaking.sameSigs_btcUndelegate hr h
  | updateParams m =>
    simp only [handleStk,BtcStaking.updateParams,State.setParams,ok_iff] at h
    obtain ⟨_,_,_,_,_,_,_,_,rfl⟩ := h
    exact .of_get rfl

/-- The covenant signs an included delegation only before its expiry is indexed. -/
def SignedInTime (E : Env) (c : Chain) (a : Action) (c' : Chain) : Prop :=
  ∀ m x, a = .stk (.addCovenantSigs m) → deliver E c a = .ok c' →
    c.stores.stk.stake m.stakingTxHash = some x → x.included = true → x.signed = false →
    c.indexedTip < x.expiry

theorem deliver_signedInTime {a : Action} (hr : (chain E).Reachable c) (ho : deliver E c a = .ok c')
    (hsg : SignedInTime E c a c') (k : Hash) :
    Stake.SignedInTime c.indexedTip (c.stores.stk.stake k) (c'.stores.stk.stake k) := by
  have hrg := registry hr
  have hx := ((deliver_stakingStep (baseInv hr).blocks ho).registry hrg).1
  intro x x' hst hst' hi hu hs
  by_cases hms : ∃ m, a = .stk (.addCovenantSigs m) ∧ m.stakingTxHash = k
  · obtain ⟨m,ha,rfl⟩ := hms
    exact hsg m x ha ho hst hi hu
  · have hss : BtcStaking.SameSigs c.stores.stk c'.stores.stk k := by
      cases a with
      | stk _ =>
        obtain ⟨stk,run,rfl⟩ := deliver_stk ho
        refine handleStk_sameSigs hrg run ?_
        intro m hm he
        exact hms ⟨m,by rw [hm],he⟩
      | _ => exact .of_get (by rw [(deliver_frame (baseInv hr).blocks ho (by simp)).1])
    have hsm := hss.signed hrg hx hst hst'
    rw [hu,hs] at hsm
    simp at hsm

end

/-- The runs in question: the tip does not fall, and the covenant signs in time. -/
def ActiveRun (E : Env) (c : Chain) (a : Action) (c' : Chain) : Prop :=
  SteadyBitcoin E c a c' ∧ SignedInTime E c a c'

def activeLedger (E : Env) : System (Chain × List PowerChange) Action :=
  ((chain E).restrict (ActiveRun E)).recorded Chain.changesMade

def TimelyInv (c : Chain) (hist : List PowerChange) : Prop :=
  ∀ t, c.ctx.btclc.getTip = some t →
    ∀ k, Timely c.indexedTip t.height (c.stores.stk.stake k) (changesOf k hist)

section

variable {E : Env} {c c' : Chain} {hist : List PowerChange} {l : Chain × List PowerChange}

theorem activeLedger_reachable (h : (activeLedger E).Reachable l) :
    (ledger E).Reachable l := by
  refine System.Reachable.mono (S := activeLedger E) (T := ledger E) (fun _ hi => hi) ?_ h
  rintro l a l' ⟨⟨hs,hr⟩,hh⟩
  exact ⟨⟨hs,hr.1⟩,hh⟩

theorem TimelyInv.deliver {a : Action} (hi : TimelyInv c hist) (hl : LedgerInv c hist)
    (hr : (chain E).Reachable c) (hrn : ActiveRun E c a c') (ho : deliver E c a = .ok c')
    (header : c'.ctx.header = c.ctx.header) : TimelyInv c' hist := by
  obtain ⟨t,ht,_,_⟩ := (btclc_wf hr).getTip_spec
  obtain ⟨⟨new,hm⟩,_,_⟩ := deliver_moves hr hrn.1 ho header ht
  have hin : c'.indexedTip = c.indexedTip := by
    rw [Chain.indexedTip,hm.records.heights,header,Chain.indexedTip]
  intro t' ht' k
  rw [hin]
  have htm := (hi t ht k).move (hm.move k) (hl.indexed_le ht) (deliver_signedInTime hr ho hrn.2 k)
  exact htm.rise (hrn.1.tips t t' ht ht')

theorem TimelyInv.beginBlock {ctx : Ctx} {stores : Stores} {time : Nat} {appHash : Bytes}
    (hi : TimelyInv c hist) (hl : LedgerInv c hist) (hrc : (chain E).Reachable c)
    (ctx_eq : ctx = c.nextCtx time appHash)
    (run : c.beginBlocker ctx = .ok stores) :
    TimelyInv ⟨ctx,true,stores⟩ (hist ++ c.nextChanges time appHash) := by
  have hrg := registry hrc
  obtain ⟨last,cur,hc,hls,hr⟩ := exists_beginRange (btclc_wf hrc) ctx_eq
  have hn := hr.nextChanges ctx_eq hc hls
  obtain ⟨hd,hp,hf⟩ := beginBlock_frame run
  have ha : Amends c.stores.stk stores.stk := .of_eq hp hd (fun _ fp h => ⟨fp,by rw [hf]; exact h⟩)
  have hin := beginBlock_indexedTip hr run
  intro t ht k
  have ht₀ : c.ctx.btclc.getTip = some t := by
    simp only [ctx_eq] at ht
    exact ht
  have hs : stores.stk.stake k = c.stores.stk.stake k := ha.toExtends.stake_eq hrg (by rw [hd])
  have htm := hi t ht₀ k
  have hph := hl.phases k
  simp only [hin,hs,hn,Finality.changesOf_append]
  cases hx : c.stores.stk.stake k with
  | none => exact fun x hx' => by simp at hx'
  | some x =>
    rw [hx] at htm hph
    rw [hl.changes_next hr hx]
    exact htm.beginBlock hph

theorem timelyInv (h : (activeLedger E).Reachable l) : TimelyInv l.1 l.2 := by
  refine h.invariant (P := fun l => TimelyInv l.1 l.2) ?_ ?_
  · rintro ⟨c,hist⟩ ⟨(hg : Genesis E c),_⟩ t _ k x hx
    rw [BtcStaking.stake_eq_none.mpr (by simp [hg.noDelegations])] at hx
    simp at hx
  · rintro ⟨c,hist⟩ a ⟨c',hist'⟩ hr hi ⟨⟨ho | ⟨hm,_,hsm⟩,hrn⟩,hh⟩
    · have hl := ledgerInv (activeLedger_reachable hr)
      have hc := hr.of_recorded.of_restrict
      cases a with
      | beginBlock _ _ =>
        rw [hh]
        obtain ⟨_,ctx_eq,run⟩ := deliver_cases ho
        exact hi.beginBlock hl hc ctx_eq run
      | _ =>
        rw [hh]
        simp only [Chain.changesMade,append_nil]
        exact hi.deliver hl hc hrn ho ((deliver_effect ho).header (by simp))
    · have hn : c.changesMade a = [] := by cases a <;> simp [Action.isMsg] at hm <;> rfl
      rw [hsm,hh,hn,append_nil]
      exact hi

end

/-- The stake of a provider in the distribution cache of the block, zero when it is absent. -/
def Chain.bondedSat (c : Chain) (pk : BIP340PubKey) : Nat :=
  (((c.stores.fin.lastVotingPowerDistCache c.ctx.header.height).finalityProviders.find?
    (fun fp => fp.btcPk = pk)).map (·.totalBondedSat)).getD 0

/-- The satoshis of the delegations that list a provider and are active at the indexed tip. -/
def Chain.activeSat (c : Chain) (pk : BIP340PubKey) : Nat :=
  KVStore.sumBy (fun k d => if pk ∈ d.fpBtcPkList ∧
    c.stores.stk.statusAt k c.indexedTip = some .ACTIVE
    then d.totalSat else 0) c.stores.stk.btcDelegations

section

variable {E : Env} {c c' : Chain} {hist : List PowerChange} {pk : BIP340PubKey}

theorem Finality.Backed.bondedSat (hb : Finality.Backed c.stores.stk hist
    (c.stores.fin.lastVotingPowerDistCache c.ctx.header.height))
      (hc : ¬ c.stores.stk.isSlashedFp pk) :
    (c.bondedSat pk : Int) = staked c.stores.stk hist pk := by
  unfold Chain.bondedSat
  cases hf : (c.stores.fin.lastVotingPowerDistCache c.ctx.header.height).finalityProviders.find?
      (fun fp => fp.btcPk = pk) with
  | some fp =>
    have hp : fp.btcPk = pk := by simpa using find?_some hf
    simpa [hp] using hb.bonded fp (mem_of_find?_eq_some hf)
  | none =>
    have hm : pk ∉ (c.stores.fin.lastVotingPowerDistCache c.ctx.header.height).finalityProviders.map
        (·.btcPk) := by
      simpa using hf
    simpa using ((hb.absent pk hm).resolve_left hc).symm

theorem net_eq_active {x : Stake} {cur : Nat} {changes : List BtcStaking.StakeChange}
    (hp : Phase cur (some x) [] changes) (ht : Timely cur cur (some x) changes) :
    net changes = if x.activeAt cur then 1 else 0 := by
  have hi := hp.active_iff ht
  cases hp with
  | waiting => simpa [net] using fun h => (hi.mpr h)
  | active => simp [net,sign,hi.mp rfl]
  | left => simpa [net,sign] using fun h => (hi.mpr h)

theorem staked_eq_activeSat (hr : Registry E.stk c.stores.stk) (hl : LedgerInv c hist)
    (ht : ∀ k, Timely c.indexedTip c.indexedTip (c.stores.stk.stake k) (changesOf k hist))
    (hlg : c.blockLog = []) (pk : BIP340PubKey) :
    staked c.stores.stk hist pk = (c.activeSat pk : Int) := by
  have htr : ∀ k d, c.stores.stk.btcDelegations.get k = some d →
      net (changesOf k hist)*weight pk d = ((if pk ∈ d.fpBtcPkList ∧
        c.stores.stk.statusAt k c.indexedTip = some .ACTIVE then d.totalSat else 0 :
          Nat) : Int) := by
    intro k d hd
    obtain ⟨pk₀,_,hls,_⟩ := (hr.delegations k d hd).provider
    have hls' : d.fpBtcPkList = [pk₀] := hls
    have hp := hl.phases k
    have htm := ht k
    rw [BtcStaking.stake_of_get hd] at hp htm
    rw [hlg] at hp
    rw [net_eq_active hp htm,weight]
    simp only [hr.statusAt_active hd,hls']
    by_cases hpk : pk = pk₀
    · cases (d.stake (c.stores.stk.quorums k)).activeAt c.indexedTip <;> simp [hpk]
    · cases (d.stake (c.stores.stk.quorums k)).activeAt c.indexedTip <;> simp [hpk,Ne.symm hpk]
  rw [Finality.staked_eq_sumBy,KVStore.sumBy_congr htr,Chain.activeSat,KVStore.sumBy_natCast]

end

/-- Where the Bitcoin tip does not fall and the covenant signs in time, every block that begins
gives each provider that is not slashed the stake of its active delegations. -/
theorem bonded_eq_active_of_signedInTime {E : Finality.Env} {c c' : Chain} {time : Nat}
    {appHash : Bytes}
    (h : ((chain E).restrict (ActiveRun E)).Reachable c)
    (hstep : ((chain E).restrict (ActiveRun E)).step c (.beginBlock time appHash) c')
    (pk : BIP340PubKey) (hclean : ¬ c'.stores.stk.isSlashedFp pk) :
    c'.bondedSat pk = c'.activeSat pk := by
  have hrc := h.of_restrict
  have hrc' := (h.step hstep).of_restrict
  obtain ⟨hist,hh⟩ := h.recorded Chain.changesMade
  obtain ⟨hist',hh'⟩ := (h.step hstep).recorded Chain.changesMade
  have hl := ledgerInv (activeLedger_reachable hh)
  have hl' := ledgerInv (activeLedger_reachable hh')
  obtain ⟨t,ht,_,_⟩ := (btclc_wf hrc').getTip_spec
  have htm := timelyInv hh' t ht
  obtain ⟨ho | ⟨hm,_⟩,_⟩ := hstep
  · obtain ⟨_,rfl,run⟩ := deliver_cases ho
    obtain ⟨last,cur,_,_,hr⟩ := exists_beginRange (btclc_wf hrc) rfl
    obtain ⟨t',ht',hc⟩ := hr.tip
    have hi := beginBlock_indexedTip hr run
    have ha : t.height = cur := by rw [hc,some.inj (ht.symm.trans ht')]
    rw [ha,← hi] at htm
    have hlg := (hl.events.beginBlock (btclc_wf hrc) rfl run (fun _ => hl.tips)).2.1
    have hs := staked_eq_activeSat (registry hrc') hl' htm hlg pk
    exact Int.natCast_inj.mp ((hl'.backed.bondedSat hclean).trans hs)
  · simp [Action.isMsg] at hm

/-- A delegation to provider 1 for eight Bitcoin blocks from height 100; it expires at 103. -/
def Regtest.shortDelegation : Action :=
  .stk (.createBTCDelegation { createMsg 1 (stakingTx 10 5 []) 10
    (some (inclusionProof (stakingTx 10 5 []) 100)) with stakingTime := 8 })

/-- The covenant signs only after a block has indexed the expiry of the delegation. -/
def Regtest.lateSignature : List Action :=
  [beginBlock 1,register 1,shortDelegation,
    .insertHeaders ⟨some [],[btcHeader 101 102 1,btcHeader 102 103 1]⟩,.endBlock,
    beginBlock 2,sign (stakingTx 10 5 []) none,.endBlock]

open Regtest in
/-- The stake of an expired delegation is added, and nothing will remove it. -/
theorem expired_stake_counted : ∃ c c', ((chain env).restrict (SteadyBitcoin env)).Reachable c ∧
    ((chain env).restrict (SteadyBitcoin env)).step c (Regtest.beginBlock 3) c' ∧
    ¬ c'.stores.stk.isSlashedFp (bytes 1) ∧ c'.bondedSat (bytes 1) = 10 ∧
      c'.activeSat (bytes 1) = 0 ∧
    c'.stores.stk.statusAt (txHash (stakingTx 10 5 [])) c'.indexedTip = some .EXPIRED := by
  have hrn : holds (lateSignature.foldlM (deliverChecked env steadyBitcoin) (genesis 1)) (fun c =>
      holds (deliver env c (Regtest.beginBlock 3)) (fun c' => steadyBitcoin c
        (Regtest.beginBlock 3) c' &&
        (c'.stores.stk.finalityProviders.get (bytes 1)).all (fun fp => !fp.isSlashed) &&
        c'.bondedSat (bytes 1) == 10 && c'.activeSat (bytes 1) == 0 &&
        c'.stores.stk.statusAt (txHash (stakingTx 10 5 [])) c'.indexedTip ==
          some .EXPIRED)) = true := by
    decide +kernel
  obtain ⟨c,hr,ht⟩ := reachable_deliverChecked steadyBitcoin_spec (.init genesis_init) hrn
  simp only [Bool.and_eq_true,holds_iff,beq_iff_eq,Option.all_eq_true,Bool.not_eq_true'] at ht
  obtain ⟨c',hc',⟨⟨⟨hs,hcl⟩,hb⟩,ha⟩,hst⟩ := ht
  refine ⟨c,c',hr,⟨.inl hc',steadyBitcoin_spec c _ c' hs⟩,?_,hb,ha,hst⟩
  rintro ⟨fp,hf,hsl⟩
  simp [hcl fp hf] at hsl

def Regtest.activeRun (c : Chain) (a : Action) (c' : Chain) : Bool :=
  steadyBitcoin c a c' &&
    match a with
    | .stk (.addCovenantSigs m) => (c.stores.stk.stake m.stakingTxHash).all (fun x =>
      !x.included || x.signed || decide (c.indexedTip < x.expiry))
    | _ => true

theorem Regtest.activeRun_spec (c : Chain) (a : Action) (c' : Chain) (h : activeRun c a c' = true) :
    ActiveRun env c a c' := by
  simp only [activeRun,Bool.and_eq_true] at h
  refine ⟨steadyBitcoin_spec c a c' h.1,?_⟩
  rintro m x rfl _ hx hi hu
  simpa [hx,hi,hu] using h.2

open Regtest in
/-- A stake that is signed in time is counted when the second block begins. -/
theorem bonded_eq_active_of_signedInTime_firstBlock : ∃ c c',
    ((chain env).restrict (ActiveRun env)).Reachable c ∧
    ((chain env).restrict (ActiveRun env)).step c (Regtest.beginBlock 2) c' ∧
    c'.bondedSat (bytes 1) = 10 ∧ c'.bondedSat (bytes 1) = c'.activeSat (bytes 1) := by
  have hrn : holds (firstBlock.foldlM (deliverChecked env activeRun) (genesis 1)) (fun c =>
      holds (deliver env c (Regtest.beginBlock 2)) (fun c' => activeRun c
        (Regtest.beginBlock 2) c' &&
        (c'.stores.stk.finalityProviders.get (bytes 1)).all (fun fp => !fp.isSlashed) &&
        c'.bondedSat (bytes 1) == 10)) = true := by decide +kernel
  obtain ⟨c,hr,ht⟩ := reachable_deliverChecked activeRun_spec (.init genesis_init) hrn
  simp only [Bool.and_eq_true,holds_iff,beq_iff_eq,Option.all_eq_true,Bool.not_eq_true'] at ht
  obtain ⟨c',hc',⟨ha,hcl⟩,hb⟩ := ht
  have hs : ((chain env).restrict (ActiveRun env)).step c (Regtest.beginBlock 2) c' :=
    ⟨.inl hc',activeRun_spec c _ c' ha⟩
  refine ⟨c,c',hr,hs,hb,bonded_eq_active_of_signedInTime hr hs _ ?_⟩
  rintro ⟨fp,hf,hsl⟩
  simp [hcl fp hf] at hsl

end AnonChain
