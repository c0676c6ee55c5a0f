import AnonChain.BtcStaking.Lifecycle
import AnonChain.BtcStaking.Registry

/-! The messages of the staking module as moves in the life of each delegation. -/

namespace AnonChain.BtcStaking

open Lib BtcLightClient List Option State
open KVStore (get_set_ne get_set_self)
open BTCDelegation (hasCovenantQuorums hasInclusionProof)
open EventPowerDistUpdate (ofDelegation live)

/-- The quorums a delegation has to reach: that of its own parameters and that of the parameters of
the delegation it expands. -/
def DelWithParams.quorums (info : DelWithParams) : Nat × Nat :=
  (info.params.covenantQuorum,(info.prev.map (fun p => p.2.covenantQuorum)).getD 0)

def State.quorums (s : State) (k : Hash) : Nat × Nat :=
  match s.getBTCDelWithParams k with
  | .ok info => info.quorums
  | .error _ => (0,0)

def BTCDelegation.stake (d : BTCDelegation) (q : Nat × Nat) : Stake where
  included := d.hasInclusionProof
  signed := d.hasCovenantQuorums q.1 q.2
  unbonded := d.isUnbondedEarly
  start := d.startHeight
  expiry := d.endHeight-d.unbondingTime

def State.stake (s : State) (k : Hash) : Option Stake :=
  (s.btcDelegations.get k).map (fun d => d.stake (s.quorums k))

section

variable {E : Env} {ctx : Ctx} {s s' : State} {k : Hash} {info : DelWithParams} {d : BTCDelegation}

theorem quorums_eq (h : s.getBTCDelWithParams k = .ok info) :
    s.quorums k = info.quorums := by simp [quorums,h]

theorem Extends.quorums (hx : Extends s s') (h : s.getBTCDelWithParams k = .ok info) :
    s'.quorums k = s.quorums k := by
  have hn : s.btcDelegations.entries.length+1 ≤ s'.btcDelegations.entries.length+1 :=
    Nat.add_le_add_right hx.size 1
  obtain ⟨info',hi',hpr,hp⟩ := getBTCDelWithParamsAux_mono hx hn h
  have hc : info'.prev.map (fun p => p.2.covenantQuorum) =
      info.prev.map (fun p => p.2.covenantQuorum) := by
    simpa [Option.map_map,Function.comp_def] using congrArg (Option.map (·.covenantQuorum)) hp
  rw [quorums_eq h,quorums_eq hi']
  simp only [DelWithParams.quorums,hpr,hc]

theorem Registry.quorums_fst (hr : Registry E s) (hd : s.btcDelegations.get k = some d) :
    ∃ p, s.params.get d.paramsVersion = some p ∧ (s.quorums k).1 = p.covenantQuorum ∧
      d.unbondingTime = p.unbondingTimeBlocks := by
  obtain ⟨info,hi⟩ := (hr.delegations k d hd).resolved
  obtain ⟨hg,hp⟩ := getBTCDelWithParamsAux_spec hi
  rw [hd,some.injEq] at hg
  subst hg
  obtain ⟨p,hp',ht⟩ := (hr.delegations k _ hd).params
  have he : p = info.params := some.inj (hp'.symm.trans hp)
  exact ⟨p,hp',by rw [quorums_eq hi,he,DelWithParams.quorums],ht⟩

theorem Registry.quorums_pos (hr : Registry E s) (hd : s.btcDelegations.get k = some d) :
    0 < (s.quorums k).1 := by
  obtain ⟨p,hp,hq,_⟩ := hr.quorums_fst hd
  have hv := hr.params _ p hp
  unfold Params.validate at hv
  rw [bind_eq_ok] at hv
  obtain ⟨_,hn,_⟩ := hv
  rw [hq]
  exact Nat.pos_of_ne_zero (ensure_eq_ok.mp hn)

theorem Registry.quorumPreviousStk_eq (hr : Registry E s) {d d₀ : BTCDelegation}
    (hd : s.btcDelegations.get k = some d₀) (ht : d.terms = d₀.terms) :
    s.quorumPreviousStk d = .ok (s.quorums k).2 := by
  obtain ⟨info,hin⟩ := (hr.delegations k d₀ hd).resolved
  have hp : d.stkExp.map (·.previousStakingTxHash) = d₀.stkExp.map (·.previousStakingTxHash) :=
    congrArg (·.previous) ht
  rw [quorums_eq hin]
  simp only [getBTCDelWithParams,getBTCDelWithParamsAux,hd,ok_iff,some.injEq,exists_eq_left'] at hin
  obtain ⟨p,_,hin⟩ := hin
  cases he : d₀.stkExp with
  | none =>
    have he' : d.stkExp = none := by simpa [he] using hp
    simp only [he,pure_eq_ok] at hin
    simp [quorumPreviousStk,he',← hin,DelWithParams.quorums]
  | some e₀ =>
    obtain ⟨e,he',hh⟩ : ∃ e, d.stkExp = some e ∧
        e.previousStakingTxHash = e₀.previousStakingTxHash := by simpa [he] using hp
    simp only [he,ok_iff] at hin
    obtain ⟨i,hi,rfl⟩ := hin
    obtain ⟨i',hi',hpr,_⟩ := getBTCDelWithParamsAux_mono (Extends.refl s) (Nat.le_succ _) hi
    simp only [quorumPreviousStk,he',hh,getBTCDelWithParams,ok_iff]
    exact ⟨i',hi',by rw [hpr]; rfl⟩

theorem Registry.btcDelHasCovenantQuorums_eq (hr : Registry E s) {d d₀ : BTCDelegation}
    (hd : s.btcDelegations.get k = some d₀) (ht : d.terms = d₀.terms) (quorum : Nat) :
    s.btcDelHasCovenantQuorums d quorum = .ok (d.hasCovenantQuorums quorum (s.quorums k).2) := by
  rw [btcDelHasCovenantQuorums,hr.quorumPreviousStk_eq hd ht]
  rfl

theorem stake_of_get (h : s.btcDelegations.get k = some d) :
    s.stake k = some (d.stake (s.quorums k)) := by simp [stake,h]

theorem stake_eq_none : s.stake k = none ↔ s.btcDelegations.get k = none := by simp [stake]

theorem Extends.stake_eq (hx : Extends s s') (hr : Registry E s)
    (h : s'.btcDelegations.get k = s.btcDelegations.get k) : s'.stake k = s.stake k := by
  cases hd : s.btcDelegations.get k with
  | none => simp [stake,h,hd]
  | some d =>
    obtain ⟨info,hi⟩ := (hr.delegations k d hd).resolved
    rw [stake_of_get hd,stake_of_get (h.trans hd),hx.quorums hi]

theorem Extends.stake_set (hx : Extends s s') (hr : Registry E s) {d d' : BTCDelegation}
    (hd : s.btcDelegations.get k = some d) (hd' : s'.btcDelegations.get k = some d') :
    s'.stake k = some (d'.stake (s.quorums k)) := by
  obtain ⟨info,hi⟩ := (hr.delegations k d hd).resolved
  rw [stake_of_get hd',hx.quorums hi]

theorem Open.stake {tip : BTCHeaderInfo} (ho : Open ctx s k info tip) :
    (info.delegation.stake (s.quorums k)).unbonded = false ∧
      ((info.delegation.stake (s.quorums k)).included = true →
        (info.delegation.stake (s.quorums k)).signed = true →
        tip.height < (info.delegation.stake (s.quorums k)).expiry) := by
  have hun := ho.bonded
  have he := ho.unexpired
  rw [quorums_eq ho.found]
  simp only [DelWithParams.statusAt,BTCDelegation.getStatus] at hun he
  simp only [BTCDelegation.stake,DelWithParams.quorums]
  cases hu : info.delegation.isUnbondedEarly with
  | true => simp [hu] at hun
  | false =>
    refine ⟨rfl,?_⟩
    intro hi hs
    simp only [hu,hi,hs,Bool.false_eq_true,if_false,not_true_eq_false] at hun he
    split at he
    · rename_i hl
      simp [hl] at hun
    · split at he
      · simp at he
      · omega

end

def EventPowerDistUpdate.statusOf (k : Hash) : EventPowerDistUpdate → Option BTCDelegationStatus
  | .btcDelStateUpdate h st => if h = k ∧ st ≠ .EXPIRED then some st else none
  | _ => none

def EventPowerDistUpdate.expires (k : Hash) : EventPowerDistUpdate → Bool
  | .btcDelStateUpdate h .EXPIRED => h = k
  | _ => false

open EventPowerDistUpdate (statusOf expires)
def statuses (k : Hash) (l : List RecordedEvent) : List BTCDelegationStatus :=
  l.filterMap (fun e => e.event.statusOf k)

def expiries (k : Hash) (l : List RecordedEvent) : List Nat :=
  (l.filter (fun e => e.event.expires k)).map (·.btcHeight)

/-- What is recorded from one state to the next, and the move of each delegation. -/
structure Moves (ctx : Ctx) (s s' : State) (tip : Nat) (new : List RecordedEvent) : Prop where
  records : Records ctx s s' new
  move : ∀ k, Stake.Move tip (s.stake k) (s'.stake k) (statuses k new) (expiries k new)
  slashed : ∀ e ∈ new, ∀ pk, e.event = .slashedFp pk → s'.isSlashedFp pk

/-- No transaction is shown to be in the Bitcoin block at height zero, which has nothing but its
coinbase. -/
def Shown.AboveGenesis (shown : Shown) (btclc : BtcLightClient.State) : Prop :=
  ∀ p ∈ shown.proofs, ∀ i, btclc.getHeaderByHash p.headerHash = .ok i → 0 < i.height

/-- No transaction that is shown spends an output of its own. -/
def Shown.NoSelfSpend (shown : Shown) (L : BtcLib) : Prop :=
  ∀ tx ∈ shown.spending, ∀ i ∈ tx.txIn, i.previousOutPoint.hash ≠ L.txHash tx

variable {E : Env} {ctx : Ctx} {s s' : State} {tip : Nat} {tx : MsgTx}
  {info : DelegationTimeRangeInfo} {proof : InclusionProof} {shown : Shown}
  {t : BTCHeaderInfo} {new : List RecordedEvent} {k : Hash} {d : BTCDelegation}
  {stakingTime unbondingTime : Nat}

theorem Inclusion.positive (h : Inclusion ctx proof stakingTime unbondingTime info)
    (hg : shown.AboveGenesis ctx.btclc) (hp : proof ∈ shown.proofs) :
    0 < info.startHeight ∧ 0 < info.endHeight := by
  obtain ⟨i,hi,hs⟩ := h.header
  have hps := hg proof hp i hi
  have he := h.endHeight
  omega

theorem Inclusion.begun (h : Inclusion ctx proof stakingTime unbondingTime info) (hw : ctx.btclc.WF)
    (ht : ctx.btclc.getTip = some t) : info.startHeight ≤ t.height := by
  obtain ⟨i,hi,hs⟩ := h.header
  obtain ⟨t',ht',_,hm⟩ := hw.getTip_spec
  rw [ht,some.injEq] at ht'
  rw [hs,ht']
  exact hm _ i (hw.getHeaderByHash_height hi)

theorem expiries_nil_of_provider (h : ∀ e ∈ new, e.event.ofDelegation = none) :
    statuses k new = [] ∧ expiries k new = [] := by
  simp only [statuses,expiries,filterMap_eq_nil_iff,map_eq_nil_iff,filter_eq_nil_iff]
  refine ⟨?_,?_⟩ <;> intro e he <;> have hn := h e he <;>
    cases hev : e.event <;>
    simp_all [ofDelegation,statusOf,expires]

theorem FpSteps.moves (h : FpSteps ctx s s') (hr : Registry E s) (hk : s.FpKeyed)
    (hps : 0 < ctx.header.height) : ∃ new, Moves ctx s s' tip new := by
  obtain ⟨new,hrc,hp⟩ := FpSteps.records h
  have ha := FpSteps.amends h
  have hd := FpSteps.delegations h
  refine ⟨new,hrc,?_,fun e he pk hpk => (hp e he).2 pk hpk hk hps⟩
  intro k
  obtain ⟨hs,hex⟩ := expiries_nil_of_provider (k := k) (fun e he => (hp e he).1)
  rw [hs,hex,ha.toExtends.stake_eq hr (by rw [hd])]
  exact .stay _

def Idle (s s' : State) (new : List RecordedEvent) (k : Hash) : Prop :=
  s'.stake k = s.stake k ∧ statuses k new = [] ∧ expiries k new = []

theorem Idle.move (h : Idle s s' new k) :
    Stake.Move tip (s.stake k) (s'.stake k) (statuses k new) (expiries k new) := by
  obtain ⟨hs,hst,hex⟩ := h
  rw [hs,hst,hex]
  exact .stay _

theorem Moves.trans {t : State} {new new' : List RecordedEvent} (h : Moves ctx s s' tip new)
    (h' : Moves ctx s' t tip new') (ha : ∀ k, Idle s s' new k ∨ Idle s' t new' k)
    (hsl : ∀ e ∈ new, ∀ pk, e.event ≠ .slashedFp pk) : Moves ctx s t tip (new ++ new') where
  records := h.records.trans h'.records
  move k := by
    rw [statuses,expiries,filterMap_append,filter_append,map_append]
    rcases ha k with ⟨hsta,hs,hex⟩ | ⟨hsta,hs,hex⟩
    · have hm := h'.move k
      rw [hsta] at hm
      simp only [statuses,expiries] at hs hex hm
      rw [hs,hex]
      exact hm
    · have hm := h.move k
      rw [← hsta] at hm
      simp only [statuses,expiries] at hs hex hm
      rw [hs,hex,append_nil,append_nil]
      exact hm
  slashed e he pk hp := by
    cases mem_append.mp he with
    | inl hold => exact absurd hp (hsl e hold pk)
    | inr hn => exact h'.slashed e hn pk hp

theorem Idle.of_other {k k₀ : Hash} (hr : Registry E s) (hx : Extends s s')
    (hne : k ≠ k₀) (hg : s'.btcDelegations.get k = s.btcDelegations.get k)
    (hn : ∀ e ∈ new, e.event.ofDelegation = some k₀) : Idle s s' new k := by
  refine ⟨hx.stake_eq hr hg,?_,?_⟩
  · rw [statuses,filterMap_eq_nil_iff]
    intro e he
    have ho := hn e he
    cases hev : e.event <;>
      simp_all [ofDelegation,statusOf,Ne.symm hne]
  · rw [expiries,map_eq_nil_iff,filter_eq_nil_iff]
    intro e he
    have ho := hn e he
    cases hev : e.event with
    | btcDelStateUpdate h st =>
      cases st <;> simp_all [ofDelegation,expires,Ne.symm hne]
    | _ => simp [expires]

theorem Moves.single (k₀ : Hash) (hr : Registry E s) (hx : Extends s s')
    (hrc : Records ctx s s' new) (hn : ∀ e ∈ new, e.event.ofDelegation = some k₀)
    (hg : ∀ k, k ≠ k₀ → s'.btcDelegations.get k = s.btcDelegations.get k)
    (hm : Stake.Move tip (s.stake k₀) (s'.stake k₀) (statuses k₀ new) (expiries k₀ new)) :
    Moves ctx s s' tip new where
  records := hrc
  move k := by
    by_cases hk : k = k₀
    · rw [hk]
      exact hm
    · exact (Idle.of_other hr hx hk (hg k hk) hn).move
  slashed e he pk hp := by
    have ho := hn e he
    simp [hp,ofDelegation] at ho

theorem hasCovenantQuorums_unsigned {q q' : Nat} (hq : 0 < q) (h : d.covenantSigs = []) :
    d.hasCovenantQuorums q q' = false := by
  have hn : decide (q ≤ d.covenantSigs.length) = false := by
    rw [h,decide_eq_false_iff_not]
    simp only [length_nil]
    omega
  unfold hasCovenantQuorums
  rw [hn]
  cases d.stkExp <;> rfl

theorem hasCovenantQuorums_addCovenantSigs {q q' : Nat} (covPk : BIP340PubKey)
    (slashingSigs : List Bytes) (unbondingSig : Bytes) (unbondingSlashingSigs : List Bytes)
    (expansionSig : Option Bytes) (h : d.hasCovenantQuorums q q' = true) :
    (d.addCovenantSigs covPk slashingSigs unbondingSig unbondingSlashingSigs
      expansionSig).hasCovenantQuorums q q' = true := by
  cases he : d.stkExp with
  | none =>
    simp only [hasCovenantQuorums,he,BTCUndelegation.hasCovenantQuorums,Bool.and_eq_true,
      decide_eq_true_eq] at h
    simp only [hasCovenantQuorums,BTCDelegation.addCovenantSigs,he,map_none,
      BTCUndelegation.hasCovenantQuorums,BTCUndelegation.addCovenantSigs,Bool.and_eq_true,
      decide_eq_true_eq,length_append,length_singleton]
    omega
  | some e =>
    simp only [hasCovenantQuorums,he,BTCUndelegation.hasCovenantQuorums,
      StakeExpansion.hasCovenantQuorums,Bool.and_eq_true,decide_eq_true_eq] at h
    simp only [hasCovenantQuorums,BTCDelegation.addCovenantSigs,he,map_some,
      BTCUndelegation.hasCovenantQuorums,BTCUndelegation.addCovenantSigs,
      StakeExpansion.hasCovenantQuorums,StakeExpansion.addCovenantSigs,Bool.and_eq_true,
      decide_eq_true_eq,length_append,length_singleton]
    omega

theorem withInclusion_moves {params : Params} (hr : Registry E s) (hw : ctx.btclc.WF)
    (hgs : shown.AboveGenesis ctx.btclc) (stored : s.btcDelegations.get k = some d)
    (seen : proof ∈ shown.proofs) (can : CanInclude ctx proof s d params info) :
    Moves ctx s (s.withInclusion E ctx d params info) info.tipHeight
      [⟨ctx.header.height,info.tipHeight,.btcDelStateUpdate k .ACTIVE⟩,
        ⟨ctx.header.height,info.endHeight-params.unbondingTimeBlocks,
          .btcDelStateUpdate k .EXPIRED⟩] := by
  have hky : E.btc.txHash d.stakingTx = k := (hr.delegations k d stored).keyed
  have hx := (withInclusion_amends ctx params info hr stored).toExtends
  have hd := withInclusion_delegations ctx params info hr stored
  have hrc : Records ctx s (s.withInclusion E ctx d params info) _ :=
    withInclusion_records can.inclusion.tip
  rw [hky] at hrc
  refine .single k hr hx hrc (by simp [ofDelegation]) ?_ ?_
  · intro k' hk'
    rw [hd,get_set_ne _ _ hk']
  obtain ⟨p,hp,hq,htm⟩ := hr.quorums_fst stored
  have hpr : p = params := some.inj (hp.symm.trans can.version)
  subst hpr
  have hsg : d.hasCovenantQuorums (s.quorums k).1 (s.quorums k).2 = true := by
    have hqr := can.quorum
    rw [hr.btcDelHasCovenantQuorums_eq stored rfl,Except.ok.injEq] at hqr
    rw [hq]
    exact hqr
  obtain ⟨hs,he⟩ := can.inclusion.positive hgs seen
  have hl := can.inclusion.live
  have hn : ({ d with startHeight := info.startHeight, endHeight := info.endHeight } :
      BTCDelegation).stake (s.quorums k) = { d.stake (s.quorums k) with
        included := true, start := info.startHeight,
        expiry := info.endHeight-p.unbondingTimeBlocks } := by
    simp only [BTCDelegation.stake,hasInclusionProof,hs,he,htm,and_self,decide_true]
    rfl
  rw [hx.stake_set hr stored (by rw [hd,get_set_self]),stake_of_get stored,hn]
  simp only [statuses,expiries,filterMap_cons,filterMap_nil,filter_cons,
    filter_nil,statusOf,expires]
  have hb : info.startHeight ≤ info.tipHeight := by
    obtain ⟨t,ht,heq⟩ := can.inclusion.tip
    rw [heq]
    exact can.inclusion.begun hw ht
  exact .prove can.absent hsg can.bonded hb (by omega)

theorem create_moves (hr : Registry E s) (hw : ctx.btclc.WF) (htp : ctx.btclc.getTip = some t)
    (hn : NewDelegation E ctx s d) :
    ∃ new, Moves ctx s (s.addBTCDelegation E ctx d) t.height new := by
  have hst : DelStep E ctx ⟨[],[]⟩ s (s.addBTCDelegation E ctx d) := .create hn
  obtain ⟨hx,hr'⟩ := hst.registry hr
  obtain ⟨hd,_,_⟩ := addBTCDelegation_frame E s ctx d
  have hg : (s.addBTCDelegation E ctx d).btcDelegations.get (E.btc.txHash d.stakingTx) =
      some d := by
    rw [hd,get_set_self]
  have ho : ∀ k, k ≠ E.btc.txHash d.stakingTx →
      (s.addBTCDelegation E ctx d).btcDelegations.get k = s.btcDelegations.get k := by
    intro k hk
    rw [hd,get_set_ne _ _ hk]
  have hnn : s.stake (E.btc.txHash d.stakingTx) = none := stake_eq_none.mpr hn.fresh
  have hu : (d.stake ((s.addBTCDelegation E ctx d).quorums (E.btc.txHash d.stakingTx))).signed =
      false := hasCovenantQuorums_unsigned (hr'.quorums_pos hg) hn.unsigned
  cases hi : d.hasInclusionProof with
  | false =>
    have he : s.addBTCDelegation E ctx d = s.setBTCDelegation E d := by
      simp [addBTCDelegation,hi]
    refine ⟨[],.single (E.btc.txHash d.stakingTx) hr hx (by rw [he]; exact .nothing rfl rfl rfl)
      (by simp) ho ?_⟩
    rw [hnn,stake_of_get hg]
    have hm : Stake.Move t.height none (some (d.stake _)) _ _ :=
      .register hu hn.notUnbonded (by simp [BTCDelegation.stake,hi])
    simpa [BTCDelegation.stake,hi,statuses,expiries] using hm
  | true =>
    obtain ⟨proof,tip,hin⟩ : ∃ proof tip, Inclusion ctx proof d.stakingTime d.unbondingTime
        ⟨d.startHeight,d.endHeight,tip⟩ := by
      rcases hn.time with ⟨hs,_⟩ | hin
      · simp [hasInclusionProof,hs] at hi
      · exact hin
    have hl : t.height+d.unbondingTime < d.endHeight := by
      obtain ⟨t',ht',he⟩ := hin.tip
      rw [htp,some.injEq] at ht'
      have hlt := hin.live
      rw [ht',← he]
      exact hlt
    have he : s.addBTCDelegation E ctx d = (s.setBTCDelegation E d).addPowerDistUpdateEvent
        ctx.header.height (d.endHeight-d.unbondingTime)
        (.btcDelStateUpdate (E.btc.txHash d.stakingTx) .EXPIRED) := by
      simp [addBTCDelegation,hi]
    have hrc : Records ctx s (s.addBTCDelegation E ctx d) [⟨ctx.header.height,
        d.endHeight-d.unbondingTime,.btcDelStateUpdate (E.btc.txHash d.stakingTx) .EXPIRED⟩] := by
      rw [he]
      exact .write_add (by exact .nothing rfl rfl rfl) _ _ (by simp [live])
    refine ⟨_,.single (E.btc.txHash d.stakingTx) hr hx hrc
      (by simp [ofDelegation]) ho ?_⟩
    rw [hnn,stake_of_get hg]
    have hm : Stake.Move t.height none (some (d.stake _)) _ _ :=
      .register hu hn.notUnbonded
        (by intro _; exact ⟨hin.begun hw htp,by simp only [BTCDelegation.stake]; omega⟩)
    simpa [BTCDelegation.stake,hi,statuses,expiries,statusOf,
      expires] using hm

theorem sign_moves {info : DelWithParams} {covPk : BIP340PubKey}
    {slashingSigs unbondingSlashingSigs : List Bytes} {unbondingSig : Bytes}
    {expansionSig : Option Bytes} (hr : Registry E s) (ho : Open ctx s k info t)
    (h : s' = s.addCovenantSigsToBTCDelegation E ctx info covPk slashingSigs unbondingSig
      unbondingSlashingSigs expansionSig t.height) : ∃ new, Moves ctx s s' t.height new := by
  obtain ⟨hd,hp,hf⟩ := addCovenantSigs_delegations hr ho.stored h
  have hx := (Amends.set hd ho.stored (terms_addCovenantSigs ..) hp hf).toExtends
  have hot : ∀ k', k' ≠ k → s'.btcDelegations.get k' = s.btcDelegations.get k' := by
    intro k' hk'
    rw [hd,get_set_ne _ _ hk']
  have hky : E.btc.txHash info.delegation.stakingTx = k := (hr.delegations _ _ ho.stored).keyed
  have hq : s.quorums k = info.quorums := quorums_eq ho.found
  have hs := hx.stake_set hr ho.stored (by rw [hd,get_set_self])
  have hm : Stake.Move t.height (some (info.delegation.stake (s.quorums k))) _ _ _ :=
    .sign ho.stake.1 (hasCovenantQuorums_addCovenantSigs covPk slashingSigs unbondingSig
      unbondingSlashingSigs expansionSig)
  rw [hq] at hm hs
  simp only [addCovenantSigsToBTCDelegation] at h
  split at h
  case isTrue hc =>
    obtain ⟨hb,hnw,hi⟩ := hc
    have hrc : Records ctx s s' [⟨ctx.header.height,t.height,.btcDelStateUpdate k .ACTIVE⟩] := by
      rw [h,← hky]
      exact .write_add (by exact .nothing rfl rfl rfl) _ _ (fun _ => ⟨t,ho.atTip,rfl⟩)
    refine ⟨_,.single k hr hx hrc (by simp [ofDelegation]) hot ?_⟩
    have hac : ((info.delegation.stake info.quorums).included &&
        !(info.delegation.stake info.quorums).signed &&
        (info.delegation.addCovenantSigs covPk slashingSigs unbondingSig unbondingSlashingSigs
          expansionSig).hasCovenantQuorums info.quorums.1 info.quorums.2) = true := by
      simp only [Bool.and_eq_true,Bool.not_eq_true']
      exact ⟨⟨hi,Bool.eq_false_iff.mpr hb⟩,hnw⟩
    rw [hac] at hm
    rw [hs,stake_of_get ho.stored,hq]
    simp only [statuses,expiries,filterMap_cons,filterMap_nil,filter_cons,
      filter_nil,statusOf,expires]
    exact hm
  case isFalse hc =>
    refine ⟨[],.single k hr hx (by rw [h]; exact .nothing rfl rfl rfl) (by simp) hot ?_⟩
    have hn : ((info.delegation.stake info.quorums).included &&
        !(info.delegation.stake info.quorums).signed &&
        (info.delegation.addCovenantSigs covPk slashingSigs unbondingSig unbondingSlashingSigs
          expansionSig).hasCovenantQuorums info.quorums.1 info.quorums.2) = false := by
      rw [Bool.eq_false_iff]
      intro ha
      simp only [Bool.and_eq_true,Bool.not_eq_true'] at ha
      exact hc ⟨Bool.eq_false_iff.mp ha.1.2,ha.2,ha.1.1⟩
    rw [hn] at hm
    rw [hs,stake_of_get ho.stored,hq]
    exact hm

theorem btcUndelegate_moves {u : DelegatorUnbondingInfo}
    (hr : Registry E s) (stored : s.btcDelegations.get k = some d)
    (bonded : (d.stake (s.quorums k)).unbonded = false)
    (unexpired : (d.stake (s.quorums k)).included = true → (d.stake (s.quorums k)).signed = true →
      t.height < (d.stake (s.quorums k)).expiry)
    (run : s.btcUndelegate E ctx d u = .ok s') :
    ∃ new, Moves ctx s s' t.height new ∧ ∀ k', k' ≠ k → Idle s s' new k' := by
  have hky : E.btc.txHash d.stakingTx = k := (hr.delegations _ _ stored).keyed
  have hx := (btcUndelegate_amends hr stored rfl run).toExtends
  obtain ⟨hd,_,_⟩ := btcUndelegate_delegations run
  rw [hky] at hd
  have ho : ∀ k', k' ≠ k → s'.btcDelegations.get k' = s.btcDelegations.get k' := by
    intro k' hk'
    rw [hd,get_set_ne _ _ hk']
  have hs := hx.stake_set hr stored (by rw [hd,get_set_self])
  have hm : Stake.Move t.height (some (d.stake (s.quorums k))) _ _ _ := .unbond bonded unexpired
  rcases State.btcUndelegate_spec run with ⟨hi,he⟩ | ⟨hi,t',ht',he⟩
  · refine ⟨[],.single k hr hx (by rw [he]; exact .nothing rfl rfl rfl) (by simp) ho ?_,
      fun k' hk' => .of_other hr hx hk' (ho k' hk') (by simp)⟩
    rw [hs,stake_of_get stored]
    have hn : ¬ (d.stake (s.quorums k)).included = true := Bool.eq_false_iff.mp hi
    rw [if_neg hn] at hm
    exact hm
  · have hrc : Records ctx s s' [⟨ctx.header.height,t'.height,.btcDelStateUpdate k .UNBONDED⟩] := by
      rw [he,← hky]
      exact .write_add (by exact .nothing rfl rfl rfl) _ _ (fun _ => ⟨t',ht',rfl⟩)
    have hof : ∀ e ∈ [(⟨ctx.header.height,t'.height,
        .btcDelStateUpdate k .UNBONDED⟩ : RecordedEvent)],
        e.event.ofDelegation = some k := by simp [ofDelegation]
    refine ⟨_,.single k hr hx hrc hof ho ?_,fun k' hk' => .of_other hr hx hk' (ho k' hk') hof⟩
    rw [hs,stake_of_get stored]
    have hsm : (d.stake (s.quorums k)).included = true := hi
    rw [if_pos hsm] at hm
    simp only [statuses,expiries,filterMap_cons,filterMap_nil,filter_cons,
      filter_nil,statusOf,expires]
    exact hm

theorem findInputIdx_spends {fundingTxHash : Hash} {outputIdx idx : Nat}
    (h : findInputIdx tx fundingTxHash outputIdx = some idx) :
    ∃ i ∈ tx.txIn, i.previousOutPoint.hash = fundingTxHash := by
  obtain ⟨hl,hs,_⟩ := findIdx?_eq_some_iff_getElem.mp h
  simp only [decide_eq_true_eq] at hs
  exact ⟨_,getElem_mem hl,by rw [hs]⟩

theorem DelStep.moves (h : DelStep E ctx shown s s') (hr : Registry E s) (hw : ctx.btclc.WF)
    (hgs : shown.AboveGenesis ctx.btclc) (hs : shown.NoSelfSpend E.btc)
    (htp : ctx.btclc.getTip = some t) : ∃ new, Moves ctx s s' t.height new := by
  have hat : ∀ {info : DelegationTimeRangeInfo}, (∃ t', ctx.btclc.getTip = some t' ∧
      info.tipHeight = t'.height) → info.tipHeight = t.height := by
    rintro info ⟨t',ht',he⟩
    rw [htp,some.injEq] at ht'
    rw [he,ht']
  cases h with
  | @params p pairs _ =>
    refine ⟨[],.nothing rfl rfl rfl,?_,by simp⟩
    intro k
    rw [(Extends.setParams p pairs).stake_eq hr rfl]
    exact .stay _
  | create new => exact create_moves hr hw htp new
  | prove stored _ seen can =>
    have hm := withInclusion_moves hr hw hgs stored seen can
    rw [hat can.inclusion.tip] at hm
    exact ⟨_,hm⟩
  | sign isOpen =>
    have ht : t = _ := some.inj (htp.symm.trans isOpen.atTip)
    rw [ht]
    exact sign_moves hr isOpen rfl
  | unbond isOpen run =>
    have ht : t = _ := some.inj (htp.symm.trans isOpen.atTip)
    rw [ht]
    obtain ⟨new,hm,_⟩ := btcUndelegate_moves hr isOpen.stored isOpen.stake.1 isOpen.stake.2 run
    exact ⟨new,hm⟩
  | @expand h info tip exp tx params tinfo _ u _ s' isOpen spending stored _ seen can spends run =>
    have ht : t = tip := some.inj (htp.symm.trans isOpen.atTip)
    subst ht
    have hky : E.btc.txHash info.delegation.stakingTx = h :=
      (hr.delegations _ _ isOpen.stored).keyed
    have hn : h ≠ E.btc.txHash tx := by
      obtain ⟨i,hi,hh⟩ := findInputIdx_spends spends
      rw [← hky,← hh]
      exact hs tx spending i hi
    have hm := withInclusion_moves hr hw hgs stored seen can
    rw [hat can.inclusion.tip] at hm
    have ha := withInclusion_amends ctx params tinfo hr stored
    have hd := withInclusion_delegations ctx params tinfo hr stored
    have hg : ∀ k, k ≠ E.btc.txHash tx →
        (s.withInclusion E ctx exp params tinfo).btcDelegations.get k = s.btcDelegations.get k := by
      intro k hk
      rw [hd,get_set_ne _ _ hk]
    have hq := ha.toExtends.quorums isOpen.found
    obtain ⟨new,hm',hid⟩ := btcUndelegate_moves (t := t) (hr.amends ha)
      ((hg h hn).trans isOpen.stored) (by rw [hq]; exact isOpen.stake.1)
      (by rw [hq]; exact isOpen.stake.2) run
    refine ⟨_,hm.trans hm' ?_ (by simp)⟩
    intro k
    by_cases hk : k = h
    · subst hk
      exact .inl (.of_other hr ha.toExtends hn (hg k hn) (by simp [ofDelegation]))
    · exact .inr (hid k hk)

end AnonChain.BtcStaking
