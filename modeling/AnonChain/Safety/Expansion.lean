import AnonChain.Regtest
import AnonChain.StakingSteps

/-! A stake expansion spends the staking output of an earlier delegation. -/

namespace AnonChain

open Lib Option BtcStaking Bool
open KVStore (get_set get_set_cases)
open BtcLightClient (MsgTx)
open BtcStaking (Ctx BTCDelegation Registry Open MsgBTCUndelegate State Env)
open BTCDelegation (terms getStatus)

/-- Every stake expansion that is included has unbonded the delegation it spends. -/
def ExpansionsSettled (s : State) : Prop :=
  ∀ k d prev, s.btcDelegations.get k = some d → d.terms.previous = some prev →
    d.hasInclusionProof = true → ∃ p, s.btcDelegations.get prev = some p ∧ p.isUnbondedEarly = true

/-- When the spending transaction is a registered stake expansion, the message unbonds the
delegation it expands. -/
def NamesPrevious (E : Env) (s : State) (m : MsgBTCUndelegate) : Prop :=
  ∀ exp e, s.btcDelegations.get (E.btc.txHash m.stakeSpendingTx) = some exp → exp.stkExp = some e →
    m.stakingTxHash = e.previousStakingTxHash

section

variable {E : Env} {ctx : Ctx} {s s' : State} {u : BtcStaking.DelegatorUnbondingInfo}

theorem ExpansionsSettled.later (hs : ExpansionsSettled s)
    (hk : ∀ k d, s.btcDelegations.get k = some d → d.isUnbondedEarly = true →
      ∃ d', s'.btcDelegations.get k = some d' ∧ d'.isUnbondedEarly = true)
    (hn : ∀ k d' prev, s'.btcDelegations.get k = some d' → d'.terms.previous = some prev →
      d'.hasInclusionProof = true →
      (∃ d, s.btcDelegations.get k = some d ∧ d.terms.previous = some prev ∧
      d.hasInclusionProof = true) ∨
      ∃ p, s'.btcDelegations.get prev = some p ∧
      p.isUnbondedEarly = true) : ExpansionsSettled s' := by
  intro k d' prev hd' hpr hi
  rcases hn k d' prev hd' hpr hi with ⟨d,hd,hpr',hi'⟩ | hdn
  · obtain ⟨p,hp,hu⟩ := hs k d prev hd hpr' hi'
    exact hk prev p hp hu
  · exact hdn

theorem ExpansionsSettled.of_eq (hs : ExpansionsSettled s)
    (hd : s'.btcDelegations = s.btcDelegations) : ExpansionsSettled s' := by
  unfold ExpansionsSettled
  rw [hd]
  exact hs

theorem ExpansionsSettled.set (hs : ExpansionsSettled s) {k : Hash} {d d' : BTCDelegation}
    (hd : s'.btcDelegations = s.btcDelegations.set k d') (stored : s.btcDelegations.get k = some d)
    (ht : d'.terms = d.terms) (hu : d.isUnbondedEarly = true → d'.isUnbondedEarly = true)
    (hi : d'.hasInclusionProof = true → d.hasInclusionProof = true ∨ d.stkExp = none) :
    ExpansionsSettled s' := by
  refine hs.later ?_ ?_
  · intro k₁ d₁ h₁ hu₁
    rw [hd,get_set]
    by_cases hk : k₁ = k
    · subst hk
      rw [stored,some.injEq] at h₁
      subst h₁
      exact ⟨d',by simp,hu hu₁⟩
    · exact ⟨d₁,by simpa [hk] using h₁,hu₁⟩
  · intro k₁ d₁ prev h₁ hp hi₁
    rw [hd] at h₁
    rcases get_set_cases h₁ with ⟨rfl,rfl⟩ | ⟨_,h₁⟩
    · rw [ht] at hp
      cases hi hi₁ with
      | inl hi₀ => exact .inl ⟨d,stored,hp,hi₀⟩
      | inr hpl => simp [terms,hpl] at hp
    · exact .inl ⟨d₁,h₁,hp,hi₁⟩

theorem ExpansionsSettled.create (hs : ExpansionsSettled s) {d : BTCDelegation}
    (hn : BtcStaking.NewDelegation E ctx s d) : ExpansionsSettled (s.addBTCDelegation E ctx d) := by
  obtain ⟨hd,_,_⟩ := addBTCDelegation_frame E s ctx d
  refine hs.later ?_ ?_
  · intro k d₁ h₁ hu
    have hne : k ≠ E.btc.txHash d.stakingTx := by
      rintro rfl
      simp [hn.fresh] at h₁
    exact ⟨d₁,by rw [hd,KVStore.get_set_ne _ _ hne]; exact h₁,hu⟩
  · intro k d₁ prev h₁ hp hi
    rw [hd] at h₁
    rcases get_set_cases h₁ with ⟨_,rfl⟩ | ⟨_,h₁⟩
    · obtain ⟨e,he,_⟩ : ∃ e, d₁.stkExp = some e ∧ e.previousStakingTxHash = prev := by
        simpa [terms] using hp
      obtain ⟨hst,_⟩ := hn.expansion e he
      simp [BTCDelegation.hasInclusionProof,hst] at hi
    · exact .inl ⟨d₁,h₁,hp,hi⟩

theorem ExpansionsSettled.unbond (hs : ExpansionsSettled s) (hr : Registry E s) {k : Hash}
    {d : BTCDelegation} (stored : s.btcDelegations.get k = some d)
    (run : s.btcUndelegate E ctx d u = .ok s') : ExpansionsSettled s' := by
  have hk : E.btc.txHash d.stakingTx = k := (hr.delegations k d stored).keyed
  have hd := (btcUndelegate_delegations run).1
  rw [hk] at hd
  exact hs.set hd stored rfl (fun _ => rfl) .inl

theorem ExpansionsSettled.expand (hs : ExpansionsSettled s) (hr : Registry E s) {k prev : Hash}
    {d exp : BTCDelegation} {params : BtcStaking.Params} {info : BtcStaking.DelegationTimeRangeInfo}
    (stored : s.btcDelegations.get prev = some d)
    (expansion : s.btcDelegations.get k = some exp) (previous : exp.terms.previous = some prev)
    (run : (s.withInclusion E ctx exp params info).btcUndelegate E ctx d u = .ok s') :
    ExpansionsSettled s' := by
  have hk : E.btc.txHash d.stakingTx = prev := (hr.delegations prev d stored).keyed
  have hg : ∀ k₁, s'.btcDelegations.get k₁ = if k₁ = prev then some (d.withUnbonding u)
      else if k₁ = k then some { exp with
        startHeight := info.startHeight, endHeight := info.endHeight }
      else s.btcDelegations.get k₁ := by
    intro k₁
    rw [(btcUndelegate_delegations run).1,hk,
      withInclusion_delegations ctx params info hr expansion,get_set,get_set]
    congr
  have hd : ∃ p, s'.btcDelegations.get prev = some p ∧ p.isUnbondedEarly = true :=
    ⟨d.withUnbonding u,by rw [hg,if_pos rfl],rfl⟩
  refine hs.later ?_ ?_
  · intro k₁ d₁ h₁ hu
    by_cases h₂ : k₁ = prev
    · rw [h₂]
      exact hd
    · rw [hg,if_neg h₂]
      by_cases h₃ : k₁ = k
      · rw [h₃,expansion,some.injEq] at h₁
        rw [if_pos h₃]
        exact ⟨_,rfl,by rw [← h₁] at hu; exact hu⟩
      · exact ⟨d₁,by rw [if_neg h₃]; exact h₁,hu⟩
  · intro k₁ d₁ prev₁ h₁ hp hi
    rw [hg] at h₁
    by_cases h₂ : k₁ = prev
    · rw [if_pos h₂,some.injEq] at h₁
      subst h₁ h₂
      exact .inl ⟨d,stored,hp,hi⟩
    · rw [if_neg h₂] at h₁
      by_cases h₃ : k₁ = k
      · rw [if_pos h₃,some.injEq] at h₁
        subst h₁
        have he : prev₁ = prev := some.inj (hp.symm.trans previous)
        exact .inr (he ▸ hd)
      · rw [if_neg h₃] at h₁
        exact .inl ⟨d₁,h₁,hp,hi⟩

theorem handleStk_expansions {E : Finality.Env} {msg : StkMsg} (hs : ExpansionsSettled s)
    (hr : Registry E.stk s) (hnm : ∀ m, msg = .btcUndelegate m → NamesPrevious E.stk s m)
    (h : handleStk E s ctx msg = .ok s') : ExpansionsSettled s' := by
  cases msg with
  | createFinalityProvider m =>
    obtain ⟨_,_,hd,_⟩ := (createFinalityProvider_step h).write
    exact hs.of_eq hd
  | editFinalityProvider m =>
    obtain ⟨_,_,hd,_⟩ := (editFinalityProvider_step h).write
    exact hs.of_eq hd
  | selectiveSlashingEvidence m =>
    obtain ⟨_,_,hd,_⟩ := (selectiveSlashingEvidence_step h).write
    exact hs.of_eq hd
  | createBTCDelegation m =>
    obtain ⟨d,hnw,rfl⟩ := createBTCDelegation_spec h
    exact hs.create hnw
  | btcStakeExpand m =>
    obtain ⟨d,hnw,rfl⟩ := btcStakeExpand_spec h
    exact hs.create hnw
  | addBTCDelegationInclusionProof m =>
    obtain ⟨d,hd,hp,h⟩ := addBTCDelegationInclusionProof_spec h
    obtain ⟨params,info,_,rfl⟩ := canInclude_spec h
    exact hs.set (withInclusion_delegations ctx params info hr hd) hd rfl id
      (fun _ => .inr hp)
  | addCovenantSigs m =>
    obtain ⟨info,tip,_,_,hi,ht,hn,hn',h⟩ := addCovenantSigs_spec h
    have hst := Open.stored ⟨hi,ht,hn,hn'⟩
    obtain ⟨hd,_⟩ := addCovenantSigs_delegations hr hst h
    exact hs.set hd hst (terms_addCovenantSigs ..) id .inl
  | btcUndelegate m =>
    obtain ⟨info,tip,s₁,_,u,hi,ht,hn,hn',hs₁,_,hrn⟩ := btcUndelegate_spec h
    have hst := Open.stored ⟨hi,ht,hn,hn'⟩
    rcases hs₁ with rfl | ⟨exp,hep,hse,hic⟩
    · exact hs.unbond hr hst hrn
    · obtain ⟨params,tinfo,_,rfl⟩ := canInclude_spec hic
      obtain ⟨e,he⟩ := isSome_iff_exists.mp hse
      rw [hnm m rfl exp e hep he] at hst
      exact hs.expand hr hst hep (by simp [terms,he]) hrn
  | updateParams m =>
    simp only [handleStk,updateParams,State.setParams,ok_iff] at h
    obtain ⟨_,_,_,_,_,_,_,_,rfl⟩ := h
    exact hs.of_eq rfl

end

/-- Every accepted report of an included stake expansion unbonds the delegation it expands. -/
def NamedExpansions (E : Finality.Env) (c : Chain) (a : Action) (c' : Chain) : Prop :=
  ∀ m, a = .stk (.btcUndelegate m) → deliver E c a = .ok c' → NamesPrevious E.stk c.stores.stk m

theorem deliver_expansions {E : Finality.Env} {c c' : Chain} {a : Action}
    (hs : ExpansionsSettled c.stores.stk) (hr : Registry E.stk c.stores.stk)
    (hk : c.stores.fin.BlocksKeyed)
    (hn : NamedExpansions E c a c') (h : deliver E c a = .ok c') :
    ExpansionsSettled c'.stores.stk := by
  cases a with
  | stk _ =>
    obtain ⟨stk,run,rfl⟩ := deliver_stk h
    exact handleStk_expansions hs hr (fun m hm => hn m (hm ▸ rfl) h) run
  | _ => exact hs.of_eq (deliver_frame hk h (by simp)).1

theorem expansionsSettled {E : Finality.Env} {c : Chain}
    (h : ((chain E).restrict (NamedExpansions E)).Reachable c) :
    ExpansionsSettled c.stores.stk := by
  refine h.invariant (P := fun c => ExpansionsSettled c.stores.stk) ?_ ?_
  · intro c (hg : Genesis E c) k d prev hd
    simp [hg.noDelegations] at hd
  · rintro c a c' hr hs ⟨ho | ⟨_,_,rfl⟩,hn⟩
    · exact deliver_expansions hs (registry hr.of_restrict) (baseInv hr.of_restrict).blocks hn ho
    · exact hs

theorem BtcStaking.BTCDelegation.getStatus_active {d : BTCDelegation} {btcHeight q q' : Nat}
    (h : d.getStatus btcHeight q q' = .ACTIVE) :
    d.isUnbondedEarly = false ∧ d.hasInclusionProof = true := by
  unfold getStatus at h
  split at h
  · simp at h
  · rename_i hu
    split at h
    · simp at h
    · split at h
      · simp at h
      · rename_i hi
        exact ⟨eq_false_iff.mpr hu,by simpa using hi⟩

/-- Where reports name the expanded delegation, a stake expansion spends the staking output of a
registered delegation, which is unbonded once the expansion is included: the two are never active
together. -/
theorem expansion_unbonds_previous {E : Finality.Env} {c : Chain}
    (h : ((chain E).restrict (NamedExpansions E)).Reachable c) {k : Hash} {d : BTCDelegation}
    {e : BtcStaking.StakeExpansion} (hd : c.stores.stk.btcDelegations.get k = some d)
    (he : d.stkExp = some e) :
    ∃ p tx₀, c.stores.stk.btcDelegations.get e.previousStakingTxHash = some p ∧
      d.stakingTx.txIn[0]? = some tx₀ ∧
      tx₀.previousOutPoint = ⟨E.stk.btc.txHash p.stakingTx,p.stakingOutputIdx⟩ ∧
      (d.hasInclusionProof = true → p.btcUndelegation.delegatorUnbondingInfo ≠ none) ∧
      ∀ btcHeight q q' r r', ¬ (d.getStatus btcHeight q q' = .ACTIVE ∧
        p.getStatus btcHeight r r' = .ACTIVE) := by
  have hr := registry h.of_restrict
  have hpr : d.terms.previous = some e.previousStakingTxHash := by simp [terms,he]
  obtain ⟨_,p,tx₀,hp,ht,ho⟩ := (hr.delegations k d hd).previous _ hpr
  have hk : E.stk.btc.txHash p.stakingTx = e.previousStakingTxHash := (hr.delegations _ p hp).keyed
  have hs : d.hasInclusionProof = true → p.isUnbondedEarly = true := by
    intro hi
    obtain ⟨p',hp',hu⟩ := expansionsSettled h k d _ hd hpr hi
    rw [hp,some.injEq] at hp'
    rw [hp']
    exact hu
  refine ⟨p,tx₀,hp,ht,by rw [hk]; exact ho,?_,?_⟩
  · intro hi hn
    simpa [BTCDelegation.isUnbondedEarly,hn] using hs hi
  · rintro btcHeight q q' r r' ⟨ha,ha'⟩
    have hu := hs (BTCDelegation.getStatus_active ha).2
    rw [(BTCDelegation.getStatus_active ha').1] at hu
    simp at hu

namespace Regtest

def fundingTx : MsgTx := stakingTx 10 20 []

def expansionTx : MsgTx :=
  stakingTx 12 30 [⟨txHash (stakingTx 10 1 []),0⟩,⟨txHash fundingTx,0⟩]

def expand : Action :=
  .stk (.btcStakeExpand ⟨createMsg 1 expansionTx 12 none,txHash (stakingTx 10 1 []),fundingTx⟩)

/-- Reports that the expansion is on Bitcoin, spending the output of `tx`. -/
def reportExpansion (tx : MsgTx) : Action :=
  .stk (.btcUndelegate ⟨txHash tx,expansionTx,inclusionProof expansionTx 101,[fundingTx]⟩)

/-- The funding transaction is registered as a delegation after the expansion, and the expansion is
reported as spending it. -/
def misnamedExpansion : List Action :=
  [beginBlock 1] ++ join 1 10 ++
    [expand,.stk (.createBTCDelegation (createMsg 1 fundingTx 10 none)),sign expansionTx (some []),
      .insertHeaders ⟨some [],[btcHeader 101 102 1]⟩,reportExpansion fundingTx]

end Regtest

open Regtest in
/-- The expansion and the delegation whose staking output it spends are both active. -/
theorem expansion_and_previous_active : ∃ c d e p, (chain env).Reachable c ∧
    c.stores.stk.btcDelegations.get (txHash expansionTx) = some d ∧ d.stkExp = some e ∧
    c.stores.stk.btcDelegations.get e.previousStakingTxHash = some p ∧ d.hasInclusionProof = true ∧
    p.isUnbondedEarly = false ∧
    c.stores.stk.btcDelStatus d stkParams.covenantQuorum 102 = .ok .ACTIVE ∧
    c.stores.stk.btcDelStatus p stkParams.covenantQuorum 102 = .ok .ACTIVE := by
  have hr : holds (deliverAll env (genesis 1) misnamedExpansion) (fun c =>
      (c.stores.stk.btcDelegations.get (txHash expansionTx)).any (fun d => d.stkExp.any (fun e =>
        (c.stores.stk.btcDelegations.get e.previousStakingTxHash).any (fun p =>
          d.hasInclusionProof && !p.isUnbondedEarly &&
            holds (c.stores.stk.btcDelStatus d stkParams.covenantQuorum 102) (· == .ACTIVE) &&
            holds (c.stores.stk.btcDelStatus p stkParams.covenantQuorum 102) (· ==
              .ACTIVE))))) = true := by
    decide +kernel
  obtain ⟨c,hc,ht⟩ := holds_iff.mp hr
  simp only [any_eq_true,and_eq_true,not_eq_true',holds_iff,beq_iff_eq] at ht
  obtain ⟨d,hd,e,he,p,hp,⟨⟨hi,hu⟩,_,hs,rfl⟩,_,hs',rfl⟩ := ht
  exact ⟨c,d,e,p,reachable_deliverAll (.init genesis_init) hc,hd,he,hp,hi,hu,hs,hs'⟩

def Regtest.namesPrevious (c : Chain) (a : Action) (_ : Chain) : Bool :=
  match a with
  | .stk (.btcUndelegate m) =>
    (c.stores.stk.btcDelegations.get (txHash m.stakeSpendingTx)).all (fun exp =>
      exp.stkExp.all (fun e => m.stakingTxHash = e.previousStakingTxHash))
  | _ => true

theorem Regtest.namesPrevious_spec (c : Chain) (a : Action) (c' : Chain)
    (h : namesPrevious c a c' = true) : NamedExpansions env c a c' := by
  rintro m rfl _ exp e hep he
  simp only [namesPrevious,all_eq_true,decide_eq_true_eq] at h
  exact h exp hep e he

open Regtest in
theorem expansion_unbonds_previous_reported : ∃ c d e p,
    ((chain env).restrict (NamedExpansions env)).Reachable c ∧
    c.stores.stk.btcDelegations.get (txHash expansionTx) = some d ∧ d.stkExp = some e ∧
    d.hasInclusionProof = true ∧ c.stores.stk.btcDelegations.get e.previousStakingTxHash = some p ∧
    p.btcUndelegation.delegatorUnbondingInfo ≠ none := by
  have hrn : holds (([Regtest.beginBlock 1] ++ join 1 10 ++ [expand,sign expansionTx (some []),
      .insertHeaders ⟨some [],[btcHeader 101 102 1]⟩,reportExpansion (stakingTx 10 1 [])]).foldlM
        (deliverChecked env namesPrevious) (genesis 1)) (fun c =>
      (c.stores.stk.btcDelegations.get (txHash expansionTx)).any (fun d =>
        d.hasInclusionProof && d.stkExp.isSome)) = true := by decide +kernel
  obtain ⟨c,hr,ht⟩ := reachable_deliverChecked namesPrevious_spec (.init genesis_init) hrn
  simp only [any_eq_true,and_eq_true,isSome_iff_exists] at ht
  obtain ⟨d,hd,hi,e,he⟩ := ht
  obtain ⟨p,_,hp,_,_,hu,_⟩ := expansion_unbonds_previous hr hd he
  exact ⟨c,d,e,p,hr,hd,he,hi,hp,hu hi⟩

end AnonChain
