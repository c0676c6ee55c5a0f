import AnonChain.BtcStaking.Registry
import AnonChain.Steps

/-! The steps of the chain sorted by what they do to the staking module. -/

namespace AnonChain

open Lib
open BtcStaking (Ctx FpSteps DelStep Records Registry Extends Amends State)
open Finality (Stores Env)

def Action.shown : Action → BtcStaking.Shown
  | .stk (.addBTCDelegationInclusionProof m) => m.shown
  | .stk (.btcUndelegate m) => m.shown
  | _ => ⟨[],[]⟩

inductive StakingEffect (E : Env) (ctx : Ctx) (a : Action) (s s' : State) : Prop where
  | providers (steps : FpSteps ctx s s')
  | message (step : DelStep E.stk ctx a.shown s s')
  | reorg {r : Option BtcStaking.LargestBtcReOrg} (eq : s' = { s with largestBtcReorg := r })

/-- A block begins, or the staking module is written under the header of the block. -/
inductive StakingStep (E : Env) (c : Chain) (a : Action) : Chain → Prop where
  | beginBlock {time : Nat} {appHash : Bytes} {ctx : Ctx} {stores : Stores}
      (idle : c.inBlock = false) (ctx_eq : ctx = c.nextCtx time appHash)
      (run : c.beginBlocker ctx = .ok stores) :
      StakingStep E c a ⟨ctx,true,stores⟩
  | within {c' : Chain} (header : c'.ctx.header = c.ctx.header)
      (still : c'.inBlock = true → c.inBlock = true)
      (busy : c'.stores.stk = c.stores.stk ∨ c.inBlock = true)
      (effect : StakingEffect E c.ctx a c.stores.stk c'.stores.stk) : StakingStep E c a c'

section

variable {E : Env} {c c' : Chain} {a : Action}

theorem handleStk_effect {ctx : Ctx} {s s' : State} {msg : StkMsg}
    (h : handleStk E s ctx msg = .ok s') : StakingEffect E ctx (.stk msg) s s' := by
  cases msg with
  | createFinalityProvider m => exact .providers (BtcStaking.createFinalityProvider_step h).steps
  | editFinalityProvider m => exact .providers (BtcStaking.editFinalityProvider_step h).steps
  | selectiveSlashingEvidence m =>
    exact .providers (BtcStaking.selectiveSlashingEvidence_step h).steps
  | createBTCDelegation m =>
    obtain ⟨d,hn,rfl⟩ := BtcStaking.createBTCDelegation_spec h
    exact .message (.create hn)
  | btcStakeExpand m =>
    obtain ⟨d,hn,rfl⟩ := BtcStaking.btcStakeExpand_spec h
    exact .message (.create hn)
  | addBTCDelegationInclusionProof m =>
    exact .message (BtcStaking.addBTCDelegationInclusionProof_step h)
  | addCovenantSigs m => exact .message (BtcStaking.addCovenantSigs_step h)
  | btcUndelegate m => exact .message (BtcStaking.btcUndelegate_step h)
  | updateParams m => exact .message (BtcStaking.updateParams_step h)

theorem handleFin_stk {ctx : Ctx} {s s' : Stores} {msg : FinMsg}
    (h : handleFin E s ctx msg = .ok s') : FpSteps ctx s.stk s'.stk := by
  cases msg with
  | addFinalitySig m =>
    obtain ⟨v,block,cm,_,he⟩ := Finality.addFinalitySig_effect h
    exact he.providers
  | commitPubRandList m =>
    obtain ⟨pk,cm,he⟩ := Finality.commitPubRandList_effect h
    rw [he.stk]
    exact .refl
  | unjailFinalityProvider m =>
    simp only [handleFin,Finality.unjailFinalityProvider,ok_iff] at h
    obtain ⟨_,_,_,_,_,_,_,stk,hs,rfl⟩ := h
    exact (BtcStaking.unjailFinalityProvider_step hs).steps
  | updateParams m =>
    simp only [handleFin,ok_iff] at h
    obtain ⟨fin,_,rfl⟩ := h
    exact .refl
  | resumeFinalityProposal m => exact (Finality.resumeFinalityProposal_effect h).stk

theorem deliver_stakingStep (hk : c.stores.fin.BlocksKeyed) (h : deliver E c a = .ok c') :
    StakingStep E c a c' := by
  cases deliver_cases h with
  | beginBlock idle ctx_eq run => exact .beginBlock idle ctx_eq run
  | endBlock busy _ run =>
    exact .within rfl (fun _ => busy) (.inr busy)
      (.providers (Finality.endBlocker_effect hk run).stk)
  | environment header => exact .within header id (.inl rfl) (.providers .refl)
  | insertHeaders busy => exact .within rfl id (.inr busy) (.reorg rfl)
  | stk busy run => exact .within rfl id (.inr busy) (handleStk_effect run)
  | fin busy run => exact .within rfl id (.inr busy) (.providers (handleFin_stk run))

theorem StakingEffect.records {ctx : Ctx} {s s' : State} (h : StakingEffect E ctx a s s') :
    ∃ new, Records ctx s s' new := by
  cases h with
  | providers steps =>
    obtain ⟨new,hn,_⟩ := FpSteps.records steps
    exact ⟨new,hn⟩
  | message step => exact step.records
  | reorg eq =>
    subst eq
    exact ⟨[],.nothing rfl rfl rfl⟩

end

section

variable {E : Env} {c c' : Chain} {a : Action}

theorem StakingEffect.registry {ctx : Ctx} {s s' : State} (h : StakingEffect E ctx a s s')
    (hr : Registry E.stk s) : Extends s s' ∧ Registry E.stk s' := by
  cases h with
  | providers steps =>
    have ha := FpSteps.amends steps
    exact ⟨ha.toExtends,hr.amends ha⟩
  | message step => exact step.registry hr
  | reorg eq =>
    have ha : Amends s s' := .of_eq (by rw [eq]) (by rw [eq])
      (fun _ fp h => ⟨fp,by rw [eq]; exact h⟩)
    exact ⟨ha.toExtends,hr.amends ha⟩

theorem beginBlock_frame {ctx : Ctx} {s : State} {fin : Finality.State} {stores : Stores}
    (run : Finality.updatePowerDist ⟨s.indexBTCHeight ctx,fin⟩ ctx = .ok stores) :
    stores.stk.btcDelegations = s.btcDelegations ∧ stores.stk.params = s.params ∧
      stores.stk.finalityProviders = s.finalityProviders := by
  obtain ⟨_,_,_,_,_,_,_,_,_,he⟩ := Finality.updatePowerDist_effect run
  have hi : (s.indexBTCHeight ctx).btcDelegations = s.btcDelegations ∧
      (s.indexBTCHeight ctx).params = s.params ∧
      (s.indexBTCHeight ctx).finalityProviders = s.finalityProviders := by
    unfold State.indexBTCHeight
    split <;> exact ⟨rfl,rfl,rfl⟩
  rw [he.stk]
  exact hi

theorem deliver_frame (hk : c.stores.fin.BlocksKeyed) (h : deliver E c a = .ok c')
    (hn : ∀ msg, a ≠ .stk msg) : c'.stores.stk.btcDelegations = c.stores.stk.btcDelegations ∧
      c'.stores.stk.params = c.stores.stk.params := by
  cases deliver_cases h with
  | stk => exact absurd rfl (hn _)
  | fin _ run => exact FpSteps.frame (handleFin_stk run)
  | beginBlock _ _ run => exact ⟨(beginBlock_frame run).1,(beginBlock_frame run).2.1⟩
  | endBlock _ _ run => exact FpSteps.frame (Finality.endBlocker_effect hk run).stk
  | environment => exact ⟨rfl,rfl⟩
  | insertHeaders => exact ⟨rfl,rfl⟩

theorem StakingStep.registry (h : StakingStep E c a c') (hr : Registry E.stk c.stores.stk) :
    Extends c.stores.stk c'.stores.stk ∧ Registry E.stk c'.stores.stk := by
  cases h with
  | beginBlock _ _ run =>
    obtain ⟨hd,hp,hf⟩ := beginBlock_frame run
    have ha : Amends c.stores.stk _ := .of_eq hp hd (fun _ fp h => ⟨fp,by rw [hf]; exact h⟩)
    exact ⟨ha.toExtends,hr.amends ha⟩
  | within _ _ _ effect => exact effect.registry hr

theorem registry (h : (chain E).Reachable c) : Registry E.stk c.stores.stk := by
  refine h.invariant (P := fun c => Registry E.stk c.stores.stk) ?_ ?_
  · intro c (hg : Genesis E c)
    exact ⟨by simp [hg.noDelegations],hg.stkParams⟩
  · rintro c a c' hrc hr (ho | ⟨_,_,rfl⟩)
    · exact ((deliver_stakingStep (baseInv hrc).blocks ho).registry hr).2
    · exact hr

end

variable {E : Env} {c c' : Chain}

theorem deliver_btclc {a : Action} (h : deliver E c a = .ok c') : c'.ctx.btclc = c.ctx.btclc ∨
    ∃ msg rb, BtcLightClient.insertHeaders E.stk.btc c.ctx.btclc msg = .ok (c'.ctx.btclc,rb) := by
  cases deliver_cases h with
  | beginBlock _ ctx_eq =>
    rw [ctx_eq]
    exact .inl rfl
  | endBlock => exact .inl rfl
  | environment _ btclc => exact .inl btclc
  | insertHeaders _ run => exact .inr ⟨_,_,run⟩
  | stk => exact .inl rfl
  | fin => exact .inl rfl

theorem btclc_wf (h : (chain E).Reachable c) : c.ctx.btclc.WF := by
  refine h.invariant (P := fun c => c.ctx.btclc.WF) (fun _ (hg : Genesis E _) => hg.btclc) ?_
  rintro c a c' _ hw (ho | ⟨_,_,rfl⟩)
  · rcases deliver_btclc ho with he | ⟨msg,rb,hr⟩
    · rw [he]
      exact hw
    · exact BtcLightClient.insertHeaders_wf hw hr
  · exact hw

end AnonChain
