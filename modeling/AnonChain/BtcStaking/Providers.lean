import AnonChain.BtcStaking.MsgServer

/-! What a handler can do to a finality provider, as steps on the provider store. -/

namespace AnonChain.BtcStaking

open Lib Relation KVStore State
open BtcLightClient (BTCHeaderInfo)

inductive FpStep (ctx : Ctx) (s : State) : State → Prop where
  | register {fp : FinalityProvider} {addrs : List AccAddress}
      (fresh : s.finalityProviders.get fp.btcPk = none) (clean : fp.isSlashed = false) :
      FpStep ctx s ({ s with fpAncAddr := addrs }.setFinalityProvider fp)
  | edit {pk : BIP340PubKey} {fp fp' : FinalityProvider}
      (found : s.finalityProviders.get pk = some fp) (btcPk : fp'.btcPk = fp.btcPk)
      (slashed : fp'.isSlashed = fp.isSlashed) (jailed : fp'.jailed = fp.jailed) :
      FpStep ctx s (s.setFinalityProvider fp')
  | slash {pk : BIP340PubKey} {fp fp' : FinalityProvider} {tip : BTCHeaderInfo}
      (found : s.finalityProviders.get pk = some fp) (clean : fp.isSlashed = false)
      (htip : ctx.btclc.getTip = some tip) (btcPk : fp'.btcPk = fp.btcPk)
      (height : fp'.slashedAnonHeight = ctx.header.height) :
      FpStep ctx s ((s.setFinalityProvider fp').addPowerDistUpdateEvent ctx.header.height tip.height
        (.slashedFp fp.btcPk))
  | jail {pk : BIP340PubKey} {fp : FinalityProvider} {tip : BTCHeaderInfo}
      (found : s.finalityProviders.get pk = some fp) (clean : fp.isSlashed = false)
      (htip : ctx.btclc.getTip = some tip) :
      FpStep ctx s ((s.setFinalityProvider { fp with jailed := true }).addPowerDistUpdateEvent
        ctx.header.height tip.height (.jailedFp fp.btcPk))
  | unjail {pk : BIP340PubKey} {fp : FinalityProvider} {tip : BTCHeaderInfo}
      (found : s.finalityProviders.get pk = some fp) (clean : fp.isSlashed = false)
      (htip : ctx.btclc.getTip = some tip) :
      FpStep ctx s ((s.setFinalityProvider { fp with jailed := false }).addPowerDistUpdateEvent
        ctx.header.height tip.height (.unjailedFp fp.btcPk))

def FpSteps (ctx : Ctx) : State → State → Prop := ReflTransGen (FpStep ctx)

section

variable {E : Env} {ctx : Ctx} {s s' : State} {pk : BIP340PubKey}

theorem slashFinalityProvider_step (h : s.slashFinalityProvider ctx pk = .ok s') :
    FpStep ctx s s' ∧ ∃ fp, s'.finalityProviders.get fp.btcPk = some fp ∧
      fp.slashedAnonHeight = ctx.header.height ∧
      ∃ fp₀, s.finalityProviders.get pk = some fp₀ ∧ fp.btcPk = fp₀.btcPk := by
  simp only [slashFinalityProvider,getFinalityProvider,ok_iff] at h
  obtain ⟨fp,hf,hc,tip,ht,rfl⟩ := h
  refine ⟨.slash hf hc ht rfl rfl,
    { fp with slashedAnonHeight := ctx.header.height, slashedBtcHeight := tip.height },?_,rfl,
    fp,hf,rfl⟩
  exact get_set_self _ _ _

theorem jailFinalityProvider_step (h : s.jailFinalityProvider ctx pk = .ok s') :
    FpStep ctx s s' := by
  simp only [jailFinalityProvider,getFinalityProvider,ok_iff] at h
  obtain ⟨fp,hf,hc,_,tip,ht,rfl⟩ := h
  exact .jail hf hc ht

theorem unjailFinalityProvider_step (h : s.unjailFinalityProvider ctx pk = .ok s') :
    FpStep ctx s s' := by
  simp only [unjailFinalityProvider,getFinalityProvider,ok_iff] at h
  obtain ⟨fp,hf,hc,_,tip,ht,rfl⟩ := h
  exact .unjail hf hc ht

theorem createFinalityProvider_step {msg : MsgCreateFinalityProvider}
    (h : createFinalityProvider E s ctx msg = .ok s') : FpStep ctx s s' := by
  simp only [createFinalityProvider,ok_iff] at h
  obtain ⟨_,_,_,addr,_,_,params,_,_,_,_,hf,rfl⟩ := h
  exact .register (has_eq_false.mp hf) rfl

theorem updateFinalityProviderCommission_spec {c : Option Int} {fp fp' : FinalityProvider}
    (h : updateFinalityProviderCommission s ctx c fp = .ok fp') :
    fp'.btcPk = fp.btcPk ∧ fp'.isSlashed = fp.isSlashed ∧ fp'.jailed = fp.jailed := by
  cases c with
  | none =>
    simp only [updateFinalityProviderCommission,Except.ok.injEq] at h
    subst h
    exact ⟨rfl,rfl,rfl⟩
  | some c =>
    simp only [updateFinalityProviderCommission,ok_iff] at h
    obtain ⟨_,_,_,_,_,_,_,rfl⟩ := h
    exact ⟨rfl,rfl,rfl⟩

theorem editFinalityProvider_step {msg : MsgEditFinalityProvider}
    (h : editFinalityProvider s ctx msg = .ok s') : FpStep ctx s s' := by
  simp only [editFinalityProvider,getFinalityProvider,ok_iff] at h
  obtain ⟨addr,_,fp,hf,_,fp',hu,rfl⟩ := h
  obtain ⟨hp,hs,hj⟩ := updateFinalityProviderCommission_spec hu
  exact .edit hf hp hs hj

theorem selectiveSlashingEvidence_step {msg : MsgSelectiveSlashingEvidence}
    (h : selectiveSlashingEvidence E s ctx msg = .ok s') : FpStep ctx s s' :=
  (slashFinalityProvider_step h).1

end

def State.FpKeyed (s : State) : Prop :=
  ∀ pk fp, s.finalityProviders.get pk = some fp → fp.btcPk = pk

def State.isSlashedFp (s : State) (pk : BIP340PubKey) : Prop :=
  ∃ fp, s.finalityProviders.get pk = some fp ∧ fp.isSlashed = true

variable {ctx : Ctx} {s s' : State} {pk : BIP340PubKey}

theorem FpStep.write (h : FpStep ctx s s') : ∃ fp', s'.finalityProviders =
    s.finalityProviders.set fp'.btcPk fp' ∧ s'.btcDelegations = s.btcDelegations ∧
      s'.params = s.params ∧ s'.heightToVersionMap = s.heightToVersionMap ∧
      s'.btcHeights = s.btcHeights ∧
      (∀ fp, s.FpKeyed → s.finalityProviders.get fp'.btcPk = some fp → fp.isSlashed = true →
        fp'.isSlashed = true) := by
  have hky : ∀ {pk : BIP340PubKey} {fp fp₀ : FinalityProvider}, s.FpKeyed →
      s.finalityProviders.get pk = some fp → s.finalityProviders.get fp.btcPk = some fp₀ →
      fp₀ = fp := by
    intro pk fp fp₀ hk hf h0
    rw [hk pk fp hf,hf] at h0
    exact (Option.some.inj h0).symm
  cases h with
  | @register fp _ fresh _ =>
    refine ⟨fp,rfl,rfl,rfl,rfl,rfl,?_⟩
    intro fp₀ _ h0 _
    rw [fresh] at h0
    exact absurd h0 (by simp)
  | @edit pk fp fp' found btcPk slashed _ =>
    refine ⟨fp',rfl,rfl,rfl,rfl,rfl,?_⟩
    intro fp₀ hk h0 hs
    rw [btcPk] at h0
    rw [slashed,← hky hk found h0]
    exact hs
  | @slash pk fp fp' _ found clean ht btcPk _ =>
    refine ⟨fp',rfl,rfl,rfl,rfl,rfl,?_⟩
    intro fp₀ hk h0 hs
    rw [btcPk] at h0
    rw [hky hk found h0,clean] at hs
    exact absurd hs (by simp)
  | @jail pk fp _ found clean ht =>
    refine ⟨{ fp with jailed := true },rfl,rfl,rfl,rfl,rfl,?_⟩
    intro fp₀ hk h0 hs
    rw [hky hk found h0,clean] at hs
    exact absurd hs (by simp)
  | @unjail pk fp _ found clean ht =>
    refine ⟨{ fp with jailed := false },rfl,rfl,rfl,rfl,rfl,?_⟩
    intro fp₀ hk h0 hs
    rw [hky hk found h0,clean] at hs
    exact absurd hs (by simp)

theorem FpStep.keyed (h : FpStep ctx s s') (hk : s.FpKeyed) : s'.FpKeyed := by
  obtain ⟨fp',he,_⟩ := h.write
  rw [State.FpKeyed,he]
  exact forall_set rfl hk

theorem FpStep.slashed (h : FpStep ctx s s') (hk : s.FpKeyed) (hs : s.isSlashedFp pk) :
    s'.isSlashedFp pk := by
  obtain ⟨fp',he,_,_,_,_,hkp⟩ := h.write
  obtain ⟨fp,hf,hsl⟩ := hs
  by_cases hp : pk = fp'.btcPk
  · subst hp
    exact ⟨fp',by rw [he,get_set_self],hkp fp hk hf hsl⟩
  · exact ⟨fp,by rw [he,get_set_ne _ _ hp]; exact hf,hsl⟩

theorem FpSteps.frame (h : FpSteps ctx s s') :
    s'.btcDelegations = s.btcDelegations ∧ s'.params = s.params := by
  induction h with
  | refl => exact ⟨rfl,rfl⟩
  | tail _ hs ih =>
    obtain ⟨_,_,hd,hp,_⟩ := hs.write
    rw [hd,hp]
    exact ih

theorem FpSteps.delegations (h : FpSteps ctx s s') : s'.btcDelegations = s.btcDelegations :=
  (FpSteps.frame h).1

theorem FpSteps.keyed (h : FpSteps ctx s s') (hk : s.FpKeyed) : s'.FpKeyed := by
  induction h with
  | refl => exact hk
  | tail _ hs ih => exact hs.keyed ih

theorem FpSteps.slashed (h : FpSteps ctx s s') (hk : s.FpKeyed) (hs : s.isSlashedFp pk) :
    s'.isSlashedFp pk := by
  induction h with
  | refl => exact hs
  | tail hst hsp ih => exact hsp.slashed (FpSteps.keyed hst hk) ih

theorem FpStep.steps (h : FpStep ctx s s') : FpSteps ctx s s' := ReflTransGen.single h

theorem slashFinalityProvider_slashed (hk : s.FpKeyed) (hps : 0 < ctx.header.height)
    (h : s.slashFinalityProvider ctx pk = .ok s') : s'.isSlashedFp pk := by
  obtain ⟨_,fp,hg,hh,fp₀,h0,hpk⟩ := slashFinalityProvider_step h
  have hp : fp.btcPk = pk := hpk.trans (hk pk fp₀ h0)
  refine ⟨fp,by rw [← hp]; exact hg,?_⟩
  simp [FinalityProvider.isSlashed,hh,hps]

end AnonChain.BtcStaking
