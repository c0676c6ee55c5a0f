import AnonChain.BtcStaking.Providers
import AnonChain.Regtest

/-! The commission of a finality provider over time. -/

namespace AnonChain.BtcStaking

open Lib Relation
open AnonChain.Regtest (genesis bytes stk)

structure Moment where
  state : State
  time : Nat

/-- Messages that edit the provider `pk`. Whatever else happens keeps the commission. -/
inductive EditStep (pk : BIP340PubKey) (m : Moment) : Moment → Prop where
  | edit {ctx : Ctx} {msg : MsgEditFinalityProvider} {s : State} (key : msg.btcPk = pk)
      (time : m.time ≤ ctx.header.time) (run : editFinalityProvider m.state ctx msg = .ok s) :
      EditStep pk m ⟨s,ctx.header.time⟩
  | other {m' : Moment} (time : m.time ≤ m'.time)
      (kept : ∀ fp, m.state.finalityProviders.get pk = some fp →
        ∃ fp', m'.state.finalityProviders.get pk = some fp' ∧
        fp'.btcPk = fp.btcPk ∧ fp'.commission = fp.commission ∧
        fp'.commissionInfo = fp.commissionInfo) :
      EditStep pk m m'

def EditRun (pk : BIP340PubKey) : Moment → Moment → Prop := ReflTransGen (EditStep pk)

variable {pk : BIP340PubKey} {rates : CommissionRates} {start : Nat} {m m' : Moment}
  {fp : FinalityProvider}

/-- What a change of the commission may be after a time. -/
def CommissionRates.allowed (rates : CommissionRates) (time : Nat) : Int :=
  rates.maxChangeRate*(1+(time/commissionUpdateInterval : Nat))

theorem CommissionRates.allowed_mono (h : 0 ≤ rates.maxChangeRate) {a b : Nat} (ha : a ≤ b) :
    rates.allowed a ≤ rates.allowed b := by
  have := Nat.div_le_div_right (c := commissionUpdateInterval) ha
  exact mul_le_mul_of_nonneg_left (by omega) h

theorem CommissionRates.allowed_add (rates : CommissionRates) (a : Nat) :
    rates.allowed (a+commissionUpdateInterval) = rates.allowed a+rates.maxChangeRate := by
  have hp : 0 < commissionUpdateInterval := by decide
  simp only [allowed,Nat.add_div_right _ hp,Nat.cast_succ,← add_assoc,mul_add,mul_one]

/-- The provider at a moment, when its commission was `rates.rate` at the moment `start`. -/
structure Promised (pk : BIP340PubKey) (rates : CommissionRates) (start : Nat) (m : Moment)
    (fp : FinalityProvider) : Prop where
  stored : m.state.finalityProviders.get pk = some fp
  btcPk : fp.btcPk = pk
  info : fp.commissionInfo = ⟨rates.maxRate,rates.maxChangeRate,fp.commissionInfo.updateTime⟩
  within : fp.commission ≤ rates.maxRate
  started : start ≤ m.time
  updated : fp.commissionInfo.updateTime ≤ m.time
  change : fp.commission = rates.rate ∨ start ≤ fp.commissionInfo.updateTime ∧
    (fp.commission-rates.rate).natAbs ≤ rates.allowed (fp.commissionInfo.updateTime-start)

theorem Promised.update (h : Promised pk rates start m fp) (hC : 0 ≤ rates.maxChangeRate)
    {ctx : Ctx} {c : Int} {s : State}
    (ht : m.time ≤ ctx.header.time)
    (hdy : fp.commissionInfo.updateTime+commissionUpdateInterval ≤ ctx.header.time)
    (hm : c ≤ fp.commissionInfo.maxRate)
    (hd : (c-fp.commission).natAbs ≤ fp.commissionInfo.maxChangeRate)
    (hs : s.finalityProviders.get pk = some { fp with
      commission := c, commissionInfo :=
  { fp.commissionInfo with updateTime := ctx.header.time } }) :
    ∃ fp', Promised pk rates start ⟨s,ctx.header.time⟩ fp' := by
  rw [h.info] at hm hd
  dsimp only at hm hd
  have hst := h.started.trans ht
  refine ⟨_,hs,h.btcPk,by rw [h.info],hm,hst,le_refl _,.inr ⟨hst,?_⟩⟩
  dsimp only
  cases h.change with
  | inl _ =>
    have ho : rates.allowed 0 = rates.maxChangeRate := by simp [CommissionRates.allowed]
    have hl := CommissionRates.allowed_mono hC (Nat.zero_le (ctx.header.time-start))
    omega
  | inr hc =>
    have hl : rates.allowed (fp.commissionInfo.updateTime-start+commissionUpdateInterval) ≤
        rates.allowed (ctx.header.time-start) := CommissionRates.allowed_mono hC (by omega)
    rw [rates.allowed_add] at hl
    omega

theorem Promised.step (h : Promised pk rates start m fp) (hC : 0 ≤ rates.maxChangeRate)
    (hst : EditStep pk m m') : ∃ fp', Promised pk rates start m' fp' := by
  cases hst with
  | other time kept =>
    obtain ⟨fp',hf',hp,hr,hi⟩ := kept fp h.stored
    refine ⟨fp',hf',hp.trans h.btcPk,?_,hr ▸ h.within,h.started.trans time,?_,?_⟩
    · rw [hi,← h.info]
    · exact hi ▸ h.updated.trans time
    · rw [hr,hi]
      exact h.change
  | @edit _ msg s key time run =>
    simp only [editFinalityProvider,State.getFinalityProvider,ok_iff,key,h.stored,
      Option.some.injEq] at run
    obtain ⟨_,_,_,rfl,_,fp',hu,rfl⟩ := run
    have hs : ∀ fp' : FinalityProvider, fp'.btcPk = pk →
        (m.state.setFinalityProvider fp').finalityProviders.get pk = some fp' := by
      rintro fp' rfl
      exact KVStore.get_set_self _ _ _
    cases hc : msg.commission with
    | none =>
      simp only [hc,updateFinalityProviderCommission,Except.ok.injEq] at hu
      subst hu
      exact ⟨fp,hs fp h.btcPk,h.btcPk,h.info,h.within,h.started.trans time,
        h.updated.trans time,h.change⟩
    | some c =>
      simp only [hc,updateFinalityProviderCommission,ok_iff] at hu
      obtain ⟨_,hdy,_,_,_,hm,hd,rfl⟩ := hu
      exact h.update hC time hdy hm hd (hs _ h.btcPk)

theorem Promised.run (h : Promised pk rates start m fp) (hC : 0 ≤ rates.maxChangeRate)
    (hr : EditRun pk m m') : ∃ fp', Promised pk rates start m' fp' := by
  induction hr with
  | refl => exact ⟨fp,h⟩
  | tail _ hs ih =>
    obtain ⟨fp',hf'⟩ := ih
    exact hf'.step hC hs

theorem Promised.bounded (h : Promised pk rates start m fp) (hC : 0 ≤ rates.maxChangeRate) :
    (fp.commission-rates.rate).natAbs ≤ rates.allowed (m.time-start) := by
  have hu := h.updated
  cases h.change with
  | inl hs =>
    have hp : 0 ≤ rates.allowed (m.time-start) := mul_nonneg hC (by positivity)
    simpa [hs] using hp
  | inr hc => exact hc.2.trans (CommissionRates.allowed_mono hC (by omega))

/-- The commission stays within the maximum, and between two moments it changes by at most the
maximum change once, and once more for every day between them. -/
theorem commission_promises {E : Env} {s₀ s : State} {ctx : Ctx}
    {msg : MsgCreateFinalityProvider} {m m' : Moment}
    (hcreate : createFinalityProvider E s₀ ctx msg = .ok s)
    (hrun : EditRun msg.btcPk ⟨s,ctx.header.time⟩ m) (hrun' : EditRun msg.btcPk m m') :
    ∃ fp fp', m.state.finalityProviders.get msg.btcPk = some fp ∧
      m'.state.finalityProviders.get msg.btcPk = some fp' ∧ fp.commission ≤ msg.commission.maxRate ∧
      (fp'.commission-fp.commission).natAbs ≤
        msg.commission.maxChangeRate*(1+((m'.time-m.time)/commissionUpdateInterval : Nat)) := by
  simp only [createFinalityProvider,CommissionRates.validate,ok_iff] at hcreate
  obtain ⟨⟨_,_,_,hl,hC,_⟩,_,addr,_,_,params,_,_,_,_,_,hs⟩ := hcreate
  obtain ⟨_,hc⟩ : ∃ fp, Promised msg.btcPk msg.commission ctx.header.time
      ⟨s,ctx.header.time⟩ fp := by
    subst hs
    refine ⟨_,KVStore.get_set_self _ _ _,?_,?_,?_,?_,?_,.inl ?_⟩
    exacts [rfl,rfl,hl,le_refl _,le_refl _,rfl]
  obtain ⟨fp,hf⟩ := hc.run hC hrun
  -- the same run again, with the commission of the first moment
  have hst : Promised msg.btcPk { msg.commission with rate := fp.commission } m.time m fp :=
    ⟨hf.stored,hf.btcPk,hf.info,hf.within,le_refl _,hf.updated,.inl rfl⟩
  obtain ⟨fp',hf'⟩ := hst.run hC hrun'
  exact ⟨fp,fp',hf.stored,hf'.stored,hf.within,hf'.bounded hC⟩

def regtestDay : Ctx := { (genesis 1).ctx with header := ⟨2,commissionUpdateInterval,[]⟩ }

def regtestCreate : MsgCreateFinalityProvider := ⟨some [1],⟨10,100,5⟩,bytes 1,[]⟩

/-- A commission of 10 is raised to 15 a day after the creation. -/
theorem commission_promises_day :
    ∃ s s', createFinalityProvider stk (genesis 1).stores.stk (genesis 1).ctx regtestCreate =
      .ok s ∧ editFinalityProvider s regtestDay ⟨some [1],bytes 1,some 15⟩ = .ok s' ∧
      ∃ fp fp', s.finalityProviders.get (bytes 1) = some fp ∧
      s'.finalityProviders.get (bytes 1) = some fp' ∧
        fp.commission ≤ 100 ∧
        (fp'.commission-fp.commission).natAbs ≤
          (5 : Int)*(1+(commissionUpdateInterval/commissionUpdateInterval : Nat)) := by
  have hr : (createFinalityProvider stk (genesis 1).stores.stk (genesis 1).ctx regtestCreate >>=
      fun s => editFinalityProvider s regtestDay ⟨some [1],bytes 1,some 15⟩).isOk =
        true := by decide +kernel
  obtain ⟨s',hb⟩ := isOk_iff.mp hr
  obtain ⟨s,hs,hs'⟩ := bind_eq_ok.mp hb
  have he := @EditStep.edit _ ⟨s,0⟩ regtestDay ⟨some [1],bytes 1,some 15⟩ s' rfl (Nat.zero_le _) hs'
  exact ⟨s,s',hs,hs',commission_promises hs .refl (.single he)⟩

end AnonChain.BtcStaking
