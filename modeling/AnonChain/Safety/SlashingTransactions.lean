import AnonChain.BtcStaking.Regtest
import AnonChain.StakingSteps

/-! The slashing transactions of a delegation with a covenant quorum can be completed by every
finality provider it names. -/

namespace AnonChain

open Lib StakingLib Adaptor Regtest BtcStaking
open BtcStaking (Reached BTCDelegation Params)

section

variable {E : Finality.Env} {c c' : Chain}

theorem handleStk_reached {s s' : BtcStaking.State} {ctx : BtcStaking.Ctx} {msg : StkMsg}
    (hr : Reached E.stk s) (h : handleStk E s ctx msg = .ok s') : Reached E.stk s' := by
  have hpr : ∀ {t : BtcStaking.State}, BtcStaking.FpStep ctx s t → Reached E.stk t := by
    intro t hs
    obtain ⟨hd,hp⟩ := BtcStaking.FpSteps.frame hs.steps
    exact hr.other hd hp
  cases msg with
  | createFinalityProvider m => exact hpr (createFinalityProvider_step h)
  | editFinalityProvider m => exact hpr (editFinalityProvider_step h)
  | selectiveSlashingEvidence m => exact hpr (selectiveSlashingEvidence_step h)
  | createBTCDelegation m =>
    simp only [handleStk,createBTCDelegation,bind_eq_ok] at h
    obtain ⟨pm,hpm,h⟩ := h
    exact hr.create (parse_parsedKeys hpm) h
  | btcStakeExpand m =>
    obtain ⟨pm,hk,h⟩ := expand_parsedKeys h
    exact hr.create hk h
  | addBTCDelegationInclusionProof m => exact hr.prove h
  | addCovenantSigs m => exact hr.sign h
  | btcUndelegate m => exact hr.undelegate h
  | updateParams m => exact hr.updateParams h

theorem reachable_reached (h : (chain E).Reachable c) : Reached E.stk c.stores.stk := by
  refine h.invariant (P := fun c => Reached E.stk c.stores.stk) ?_ ?_
  · intro c (hg : Genesis E c)
    exact .genesis hg.noDelegations hg.stkParams
  · rintro c a c' hrc hr (ho | ⟨_,_,rfl⟩)
    · cases a with
      | stk _ =>
        obtain ⟨stk,run,rfl⟩ := deliver_stk ho
        exact handleStk_reached hr run
      | _ =>
        obtain ⟨hd,hp⟩ := deliver_frame (baseInv hrc).blocks ho (by simp)
        exact hr.other hd hp
    · exact hr

end

/-- Any finality provider's secret key completes both slashing transactions of a delegation with
a covenant quorum, and the slashing leaves of the two outputs accept the witnesses. -/
theorem slashing_completes {E : BtcStaking.Env} {B : Bitcoin} {s : BtcStaking.State}
    (h : Reached (E.withScripts B) s) {k : Hash} {d : BTCDelegation} {p : Params}
    (hd : s.btcDelegations.get k = some d) (hp : s.params.get d.paramsVersion = some p)
    {quorumPrev : Nat}
    (hquorum : d.hasCovenantQuorums p.covenantQuorum quorumPrev = true) {fp : BIP340PubKey}
    (hfp : fp ∈ d.fpBtcPkList) {sk : ZMod B.curve.n} (hsk : IsSecretKey B.curve sk fp) :
    (∃ info tx, d.getStakingInfo B p = .ok info ∧
      d.stakingTx.txOut[d.stakingOutputIdx]? = some info.output ∧
      d.buildSlashingTxWithWitness B p sk = .ok tx ∧
      ∀ age, leafAccepts B tx info.output info.paths.slashingPathScript age = true) ∧
    ∃ info tx, d.getUnbondingInfo B p = .ok info ∧
      d.btcUndelegation.unbondingTx.txOut[0]? = some info.output ∧
      d.buildUnbondingSlashingTxWithWitness B p sk = .ok tx ∧
      ∀ age, leafAccepts B tx info.output info.paths.slashingPathScript age = true := by
  obtain ⟨p',hp',hc,hs⟩ := h.contracts.delegations k d hd
  rw [hp,Option.some.injEq] at hp'
  subst hp'
  have hps := quorum_pos (h.contracts.params _ _ hp)
  have hq := hasCovenantQuorums_length hquorum
  obtain ⟨info,hi,hsl⟩ := hc.slashable hs
  obtain ⟨uinfo,hun,hu⟩ := hc.unbondingSlashable hs
  obtain ⟨tx,ht,ha⟩ := hsl.completes hps hq.1 hfp hsk
  obtain ⟨utx,hut,huc⟩ := hu.completes hps hq.2 hfp hsk
  refine ⟨⟨info,tx,hi,hsl.funding,?_,ha⟩,uinfo,utx,hun,hu.funding,?_,huc⟩
  · simp only [BTCDelegation.buildSlashingTxWithWitness,hi,Result.wrap,ok_bind,ht]
  · simp only [BTCDelegation.buildUnbondingSlashingTxWithWitness,hun,Result.wrap,ok_bind,hut]

namespace Regtest

/-- Two providers and a committee of two whose keys are not in the order of the script. -/
def bothSigned : Result BtcStaking.State := signedBy (committee [5,4] 2) [3,2] 1 [4,5]

def bothSignedTest (s : BtcStaking.State) : Bool :=
  match s.btcDelegations.get (txHash (stakeTx (committee [5,4] 2) [3,2] 1)) with
  | some d => d.hasCovenantQuorums 2 0 ∧ d.fpBtcPkList = [bytes 3,bytes 2] ∧ d.paramsVersion = 0
  | none => false

end Regtest

theorem second_provider_completes :
    ∃ (s : BtcStaking.State) (d : BTCDelegation), Reached Regtest.scripts s ∧
      s.btcDelegations.get (Regtest.txHash (Regtest.stakeTx (Regtest.committee [5,4] 2) [3,2] 1)) =
        some d ∧
      ∃ tx utx, d.buildSlashingTxWithWitness Regtest.bitcoin (Regtest.committee [5,4] 2)
          (2 : ZMod 11) = .ok tx ∧
        d.buildUnbondingSlashingTxWithWitness Regtest.bitcoin (Regtest.committee [5,4] 2)
          (2 : ZMod 11) = .ok utx := by
  obtain ⟨s,hrn,ht⟩ := holds_iff.mp
    (by decide +kernel : holds bothSigned bothSignedTest = true)
  have hr := signedBy_reached rfl (by decide +kernel) hrn
  unfold bothSignedTest at ht
  split at ht
  case h_2 => cases ht
  case h_1 d hd =>
    obtain ⟨hq,hf,hv⟩ := of_decide_eq_true ht
    have hp : s.params.get d.paramsVersion = some (committee [5,4] 2) := by
      rw [hv]
      exact signedBy_params hrn
    obtain ⟨⟨_,tx,_,_,htx,_⟩,_,utx,_,_,hu,_⟩ := slashing_completes hr hd hp hq
      (by rw [hf]; simp) secretKey_two
    exact ⟨s,d,hr,hd,tx,utx,htx,hu⟩

end AnonChain
