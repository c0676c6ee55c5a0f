import AnonChain.BtcStaking.Regtest

/-! The amounts of a stake expansion, summed up in 64 bit integers. -/

namespace AnonChain.BtcStaking

open Lib BtcLightClient StakingLib

theorem int64_eq {x : Int} (hl : -2^63 ≤ x) (hh : x < 2^63) : int64 x = x :=
  Int.bmod_eq_of_le (by omega) (by omega)

theorem foldl_int64 (outs : List TxOut) (x : Int) :
    outs.foldl (fun total out => int64 (total+out.value)) (int64 x) =
      int64 (x+(outs.map TxOut.value).sum) := by
  induction outs generalizing x with
  | nil => simp
  | cons out _ ih =>
    have hs : int64 (int64 x+out.value) = int64 (x+out.value) := Int.bmod_add_bmod ..
    rw [List.foldl_cons,hs,ih,List.map_cons,List.sum_cons,Int.add_assoc]

theorem int64_fee_pos {old funding total : Int} (hold : 0 ≤ old ∧ old < 2^63)
    (hf : 0 < funding ∧ funding < 2^63) (ht : 0 ≤ total ∧ total ≤ maxSatoshi)
    (h : 0 < int64 (int64 (old+funding)-total)) : total < old+funding := by
  simp only [maxSatoshi] at ht
  by_cases hw : old+funding < 2^63
  · rw [int64_eq (x := old+funding) (by omega) hw,int64_eq (by omega) (by omega)] at h
    omega
  · omega

theorem createBTCDelegation_sane {E : Env} {B : Bitcoin} {s s' : State} {ctx : Ctx}
    {pm : ParsedCreateDelegationMessage}
    (h : s.createBTCDelegation (E.withScripts B) ctx pm = .ok s') :
    B.checkTransactionSanity pm.stakingTx = true := by
  simp only [State.createBTCDelegation,validateParsedMessageAgainstTheParams,ok_iff] at h
  obtain ⟨_,_,_,_,_,_,_,⟨_,_,_,_,_,_,_,_,_,hs,_⟩,_⟩ := h
  obtain ⟨_,hs⟩ := isOk_iff.mp hs
  simp only [checkSlashingTxMatchFundingTx,ok_iff] at hs
  exact hs.1

/-- The outputs of an accepted expansion are worth less than the two it spends, as integers. -/
theorem stakeExpand_amounts {E : Env} {B : Bitcoin} {s s' : State} {ctx : Ctx}
    {msg : MsgBtcStakeExpand}
    (h : btcStakeExpand (E.withScripts B) s ctx msg = .ok s') {prev : BTCDelegation}
    (hprev : s.btcDelegations.get msg.previousStakingTxHash = some prev)
    (hold : prev.totalSat < 2^63) (hfunding : ∀ out ∈ msg.fundingTx.txOut, out.value < 2^63) :
    ∃ i other, msg.create.stakingTx.txIn[1]? = some i ∧
      msg.fundingTx.txOut[i.previousOutPoint.index]? = some other ∧
      (msg.create.stakingTx.txOut.map TxOut.value).sum < prev.totalSat+other.value ∧
      prev.totalSat ≤ msg.create.stakingValue := by
  simp only [btcStakeExpand,isBtcDelegationActive,State.getBTCDelWithParams,ok_iff] at h
  obtain ⟨info,⟨_,hin,_,_,_,rfl⟩,_,pm,hp,stkExp,hep,_,_,_,_,_,_,_,_,ha,_,_,_,_,_,hc⟩ := h
  obtain ⟨hd,_⟩ := getBTCDelWithParamsAux_spec hin
  rw [hprev,Option.some.injEq] at hd
  simp only [MsgBtcStakeExpand.toParsed,parseCreateDelegationMessage,ok_iff] at hp
  obtain ⟨_,⟨_,_,_,_,_,_,_,_,_,_,_,rfl⟩,e,he,rfl⟩ := hp
  cases hep
  simp only [MsgBtcStakeExpand.getStakeExpansion,ok_iff] at he
  obtain ⟨_,_,_,i,hi,_,_,other,ho,_,rfl⟩ := he
  simp only [validateStakeExpansionAmt,ok_iff,← hd,int64_eq (x := prev.totalSat)
    (by omega) (by omega)]
    at ha
  obtain ⟨hl,hps,hfe⟩ := ha
  obtain ⟨hv,hs⟩ := B.checkTransactionSanity_amount _ (createBTCDelegation_sane hc)
  have ht : 0 ≤ (msg.create.stakingTx.txOut.map TxOut.value).sum :=
    List.sum_nonneg (by simpa using hv)
  have hf := foldl_int64 msg.create.stakingTx.txOut 0
  rw [int64_eq (x := 0) (by decide) (by decide),Int.zero_add,
    int64_eq (by omega) (by simp only [maxSatoshi] at hs; omega)] at hf
  rw [hf] at hfe
  exact ⟨i,other,hi,ho,int64_fee_pos (by omega)
    ⟨hps,hfunding other (List.mem_of_getElem? ho)⟩ ⟨ht,hs⟩ hfe,hl⟩

end AnonChain.BtcStaking

namespace AnonChain.Regtest

open Lib BtcStaking
open BtcLightClient (MsgTx)

def previousTx : MsgTx := stakeTx (committee [4] 1) [2] 0

/-- The largest amount there is, so that the sum of the inputs wraps around. -/
def largeFundingTx : MsgTx := ⟨[],[⟨2^63-1,[]⟩],20⟩

def expandingTx : MsgTx :=
  { previousTx with
    txIn := [⟨⟨txHash previousTx,0⟩,[]⟩,⟨⟨txHash largeFundingTx,0⟩,[]⟩], lockTime := 8 }

def expandMsg : MsgBtcStakeExpand :=
  let pm := parsedMsg (committee [4] 1) [2] 0
  let unbondingTx : MsgTx := { pm.unbondingTx with txIn := [⟨⟨txHash expandingTx,0⟩,[]⟩] }
  ⟨{ createMsg 2 expandingTx 100 none with
      btcPk := pm.stakerPK, slashingTx := slashTx expandingTx 0 100,
      delegatorSlashingSig := pm.stakerStakingSlashingTxSig, unbondingTx,
      unbondingSlashingTx := slashTx unbondingTx 0 99,
      delegatorUnbondingSlashingSig := pm.stakerUnbondingSlashingSig },
    txHash previousTx,largeFundingTx⟩

/-- The previous delegation is signed, and active since Bitcoin height 100. -/
def activeState : Result State := do
  let s ← signedBy (committee [4] 1) [2] 0 [4]
  let d ← orFail (s.btcDelegations.get (txHash previousTx)) (.errorf "")
  pure { s with
    btcDelegations := s.btcDelegations.set (txHash previousTx)
      { d with startHeight := 100, endHeight := 150 } }

theorem stakeExpand_amounts_wrapped : ∃ s s' prev, activeState = .ok s ∧
    btcStakeExpand scripts s (genesis 3).ctx expandMsg = .ok s' ∧
    s.btcDelegations.get (txHash previousTx) = some prev ∧
      (100 : Int) < prev.totalSat+(2^63-1) := by
  have hr : holds activeState (fun s =>
      (s.btcDelegations.get (txHash previousTx)).any (fun d => d.totalSat < 2^63) &&
      (btcStakeExpand scripts s (genesis 3).ctx expandMsg).isOk) = true := by decide +kernel
  obtain ⟨s,hs,ht⟩ := holds_iff.mp hr
  rw [Bool.and_eq_true,Option.any_eq_true,isOk_iff] at ht
  obtain ⟨⟨prev,hp,hold⟩,s',hs'⟩ := ht
  obtain ⟨i,other,hi,ho,hsm,_⟩ := stakeExpand_amounts hs' hp (of_decide_eq_true hold) (by decide)
  cases hi
  cases ho
  exact ⟨s,s',prev,hs,hs',hp,hsm⟩

end AnonChain.Regtest
