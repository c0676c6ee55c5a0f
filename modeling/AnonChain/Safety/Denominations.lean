import AnonChain.Incentive.Sharing
import AnonChain.Rewards.Regtest

/-! What the gauges are credited with in each denomination. -/

namespace AnonChain.Incentive.State

open Lib Coins Bool
open Finality (VotingPowerDistCache FinalityProviderDistInfo)
open KVStore (get_set getD get_mapValues get empty)

variable {s s' : State} {fp del addr : AccAddress} {sType : StakeholderType} {r : Coins}

def credited (s : State) (sType : StakeholderType) (addr : AccAddress) (d : Denom) : Int :=
  amountOf ((s.getRewardGauge sType addr).getD newRewardGauge).coins d

theorem credited_accumulate (h : s.accumulateRewardGauge sType addr r = .ok s')
    (t : StakeholderType) (a : AccAddress) (d : Denom) : s'.credited t a d =
      s.credited t a d+if isAllPositive r = true ∧ t = sType ∧
      a = addr then amountOf r d else 0 := by
  unfold accumulateRewardGauge at h
  split at h
  case isFalse hr =>
    rw [pure_eq_ok.mp h]
    simp [hr]
  case isTrue hr =>
    simp only [RewardGauge.add,ok_iff] at h
    obtain ⟨_,⟨c,hc,rfl⟩,rfl⟩ := h
    have hs := amountOf_add hc d
    by_cases hk : t = sType ∧ a = addr
    · obtain ⟨rfl,rfl⟩ := hk
      simpa [credited,getRewardGauge,setRewardGauge,hr] using hs
    · simp [credited,getRewardGauge,setRewardGauge,get_set,hk]

/-- What is sent arrives in every denomination exactly if no entry is zero, or all are. -/
theorem credited_send_iff (hr : ∀ d, 0 ≤ amountOf r d)
    (h : (if isZero r then pure s else s.accumulateRewardGauge sType addr r) = .ok s') :
    (∀ d, s'.credited sType addr d = s.credited sType addr d+amountOf r d) ↔
      (∀ d, r.get d ≠ none → 0 < amountOf r d) ∨ ∀ d, amountOf r d = 0 := by
  by_cases hz : isZero r = true
  · rw [if_pos hz,pure_eq_ok] at h
    have ha := amountOf_of_isZero hz
    simp [← h,ha]
  rw [if_neg hz] at h
  simp only [credited_accumulate h sType addr]
  obtain ⟨d₁,hd₁⟩ := exists_pos_of_not_isZero (eq_false_iff.mpr hz) hr
  cases hp : isAllPositive r with
  | true =>
    refine iff_of_true (by simp) (.inl ?_)
    intro d hd
    rw [isAllPositive,and_eq_true,List.all_eq_true] at hp
    obtain ⟨v,hv⟩ := Option.ne_none_iff_exists'.mp hd
    simpa [amountOf,getD,hv] using hp.2 (d,v) (KVStore.mem_entries.mpr hv)
  | false =>
    rw [isAllPositive_eq_isValid (eq_false_iff.mpr hz)] at hp
    obtain ⟨d₀,hd₀⟩ := exists_zero_of_not_valid hp hr
    refine iff_of_false ?_ ?_
    · intro ha
      have := ha d₁
      simp at this
      omega
    · rintro (ha | ha)
      · simpa [amountOf,getD,hd₀] using ha d₀ (by simp [hd₀])
      · have := ha d₁
        omega

/-- The floor of the satoshis times the growth of the cumulative reward per satoshi. -/
def periodReward (starting ending : Coins) (sats : Int) (d : Denom) : Int :=
  sats*(amountOf ending d-amountOf starting d)/decimalRewards

theorem get_rewardsBetween {t : BTCDelegationRewardsTracker} {n : Nat} {starting ending : Coins}
    (hs : s.getFinalityProviderHistoricalRewards fp t.startPeriodCumulativeReward = .ok starting)
    (he : s.getFinalityProviderHistoricalRewards fp n = .ok ending)
    (h : s.calculateDelegationRewardsBetween fp t n = .ok r) (d : Denom) :
    amountOf r d = periodReward starting ending t.totalActiveSat d ∧ 0 ≤ amountOf r d ∧
      (r.get d = none ↔ amountOf ending d = amountOf starting d) := by
  simp only [calculateDelegationRewardsBetween,ok_iff,hs,he,Except.ok.injEq] at h
  obtain ⟨-,_,rfl,_,rfl,diff,hdf,-,prod,hp,hq⟩ := h
  obtain ⟨hsb,hn⟩ := amountOf_sub hdf d
  obtain ⟨hm,hmul0⟩ := amountOf_mulInt hp d
  obtain ⟨hdv,hr0⟩ := amountOf_quoInt hq d
  refine ⟨?_,hr0,?_⟩
  · rw [hdv,Int.tdiv_eq_ediv_of_nonneg hmul0,hm,hsb,periodReward,mul_comm]
  · simp only [quoInt,mulInt,sub,ok_iff,Prod.exists] at hq hp hdf
    obtain ⟨diff',_,hsf,-,rfl⟩ := hdf
    have hz : amountOf ending d = amountOf starting d ↔ amountOf diff' d = 0 := by
      rw [hsb,sub_eq_zero]
    rw [hz,(newCoins_eq_ok hq.2).1,(newCoins_eq_ok hp.2).1,get_mapValues,get_mapValues,
      amountOf,getD]
    cases hd : get _ d with
    | none => simp
    | some v => simp [get_add_ne_zero (safeSub_eq_ok hsf).1 hd]

theorem rewardsBetween_found {t : BTCDelegationRewardsTracker} {n : Nat}
    {starting ending : Coins} {m : String}
    (hs : s.getFinalityProviderHistoricalRewards fp t.startPeriodCumulativeReward = .ok starting)
    (he : s.getFinalityProviderHistoricalRewards fp n = .ok ending) :
    s.calculateDelegationRewardsBetween fp t n ≠
      .error (.err .ErrBTCDelegationRewardsTrackerNotFound m) := by
  have her : ∀ {α β : Type} {x : Result α} {k : α → Result β} {e : Failure},
      (x >>= k) = .error e ↔ x = .error e ∨ ∃ a, x = .ok a ∧ k a = .error e := by
    intro α β x k e
    cases x <;> simp [bind,Except.bind]
  have hen : ∀ {c : Prop} [Decidable c] {t : String} {e : Failure},
      ensure c (.panic t) = .error e ↔ ¬c ∧ .panic t = e := by
    intro c _ t e
    by_cases hc : c <;> simp [ensure,hc]
  simp [calculateDelegationRewardsBetween,sub,safeSub,add,mulInt,quoInt,newCoins,inRange,hs,
    he,her,hen,pure,Except.pure]

/-- The period of a delegation of `sats` is closed between two cumulative rewards. -/
structure PeriodClosed (s s' : State) (fp del : AccAddress) (sats : Int) (starting ending : Coins) :
    Prop where
  tracked : ∃ t, s.getBTCDelegationRewardsTracker fp del = .ok t ∧ t.totalActiveSat = sats ∧
    s.getFinalityProviderHistoricalRewards fp t.startPeriodCumulativeReward = .ok starting
  closed : ∃ n, s.getFinalityProviderHistoricalRewards fp n = .ok ending ∧
    s.calculateBTCDelegationRewardsAndSendToGauge fp del n = .ok s'

def portionOf (a : Int) (portion : Dec) : Int :=
  ((a*decPrecision*portion).tdiv decPrecision).tdiv decPrecision

theorem amountOf_getCoinsPortion {c : Coins} {portion : Dec}
    (h : getCoinsPortion c portion = .ok r) (d : Denom) :
    amountOf r d = portionOf (amountOf c d) portion ∧ 0 ≤ amountOf r d := by
  refine ⟨?_,(getCoinsPortion_le h d).1⟩
  simp only [getCoinsPortion,ok_iff] at h
  rw [← h.2,amountOf_dropZeros,amountOf_mapValues (by simp),portionOf]

def fpShare (gauge fpDirectGauge : Coins) (total : Nat) (d : Denom)
    (fp : FinalityProviderDistInfo) : Int :=
  portionOf (portionOf (amountOf gauge d) (votingPortion total fp)) fp.commission +
    portionOf (amountOf fpDirectGauge d) (votingPortion total fp)

theorem credited_rewardFinalityProvider {gauge direct : Coins} {total : Nat}
    {fp : FinalityProviderDistInfo}
    (h : rewardFinalityProvider gauge direct total s fp = .ok s') (a : AccAddress) (d : Denom) :
    s'.credited .FINALITY_PROVIDER a d = s.credited .FINALITY_PROVIDER a d +
      if fp.addr = a then fpShare gauge direct total d fp else 0 := by
  simp only [rewardFinalityProvider,addFinalityProviderRewardsForBtcDelegations,ok_iff] at h
  obtain ⟨-,c,hc,c',hc',c'',hc'',r,hr,s₁,hs₁,_,_,_,_,_,_,rfl⟩ := h
  have ha : ∀ d, amountOf r d = fpShare gauge direct total d fp ∧ 0 ≤ amountOf r d := by
    intro d
    obtain ⟨h₁,-⟩ := amountOf_getCoinsPortion hc d
    obtain ⟨h₂,h₂'⟩ := amountOf_getCoinsPortion hc' d
    obtain ⟨h₃,h₃'⟩ := amountOf_getCoinsPortion hc'' d
    rw [amountOf_add hr,fpShare,votingPortion,← h₃,← h₁,← h₂]
    exact ⟨rfl,add_nonneg h₂' h₃'⟩
  refine (credited_accumulate hs₁ .FINALITY_PROVIDER a d).trans ?_
  by_cases hp : isAllPositive r = true
  · simp [hp,(ha d).1,eq_comm]
  · have hz := amountOf_of_not_isAllPositive (eq_false_iff.mpr hp)
      (fun _ _ hv => get_add_ne_zero hr hv) (fun d => (ha d).2) d
    rw [(ha d).1] at hz
    simp [hp,hz]

theorem credited_foldlM {gauge direct : Coins} {total : Nat} {l : List FinalityProviderDistInfo}
    (h : l.foldlM (rewardFinalityProvider gauge direct total) s = .ok s')
    (a : AccAddress) (d : Denom) :
    s'.credited .FINALITY_PROVIDER a d = s.credited .FINALITY_PROVIDER a d +
      ((l.filter (·.addr = a)).map (fpShare gauge direct total d)).sum := by
  induction l generalizing s with
  | nil => simp [pure_eq_ok.mp h]
  | cons fp l ih =>
    rw [List.foldlM_cons,bind_eq_ok] at h
    obtain ⟨s₁,h₁,h⟩ := h
    rw [ih h,credited_rewardFinalityProvider h₁]
    by_cases hf : fp.addr = a <;> simp [hf,add_assoc]

/-- Closing a period credits the floor in every denomination exactly if all denominations that have
grown give a positive amount, or none does; a rewarded height credits the providers in each. -/
theorem denominations_credited (s : State) :
    (∀ {s' : State} {fp del : AccAddress} {sats : Int} {starting ending : Coins},
      PeriodClosed s s' fp del sats starting ending →
      ((∀ d, s'.credited .BTC_STAKER del d = s.credited .BTC_STAKER del d+periodReward starting
        ending sats d) ↔
        (∀ d, amountOf ending d ≠ amountOf starting d → 0 < periodReward starting ending sats d) ∨
          ∀ d, periodReward starting ending sats d = 0)) ∧
    ∀ {s' : State} {height : Nat} {dc : VotingPowerDistCache} {voters : BIP340PubKey → Bool},
      s.rewardBTCStaking height dc voters = .ok s' →
      let voting := dc.getActiveFinalityProviderSet.filter (fun fp => voters fp.btcPk)
      let share := fpShare (s.btcStakingGauges.getD height .empty)
        (s.fpDirectGauges.getD height .empty) (voting.map (·.totalBondedSat)).sum
      ∃ s₁, s.processRewardTrackerEvents height = .ok s₁ ∧
      ∀ a d, s'.credited .FINALITY_PROVIDER a d =
        s₁.credited .FINALITY_PROVIDER a d+((voting.filter (·.addr = a)).map (share d)).sum := by
  refine ⟨?_,?_⟩
  · rintro s' fp del sats starting ending ⟨⟨t,ht,rfl,hs⟩,n,he,h⟩
    simp only [calculateBTCDelegationRewardsAndSendToGauge,calculateBTCDelegationRewards,ht,ok_bind,
      bind_eq_ok] at h
    obtain ⟨r,hr,h⟩ := h
    by_cases hst : t.totalActiveSat = 0
    · rw [if_pos hst] at hr
      cases hr
      rw [if_pos (show isZero .empty = true from rfl),pure_eq_ok] at h
      simp [← h,periodReward,hst]
    rw [if_neg hst] at hr
    have hr' : s.calculateDelegationRewardsBetween fp t n = .ok r := by
      unfold noneIfNotFound at hr
      split at hr
      case h_1 hn => exact absurd hn (rewardsBetween_found hs he)
      case h_2 => exact hr
    have hg := get_rewardsBetween hs he hr'
    simpa only [fun d => (hg d).1,ne_eq,fun d => (hg d).2.2] using credited_send_iff
      (fun d => (hg d).2.1) h
  · intro s' height dc voters h voting share
    simp only [rewardBTCStaking,ok_iff] at h
    obtain ⟨s₁,h₁,s₂,h₂,rfl⟩ := h
    exact ⟨s₁,h₁,fun a d => credited_foldlM h₂ a d⟩

open AnonChain.Rewards.Regtest

/-- One of two satoshis is bob's; alice's rewards are 100 of one denomination and `b` of another. -/
def twoRewards (b : Int) : State :=
  { genesis.ictv with
    finalityProviderCurrentRewards := empty.set alice ⟨(empty.set [1] 100).set [2] b,1,2⟩
    finalityProviderHistoricalRewards := empty.set (toLex (alice,0)) .empty
    btcDelegationRewardsTracker := empty.set (toLex (alice,bob)) ⟨0,1⟩ }

def perSat (b : Int) : Coins := (empty.set [1] (50*10^20)).set [2] b

theorem denominations_credited_both :
    ∃ s s', (twoRewards 4).incrementFinalityProviderPeriod alice = .ok (s,1) ∧
    PeriodClosed s s' alice bob 1 .empty (perSat (2*10^20)) ∧
    ∀ d, s'.credited .BTC_STAKER bob d =
      s.credited .BTC_STAKER bob d+periodReward .empty (perSat (2*10^20)) 1 d := by
  have hp : ∀ d, amountOf (perSat (2*10^20)) d ≠ 0 →
      0 < periodReward .empty (perSat (2*10^20)) 1 d := by
    intro d hd
    by_cases h₁ : d = [1]
    · exact h₁ ▸ by decide
    by_cases h₂ : d = [2]
    · exact h₂ ▸ by decide
    simp [perSat,amountOf,getD,get_set,h₁,h₂] at hd
  have hc : ∀ s s', PeriodClosed s s' alice bob 1 .empty (perSat (2*10^20)) → _ :=
    fun _ _ h => And.intro h (((denominations_credited _).1 h).mpr (.inl hp))
  exact ⟨_,_,rfl,hc _ _ ⟨⟨_,rfl,rfl,rfl⟩,1,rfl,rfl⟩⟩

/-- Half a unit of the second denomination loses the fifty of the first. -/
theorem small_denomination_loses_all :
    ∃ s, (twoRewards 1).incrementFinalityProviderPeriod alice = .ok (s,1) ∧
    PeriodClosed s s alice bob 1 .empty (perSat (5*10^19)) ∧ s.credited .BTC_STAKER bob [1] = 0 ∧
    periodReward .empty (perSat (5*10^19)) 1 [1] = 50 :=
  ⟨_,rfl,⟨⟨_,rfl,rfl,rfl⟩,1,rfl,rfl⟩,rfl,rfl⟩

end AnonChain.Incentive.State
