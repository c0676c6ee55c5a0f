import AnonChain.Rewards.Rescoring

/-! Every action is a chain of effects after which every score is accounted for. -/

namespace AnonChain.Rewards

open Lib
open Costaking (CurrentRewards StakingCache ValAddress Params)
open Incentive (StakeholderType State)
open Keeps (bind deferred ite tolerate)

variable {w₀ w w' : World}

theorem Follows.setCache (h : Follows w₀ w) (stkCache : StakingCache) :
    Follows w₀ { w with stkCache := stkCache } :=
  h.frame (.cache stkCache) rfl

theorem tracked_updateCache (w₀ : World) (f : StakingCache → StakingCache) :
    Tracked w₀ (Costaking.updateCache f) :=
  fun _ h => h.setCache _

section

variable (w₀) (stk : Costaking.Staking)

theorem tracked_getActiveValidatorSet : Tracked w₀ (Costaking.getActiveValidatorSet stk) := by
  refine keeps_get_bind ?_
  intro w
  cases w.stkCache.activeValSet with
  | some valSet => exact keeps_pure valSet
  | none =>
    exact (keeps_lift _).bind (fun _ => (tracked_updateCache w₀ _).bind (fun _ => keeps_pure _))

theorem tracked_isActiveValidator (valAddr : ValAddress) :
    Tracked w₀ (Costaking.isActiveValidator stk valAddr) := by
  refine (tracked_getActiveValidatorSet w₀ stk).bind ?_
  intro valSet
  refine bind ?_ (fun _ => keeps_pure _)
  exact ((tracked_updateCache w₀ _).bind (fun _ => keeps_pure _)).ite (keeps_pure _)

theorem tracked_addActiveNtk (costaker : AccAddress) (ntk : Int) :
    Tracked w₀ (Costaking.costakerModified costaker (Costaking.addActiveNtk ntk)) :=
  tracked_costakerModified w₀ costaker (fun _ => ⟨rfl,rfl⟩)

theorem tracked_addActiveSatoshis (costaker : AccAddress) (sats : Int) :
    Tracked w₀ (Costaking.costakerModified costaker (Costaking.addActiveSatoshis sats)) :=
  tracked_costakerModified w₀ costaker (fun _ => ⟨rfl,rfl⟩)

theorem tracked_updateValidatorSet (vals : List ValAddress) :
    Tracked w₀ (Costaking.updateValidatorSet stk vals) := by
  refine (keeps_lift _).bind ?_
  intro _ w h
  exact h.tail (.pool (.other w.costk.params (some vals))) ⟨h.scored.positive,
    h.scored.tracker,h.scored.total⟩

theorem tracked_afterDelegationModified (del : AccAddress) (val : ValAddress) :
    Tracked w₀ (Costaking.HookStaking.afterDelegationModified stk del val) := by
  refine deferred ?_ (fun w h => h.setCache (w.stkCache.delete del val))
  refine (tracked_isActiveValidator w₀ stk val).bind ?_
  intro active
  refine ite ?_ (keeps_pure _)
  refine (keeps_lift _).bind ?_
  intro delTokens
  exact keeps_get_bind (fun w => tracked_addActiveNtk w₀ del _)

theorem tracked_beforeDelegationRemoved (del : AccAddress) (val : ValAddress) :
    Tracked w₀ (Costaking.HookStaking.beforeDelegationRemoved stk del val) := by
  refine deferred ?_ (fun w h => h.setCache (w.stkCache.delete del val))
  refine (tracked_isActiveValidator w₀ stk val).bind ?_
  intro active
  refine ite ?_ (keeps_pure _)
  refine (keeps_lift _).bind ?_
  intro delTokens
  exact (keeps_pure _).ite (tracked_addActiveNtk w₀ del _)

theorem tracked_beforeDelegationSharesModified (del : AccAddress) (val : ValAddress) :
    Tracked w₀ (Costaking.HookStaking.beforeDelegationSharesModified stk del val) := by
  refine (tracked_isActiveValidator w₀ stk val).bind ?_
  intro active
  refine ite ?_ (keeps_pure _)
  cases stk.getDelegation del val with
  | none => exact keeps_pure _
  | some _ => exact (keeps_lift _).bind (fun _ => tracked_updateCache w₀ _)

theorem tracked_beforeValidatorSlashed (val : ValAddress) (fraction : Dec) :
    Tracked w₀ (Costaking.HookStaking.beforeValidatorSlashed stk val fraction) := by
  refine (tracked_isActiveValidator w₀ stk val).bind ?_
  intro active
  refine ite ?_ (keeps_pure _)
  refine (keeps_lift _).bind ?_
  intro tokens
  exact keeps_forM (fun _ _ => tracked_addActiveNtk w₀ _ _)

theorem tracked_updateCoStkTrackerForDelegators (sign : Int) (val : ValAddress) :
    Tracked w₀ (Costaking.HookEpoching.updateCoStkTrackerForDelegators stk sign val) := by
  refine (keeps_lift _).bind ?_
  intro tokens
  exact keeps_forM (fun _ _ => tracked_addActiveNtk w₀ _ _)

theorem tracked_afterEpochEnds : Tracked w₀ (Costaking.HookEpoching.afterEpochEnds stk) := by
  refine tolerate ?_
  refine (tracked_getActiveValidatorSet w₀ stk).bind ?_
  intro prevValMap
  refine (keeps_forM (fun _ _ => tracked_updateCoStkTrackerForDelegators w₀ stk 1 _)).bind ?_
  intro _
  refine (keeps_forM (fun _ _ => tracked_updateCoStkTrackerForDelegators w₀ stk (-1) _)).bind ?_
  intro _
  exact tracked_updateValidatorSet w₀ stk _

theorem tracked_runStakingHook (hook : StakingHook) : Tracked w₀ (runStakingHook stk hook) := by
  cases hook with
  | afterDelegationModified del val => exact tracked_afterDelegationModified w₀ stk del val
  | beforeDelegationRemoved del val => exact tracked_beforeDelegationRemoved w₀ stk del val
  | beforeDelegationSharesModified del val =>
    exact tracked_beforeDelegationSharesModified w₀ stk del val
  | beforeValidatorSlashed val fraction =>
    exact (tracked_beforeValidatorSlashed w₀ stk val fraction).tolerate
  | afterEpochBegins =>
    refine keeps_get_bind ?_
    intro w
    cases w.costk.validatorSet with
    | some _ => exact keeps_pure _
    | none => exact (tracked_updateValidatorSet w₀ stk _).tolerate
  | beforeEpochEnds =>
    exact ((tracked_getActiveValidatorSet w₀ stk).bind (fun _ => keeps_pure _)).tolerate
  | afterEpochEnds => exact tracked_afterEpochEnds w₀ stk

end

variable {votes : List Costaking.VoteInfo} {blockedAddr : AccAddress → Bool}

theorem Follows.incentive {s' : State} (h : Follows w₀ w)
    (hs : Relation.ReflTransGen IncentiveStep w.ictv s') : Follows w₀ { w with ictv := s' } := by
  induction hs with
  | refl => exact h
  | tail _ hst ih => exact ih.frame (.incentive hst) rfl

theorem tracked_onIncentive (w₀ : World) {f : State → Result State}
    (hf : ∀ s s', f s = .ok s' → Relation.ReflTransGen IncentiveStep s s') :
    Tracked w₀ (onIncentive f) := by
  intro w h
  unfold onIncentive
  rw [ends_bind,ends_get,ends_bind,ends_lift]
  refine ⟨?_,fun _ _ => .inr h⟩
  intro s' hs'
  exact h.incentive (hf w.ictv s' hs')

theorem sendAll_steps {s s' : State} {sType : StakeholderType} {del : AccAddress}
    (h : s.sendAllBtcDelegationTypeToRewardsGauge sType del = .ok s') :
    Relation.ReflTransGen IncentiveStep s s' := by
  unfold State.sendAllBtcDelegationTypeToRewardsGauge at h
  split at h
  · refine foldlM_keeps (P := fun t => Relation.ReflTransGen IncentiveStep s t) ?_ .refl h
    intro fp _ t t' ht hs
    exact ht.tail (.modified hs)
  · cases h
    exact .refl

theorem tracked_withdrawGauge (w₀ : World) (blockedAddr : AccAddress → Bool)
    (sType : StakeholderType)
    (addr : AccAddress) : Tracked w₀ (withdrawGauge blockedAddr sType addr) := by
  intro w h
  unfold withdrawGauge
  rw [ends_bind,ends_get,ends_bind,ends_lift]
  refine ⟨?_,fun _ _ => .inr h⟩
  rintro ⟨ictv,bank,coins⟩ hw
  exact h.frame (.withdraw hw) rfl

theorem tracked_beforeRewardWithdraw (w₀ : World) (sType : StakeholderType) (addr : AccAddress) :
    Tracked w₀ (Costaking.HookIncentives.beforeRewardWithdraw sType addr) :=
  (tracked_costakerWithdrawRewards w₀ addr).ite (keeps_pure _)

theorem tracked_withdrawReward (w₀ : World) (blockedAddr : AccAddress → Bool)
    (sType : StakeholderType)
    (addr : AccAddress) : Tracked w₀ (withdrawReward blockedAddr sType addr) := by
  refine (tracked_onIncentive w₀ (fun _ _ => sendAll_steps)).bind ?_
  intro _
  refine (tracked_beforeRewardWithdraw w₀ sType addr).bind ?_
  intro _
  refine (tracked_withdrawGauge w₀ blockedAddr sType addr).tolerate.bind ?_
  intro withdrawn
  refine ite ?_ (keeps_lift _)
  refine (tracked_beforeRewardWithdraw w₀ .COSTAKER addr).tolerate.bind ?_
  intro _
  refine bind (tolerate ?_) (fun _ => keeps_lift _)
  exact (tracked_withdrawGauge w₀ blockedAddr .COSTAKER addr).bind (fun _ => keeps_lift _)

theorem tracked_setWithdrawAddress (w₀ : World) (blockedAddr : AccAddress → Bool)
    (del addr : AccAddress) : Tracked w₀ (setWithdrawAddress blockedAddr del addr) := by
  refine tracked_onIncentive w₀ ?_
  intro s s' hs
  simp only [ok_iff] at hs
  obtain ⟨-,rfl⟩ := hs
  exact .single (.withdrawAddrs _)

theorem tracked_updateIncentiveParams (w₀ : World) (isAuthority : Bool)
    (params : Incentive.Params) : Tracked w₀ (updateIncentiveParams isAuthority params) := by
  refine tracked_onIncentive w₀ ?_
  intro s s' hs
  simp only [ok_iff] at hs
  obtain ⟨-,_,hv,rfl⟩ := hs
  exact .single (.params hv)

theorem started_setBank (w : World) (bank : Bank) :
    started { w with bank := bank } = { started w with bank := bank } := by
  unfold started
  dsimp only
  split <;> rfl

theorem started_bank (w : World) : (started w).bank = w.bank := by
  unfold started
  split <;> rfl

theorem Follows.fund {c c' : CurrentRewards} {coins feeCollector costaking : Coins}
    (h : Follows w₀ w) (hc : w.costk.currentRewards = some c)
    (hs : w.bank.sendCoins w.bank.feeCollector w.bank.costaking coins =
      .ok (feeCollector,costaking))
    (ha : c.addRewards coins = .ok c') :
    Follows w₀ ⟨{ w.bank with feeCollector := feeCollector, costaking := costaking },w.ictv,
      w.costk.setCurrentRewards c',w.stkCache⟩ := by
  have ht := h.scored.total c hc
  refine h.tail (.fund hc ht hs ha) ⟨h.scored.positive,h.scored.tracker,?_⟩
  intro c₁ hc₁
  cases hc₁
  rw [(addRewards_eq ha).2.1]
  exact ht

theorem ends_accumulateCostakingRewards {coins : Coins} (h : Follows w₀ w) :
    Ends (Costaking.accumulateCostakingRewards coins) w (fun _ => Follows w₀)
      (fun _ _ => True) := by
  unfold Costaking.accumulateCostakingRewards
  split
  · rw [ends_bind,ends_get,ends_bind,ends_lift]
    refine ⟨?_,fun _ _ => trivial⟩
    rintro ⟨feeCollector,costaking⟩ hs
    unfold Costaking.addRewardsForCostakers
    rw [ends_bind]
    show Ends _ { w with
      bank := { w.bank with feeCollector := feeCollector, costaking := costaking } } _ _
    rw [ends_bind]
    refine (ends_getCurrentRewardsInitialized _ _).mono ?_ (fun _ _ he => he)
    rintro c _ ⟨rfl,hc⟩
    rw [ends_bind,ends_lift]
    refine ⟨?_,fun _ _ => trivial⟩
    intro c' ha
    rw [started_setBank] at hc ⊢
    rw [← started_bank w] at hs ⊢
    exact h.started.fund hc hs ha
  · exact h

theorem ends_allocateValidatorsRewards {rwds : Coins} (h : Follows w₀ w) :
    Ends (Costaking.allocateValidatorsRewards votes rwds) w (fun _ => Follows w₀)
      (fun _ _ => True) := by
  unfold Costaking.allocateValidatorsRewards
  split
  · split
    · exact h
    · rw [ends_bind,ends_get,ends_bind,ends_lift]
      refine ⟨?_,fun _ _ => trivial⟩
      rintro ⟨feeCollector,distribution⟩ _
      rw [ends_bind]
      show Ends _ { w with
        bank := { w.bank with feeCollector := feeCollector, distribution := distribution } } _ _
      rw [ends_lift]
      exact ⟨fun _ _ => h.frame (.fees feeCollector distribution) rfl,fun _ _ => trivial⟩
  · exact h

theorem ends_handleCoinsInFeeCollector (h : Follows w₀ w) :
    Ends (Costaking.handleCoinsInFeeCollector votes) w (fun _ => Follows w₀) (fun _ _ => True) := by
  unfold Costaking.handleCoinsInFeeCollector
  rw [ends_bind,ends_get]
  dsimp only
  split
  · rw [ends_bind,ends_lift]
    refine ⟨?_,fun _ _ => trivial⟩
    intro valDirectRwds _
    rw [ends_bind]
    refine (ends_allocateValidatorsRewards h).mono ?_ (fun _ _ he => he)
    intro _ w₁ h₁
    rw [ends_bind,ends_lift]
    refine ⟨?_,fun _ _ => trivial⟩
    intro costakingRewards _
    exact ends_accumulateCostakingRewards h₁
  · exact h

theorem ends_updateParams {req : Costaking.MsgUpdateParams} (h : Follows w₀ w) :
    Ends (Costaking.updateParams req) w (fun _ => Follows w₀) (fun _ _ => True) := by
  unfold Costaking.updateParams
  rw [ends_bind,ends_lift]
  refine ⟨?_,fun _ _ => trivial⟩
  intro _ _
  rw [ends_bind,ends_lift]
  refine ⟨?_,fun _ _ => trivial⟩
  intro _ hv
  have hr : 1 ≤ req.params.scoreRatioBtcByNtk := by
    simp only [ok_iff,Params.validate] at hv
    obtain ⟨-, -, -, -, -, -,hr⟩ := hv
    exact hr
  rw [ends_bind,ends_get]
  split
  · rw [ends_bind]
    refine (ends_updateAllCostakersScore h hr).mono ?_ (fun _ _ he => he)
    rintro _ w₁ ⟨hec,hp,hsl,hs⟩
    have hef : Effect w₁ _ := .pool (.other req.params w₁.costk.validatorSet)
    exact ⟨hec.tail hef,hef.pool_keeps hp,hef.solvent hp hsl,hs.positive,hs.tracker,hs.total⟩
  · rename_i hsm
    rw [not_not] at hsm
    have hs := hsm ▸ h.scored
    exact h.tail (.pool (.other req.params w.costk.validatorSet)) ⟨hs.positive,hs.tracker,hs.total⟩

theorem ends_perform (h : Follows w₀ w) (action : Action) :
    Ends (perform blockedAddr action) w (fun _ => Follows w₀) (fun _ _ => True) := by
  have ht : ∀ {m : Proc Unit}, Tracked w₀ m → Ends m w (fun _ => Follows w₀) (fun _ _ => True) :=
    fun hm => (hm w h).mono (fun _ _ hw => hw) (fun _ _ _ => trivial)
  cases action with
  | collectFees _ =>
    unfold perform collectFees
    rw [ends_bind,ends_get,ends_bind,ends_lift]
    refine ⟨?_,fun _ _ => trivial⟩
    intro _ _
    rw [ends_bind,ends_lift]
    refine ⟨?_,fun _ _ => trivial⟩
    intro feeCollector _
    exact h.frame (.fees feeCollector w.bank.distribution) rfl
  | allocateTokens =>
    unfold perform allocateTokens
    rw [ends_bind,ends_get,ends_bind,ends_lift]
    refine ⟨?_,fun _ _ => trivial⟩
    intro distribution _
    exact h.frame (.fees .empty distribution) rfl
  | incentiveHandleCoinsInFeeCollector _ =>
    unfold perform incentiveHandleCoinsInFeeCollector
    rw [ends_bind,ends_get,ends_bind,ends_lift]
    refine ⟨?_,fun _ _ => trivial⟩
    rintro ⟨ictv,bank⟩ hh
    exact h.frame (.intercept hh) rfl
  | costakingHandleCoinsInFeeCollector _ => exact ends_handleCoinsInFeeCollector h
  | accumulateCostakingRewards _ => exact ends_accumulateCostakingRewards h
  | rewardBTCStaking _ dc _ =>
    exact ht (tracked_onIncentive w₀ (fun _ _ hs => .single (.reward hs)))
  | afterBtcDelegationActivated _ fp del _ sats =>
    refine ht (bind (tracked_onIncentive w₀ ?_) ?_)
    · intro s s' hs
      cases hs
      exact .single (.event (Int.natCast_nonneg sats))
    · intro _
      exact (tracked_addActiveSatoshis w₀ del sats).ite (keeps_pure _)
  | afterBtcDelegationUnbonded _ fp del _ sats =>
    refine ht (bind (tracked_onIncentive w₀ ?_) ?_)
    · intro s s' hs
      cases hs
      exact .single (.event (Int.natCast_nonneg sats))
    · intro _
      exact (tracked_addActiveSatoshis w₀ del _).ite (keeps_pure _)
  | afterAncFpEntersActiveSet _ fp =>
    exact ht (keeps_get_bind (fun _ => keeps_forM (fun _ _ => tracked_addActiveSatoshis w₀ _ _)))
  | afterAncFpRemovedFromActiveSet _ fp =>
    exact ht (keeps_get_bind (fun _ => keeps_forM (fun _ _ => tracked_addActiveSatoshis w₀ _ _)))
  | staking stk hook => exact ht (tracked_runStakingHook w₀ stk hook)
  | costakerModifiedActiveAmounts costaker _ _ =>
    exact ht (tracked_costakerModified w₀ costaker (fun _ => ⟨rfl,rfl⟩))
  | withdrawReward sType addr => exact ht (tracked_withdrawReward w₀ blockedAddr sType addr)
  | setWithdrawAddress del addr => exact ht (tracked_setWithdrawAddress w₀ blockedAddr del addr)
  | updateIncentiveParams isAuthority params =>
    exact ht (tracked_updateIncentiveParams w₀ isAuthority params)
  | updateCostakingParams _ => exact ends_updateParams h
  | endBlock => exact h.setCache _

theorem deliver_follows (h : Follows w₀ w) (action : Action) :
    Follows w₀ (deliver blockedAddr w action) := by
  have he : Ends (perform blockedAddr action) w (fun _ => Follows w₀) _ := ends_perform h action
  unfold deliver
  cases hp : perform blockedAddr action w with
  | ok _ w' => exact he.of_ok hp
  | error e w' => exact h.setCache w'.stkCache

theorem follows_genesis (h : Genesis w) : Follows w w := by
  have hp := h.costkParams
  simp only [Params.validate,ok_iff] at hp
  obtain ⟨-, -, -, -, -, -,hr⟩ := hp
  refine ⟨.refl,?_,?_,hr,?_,?_⟩
  · refine ⟨fun _ => h.noCostakers,?_,?_,?_,?_,?_,?_,?_⟩
    all_goals simp [h.noPool,h.noCostakers]
  · intro d
    have hb := mul_nonneg Costaking.decimalRewards_pos.le (h.costaking d)
    rw [Costaking.State.owed_of_empty h.noCostakers,Costaking.State.undistributed,h.noPool]
    simpa using hb
  · simp [h.noCostakers]
  · simp [h.noPool]

theorem follows_reachable (h : (rewards blockedAddr).Reachable w) :
    ∃ w₀, Genesis w₀ ∧ Follows w₀ w := by
  induction h with
  | init h0 => exact ⟨_,h0,follows_genesis h0⟩
  | step _ hs ih =>
    obtain ⟨w₀,h0,hf⟩ := ih
    cases hs
    exact ⟨w₀,h0,deliver_follows hf _⟩

end AnonChain.Rewards
