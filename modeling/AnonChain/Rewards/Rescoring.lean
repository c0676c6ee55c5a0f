import AnonChain.Rewards.Procedures

/-! A new ratio: all scores are computed again in one pass, and then the total is replaced. -/

namespace AnonChain.Rewards

open Lib List KVStore Costaking
open Costaking (CurrentRewards CostakerRewardsTracker State)

variable {w₀ w : World} {a : AccAddress} {c : CurrentRewards} {t : CostakerRewardsTracker}
  {ratio total : Int} {rest : List (AccAddress × CostakerRewardsTracker)}

/-- The pass has `rest` left to do, and `total` is the sum of the scores it has computed. -/
structure Rescoring (w₀ : World) (ratio : Int) (c : CurrentRewards)
    (rest : List (AccAddress × CostakerRewardsTracker)) (total : Int) (w : World) : Prop where
  effects : Effects w₀ w
  pool : w.costk.Pool
  solvent : Solvent w
  current : w.costk.currentRewards = some c
  sorted : rest.Pairwise (fun e e' => e.1 < e'.1)
  left : ∀ e ∈ rest, w.costk.costakerRewardsTracker.get e.1 = some e.2
  stake : ∀ e ∈ rest, 0 ≤ e.2.activeSatoshis ∧ 0 ≤ e.2.activeNtk
  done : ∀ a t, w.costk.costakerRewardsTracker.get a = some t → (∀ e ∈ rest, e.1 ≠ a) →
    ScoredBy ratio t
  sum : total+(rest.map (·.2.totalScore)).sum = w.costk.scores

theorem Rescoring.next {w' : World} {t' : CostakerRewardsTracker}
    (h : Rescoring w₀ ratio c ((a,t) :: rest) total w)
    (he : Effect w w') (hc : w'.costk = w.costk.setCostakerRewardsTracker a t')
    (ht' : ScoredBy ratio t') : Rescoring w₀ ratio c rest (total+t'.totalScore) w' := by
  obtain ⟨hbl,hsr⟩ := pairwise_cons.mp h.sorted
  have hn : ∀ e ∈ rest, e.1 ≠ a := fun e he => (hbl e he).ne'
  refine ⟨h.effects.tail he,he.pool_keeps h.pool,he.solvent h.pool h.solvent,?_,hsr,?_,?_,?_,?_⟩
  · rw [hc]
    exact h.current
  · intro e hm
    rw [hc,State.setCostakerRewardsTracker,get_set_ne _ _ (hn e hm)]
    exact h.left e (mem_cons_of_mem _ hm)
  · intro e hm
    exact h.stake e (mem_cons_of_mem _ hm)
  · intro b s hs hr
    rw [hc] at hs
    rcases get_set_cases hs with ⟨_,rfl⟩ | ⟨hb,hs⟩
    · exact ht'
    · refine h.done b s hs ?_
      intro e hm
      rcases mem_cons.mp hm with rfl | hm
      · exact fun heq => hb heq.symm
      · exact hr e hm
  · have hst := State.scores_set w.costk a t'
    rw [h.left (a,t) mem_cons_self,Option.elim_some] at hst
    have hsm := h.sum
    rw [map_cons,sum_cons] at hsm
    rw [hc]
    omega

theorem ends_updateCostakerScore {e : AccAddress × CostakerRewardsTracker} (hrt : 1 ≤ ratio)
    (hz : ∀ d, Coins.amountOf c.rewards d = 0) (h : Rescoring w₀ ratio c (e :: rest) total w) :
    Ends (Costaking.updateCostakerScore ratio (c.period-1) total e) w
      (fun total' w' => Rescoring w₀ ratio c rest total' w') (fun _ _ => True) := by
  obtain ⟨a,t⟩ := e
  have hg := h.left (a,t) mem_cons_self
  have hst := h.stake (a,t) mem_cons_self
  unfold updateCostakerScore
  rw [ends_bind,ends_lift]
  refine ⟨?_,fun _ _ => trivial⟩
  rintro ⟨t',delta⟩ hu
  obtain ⟨hs,hsr,hd,hf⟩ := updateScore_eq_ok hrt hst.1 hst.2 hu
  dsimp only
  split
  · have hk : w.costk.KeepsScore a t' := by
      rw [State.KeepsScore,hg]
      refine ⟨by omega,?_⟩
      rw [hf]
    exact h.next (.pool (.write h.current hk)) rfl hs
  · rw [ends_bind]
    have hcl := ends_calculateCostakerRewardsAndSendToGauge (a := a) h.pool h.solvent h.current
    refine hcl.mono ?_ (fun _ _ _ => trivial)
    intro _ w₁ hp
    have hcs := hp.costk_eq
    have hc : (w₁.costk.setCostakerRewardsTracker a t').currentRewards = some c := by
      rw [hcs]
      exact h.current
    rw [ends_bind]
    show Ends _ { w₁ with costk := w₁.costk.setCostakerRewardsTracker a t' } _ _
    rw [ends_bind]
    refine (ends_initializeCoStakerRwdTracker
      (w := { w₁ with costk := w₁.costk.setCostakerRewardsTracker a t' })
      hc (get_set_self _ a t') _).mono ?_ (fun _ _ he => he)
    rintro _ _ rfl
    have hsl : Effect w { w₁ with
        costk := w₁.costk.setCostakerRewardsTracker a (startingAt (c.period-1) t') } :=
      .settle h.current hz hp hsr rfl
    have hse : (w₁.costk.setCostakerRewardsTracker a t').setCostakerRewardsTracker a
        (startingAt (c.period-1) t') =
        w₁.costk.setCostakerRewardsTracker a (startingAt (c.period-1) t') := by
      simp only [State.setCostakerRewardsTracker,KVStore.set_set]
    have hr : ScoredBy ratio (startingAt (c.period-1) t') := hs
    have hn := h.next hsl (by rw [hcs]) hr
    rw [ends_pure,hse]
    exact hn

theorem Follows.rescoring (h : Follows w₀ w) (hc : w.costk.currentRewards = some c) :
    Rescoring w₀ ratio c w.costk.costakerRewardsTracker.entries 0 w := by
  refine ⟨h.effects,h.pool,h.solvent,hc,w.costk.costakerRewardsTracker.sorted,?_,?_,?_,?_⟩
  · intro e he
    exact mem_entries.mp he
  · intro e he
    have hs := h.scored.tracker e.1 e.2 (mem_entries.mp he)
    exact ⟨hs.1,hs.2.1⟩
  · intro a t ht hn
    exact absurd rfl (hn (a,t) (mem_entries.mpr ht))
  · rw [zero_add]
    rfl

theorem ends_updateAllCostakersScore (h : Follows w₀ w) (hr : 1 ≤ ratio) :
    Ends (Costaking.updateAllCostakersScore ratio) w
      (fun _ w' => Effects w₀ w' ∧ w'.costk.Pool ∧ Solvent w' ∧
        Scored w'.costk ratio) (fun _ _ => True) := by
  unfold updateAllCostakersScore
  rw [ends_bind]
  refine (ends_incrementRewardsPeriod h.started.pool).mono ?_ (fun _ _ _ => trivial)
  rintro n _ ⟨c,s',rfl,he,rfl⟩
  have h₁ := h.started.periodEnded he
  have hc := he.current'
  unfold getCurrentRewards
  rw [ends_bind,ends_bind,ends_get,ends_lift_ok (orFail_eq_ok.mpr hc),ends_bind,ends_get,ends_bind]
  have hs : Rescoring w₀ ratio ⟨.empty,c.period+1,c.totalScore⟩ _ 0 _ := h₁.rescoring hc
  have hl := ends_foldlM (R := fun _ _ => True)
    (J := fun rest total w => Rescoring w₀ ratio ⟨.empty,c.period+1,c.totalScore⟩ rest total w)
    (fun e rest total w hJ => ends_updateCostakerScore hr (fun d => Coins.amountOf_empty d) hJ)
    hs
  refine hl.mono ?_ (fun _ _ _ => trivial)
  intro total w₂ hJ
  have hsm : total = w₂.costk.scores := by simpa using hJ.sum
  rw [ends_bind,ends_lift]
  refine ⟨?_,fun _ _ => trivial⟩
  intro _ _
  unfold updateCurrentRewardsTotalScore getCurrentRewards
  have hst : started w₂ = w₂ := started_of_some hJ.current
  rw [ends_bind]
  refine (ends_incrementRewardsPeriod (hst.symm ▸ hJ.pool)).mono ?_ (fun _ _ _ => trivial)
  rintro n _ ⟨c₂,s₂,rfl,he₂,rfl⟩
  rw [hst] at he₂ ⊢
  have hc₂ := he₂.current'
  rw [ends_bind,ends_bind,ends_get,ends_lift_ok (orFail_eq_ok.mpr hc₂)]
  have hsc : s₂.scores = total := by
    rw [hsm,State.scores,he₂.trackers]
    rfl
  have hen : Effect w₂ { w₂ with costk := s₂ } := .pool (.endPeriod he₂)
  have htt : Effect { w₂ with costk := s₂ } _ :=
    .pool (.total hc₂ (fun d => Coins.amountOf_empty d))
  have hp := hen.pool_keeps hJ.pool
  have hsl := hen.solvent hJ.pool hJ.solvent
  have hf : Effects w₀ _ ∧ _ ∧ _ := ⟨(hJ.effects.tail hen).tail htt,htt.pool_keeps hp,
    htt.solvent hp hsl⟩
  rw [hsc] at hf
  refine ⟨hf.1,hf.2.1,hf.2.2,hr,?_,?_⟩
  · intro a t ht
    refine hJ.done a t ?_ (by simp)
    rw [← he₂.trackers]
    exact ht
  · intro c' hc'
    cases hc'
    exact hsc.symm

end AnonChain.Rewards
