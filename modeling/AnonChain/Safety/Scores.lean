import AnonChain.Rewards.Steps
import AnonChain.Rewards.Regtest

/-! The score of every costaker follows from its stake, and the total is the sum of the scores. -/

namespace AnonChain.Rewards

open Lib

theorem Scored.total_eq {s : Costaking.State} {ratio : Int} (h : Scored s ratio) (hp : s.Pool) :
    s.currentRewards.elim 0 (·.totalScore) = s.scores := by
  cases hc : s.currentRewards with
  | some c => exact h.total c hc
  | none =>
    rw [Costaking.State.scores,hp.noCurrent hc]
    rfl

theorem costaker_scores_accounted {blockedAddr : AccAddress → Bool} {w : World}
    (h : (rewards blockedAddr).Reachable w) :
    1 ≤ w.costk.params.scoreRatioBtcByNtk ∧
    (∀ a t, w.costk.costakerRewardsTracker.get a = some t →
      t.totalScore = min t.activeSatoshis (t.activeNtk/w.costk.params.scoreRatioBtcByNtk)) ∧
    w.costk.currentRewards.elim 0 (·.totalScore) =
      w.costk.costakerRewardsTracker.sumBy (fun _ t => t.totalScore) ∧
    ∀ a t, w.costk.costakerRewardsTracker.get a = some t → 0 < t.totalScore →
      ∃ c r, w.costk.currentRewards = some c ∧ t.startPeriodCumulativeReward < c.period ∧
        w.costk.historicalRewards.get t.startPeriodCumulativeReward = some r := by
  obtain ⟨w₀, -,hf⟩ := follows_reachable h
  refine ⟨hf.scored.positive,?_,?_,?_⟩
  · intro a t ht
    exact (hf.scored.tracker a t ht).2.2
  · exact hf.scored.total_eq hf.pool
  · intro a t ht hp
    exact hf.pool.start_stored ht hp

namespace Regtest

def rescored : World :=
  deliverAll [.costakerModifiedActiveAmounts alice 5 12,.costakerModifiedActiveAmounts bob 3 40,
    .updateCostakingParams ⟨true,⟨5*10^17,4,0⟩⟩]

theorem rescored_scores :
    (rescored.costk.costakerRewardsTracker.get alice).map (·.totalScore) = some 3 ∧
      rescored.costk.currentRewards.map (·.totalScore) = some 6 := by decide +kernel

end Regtest

theorem costaker_scores_accounted_rescored :
    Regtest.rescored.costk.currentRewards.map (·.totalScore) = some 6 ∧
    ∀ a t, Regtest.rescored.costk.costakerRewardsTracker.get a = some t →
      t.totalScore = min t.activeSatoshis
        (t.activeNtk/Regtest.rescored.costk.params.scoreRatioBtcByNtk) :=
  ⟨Regtest.rescored_scores.2,(costaker_scores_accounted (Regtest.reachable_deliverAll _)).2.1⟩

end AnonChain.Rewards
