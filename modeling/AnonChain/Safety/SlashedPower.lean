import AnonChain.Safety.GenesisRoundTrip

/-! The slashed power of an epoch, and the thresholds that the slashes reach. -/

namespace AnonChain.Epoching

open Lib List KVStore

namespace Store

/-- In hundredths of the total power. -/
def slashThresholds : List Int := [33,67]

/-- The thresholds for which `BeforeValidatorSlashed` triggers the hook. -/
def thresholdHooks (s : Store) (valAddr : Address) : Result (List Int) := do
  let epoch ← s.getEpoch
  let totalVotingPower ← s.getTotalVotingPower epoch.epochNumber
  let slashedVotingPower ← s.getSlashedVotingPower epoch.epochNumber
  let thisVotingPower ← s.getValidatorVotingPower epoch.epochNumber valAddr
  pure (slashThresholds.filter fun threshold => 100*slashedVotingPower <
    threshold*totalVotingPower ∧
    threshold*totalVotingPower ≤ 100*(slashedVotingPower+thisVotingPower))

def afterSlash (s : Store) (valAddr : Address) : Store :=
  match s.beforeValidatorSlashed valAddr with
  | .ok s' => s'
  | .error _ => s

def hooksAt (threshold : Int) (s : Store) (valAddr : Address) : Nat :=
  match s.thresholdHooks valAddr with
  | .ok l => l.count threshold
  | .error _ => 0

def hookCount (threshold : Int) : Store → List Address → Nat
  | _, [] => 0
  | s, v :: vals => hooksAt threshold s v+hookCount threshold (s.afterSlash v) vals

/-- A sum of powers goes from below the threshold to the threshold or above. -/
def Reaches (total before after threshold : Int) : Prop :=
  100*before < threshold*total ∧ threshold*total ≤ 100*after

instance (total before after threshold : Int) : Decidable (Reaches total before after threshold) :=
  inferInstanceAs (Decidable (_ ∧ _))

def slashedSum (s : Store) (n : Nat) : Int := totalPower (s.slashedValSet.sub n)

/-- What the hooks read of the current epoch. -/
structure InEpoch (s : Store) (n : Nat) (total : Int) : Prop where
  records : s.Records n
  epoch : ∃ e, s.getEpoch = .ok e ∧ e.epochNumber = n
  total : s.votingPower.get n = some total

namespace InEpoch

variable {s : Store} {n : Nat} {v : Address} {total threshold : Int} (h : InEpoch s n total)

include h

theorem slashedPower : s.slashedVotingPower.get n = some (s.slashedSum n) := by
  have hs := h.records.slashedPowers n
  rwa [if_pos le_rfl] at hs

theorem unknown (t : Int) (hv : s.valSet.get₂ n v = none) :
    s.afterSlash v = s ∧ hooksAt t s v = 0 := by
  obtain ⟨e,he,rfl⟩ := h.epoch
  simp only [afterSlash,beforeValidatorSlashed,hooksAt,thresholdHooks,getTotalVotingPower,
    getSlashedVotingPower,getValidatorVotingPower,he,h.total,h.slashedPower,hv,orFail,ok_bind]
  exact ⟨rfl,rfl⟩

theorem known (t : Int) {p : Int} (hv : s.valSet.get₂ n v = some p) :
    s.afterSlash v = { s with
      slashedValSet := s.slashedValSet.set₂ n v p
      slashedVotingPower := s.slashedVotingPower.set n (s.slashedSum n+p) } ∧
    hooksAt t s v = (slashThresholds.filter (Reaches total (s.slashedSum n)
      (s.slashedSum n+p))).count t := by
  obtain ⟨e,he,rfl⟩ := h.epoch
  simp only [afterSlash,beforeValidatorSlashed,addSlashedValidator,hooksAt,thresholdHooks,
    getTotalVotingPower,
    getSlashedVotingPower,getValidatorVotingPower,he,h.total,h.slashedPower,hv,orFail,
    ok_bind,Result.orPanic]
  exact ⟨rfl,rfl⟩

theorem le_total : s.slashedSum n ≤ total := by
  have ht := h.records.powers n
  rw [h.total,if_pos le_rfl,Option.some.injEq] at ht
  have hs : (s.slashedValSet.sub n).entries ⊆ (s.valSet.sub n).entries := by
    rintro ⟨v,p⟩ hm
    exact mem_entries.mpr (h.records.slashed n v p (mem_entries.mp hm))
  obtain ⟨l,hpr,hl⟩ := subperm_of_subset (keys_nodup _).of_map hs
  have hle := (hl.map Prod.snd).sum_le_sum (by
    intro p hp
    obtain ⟨⟨v,p⟩,hm,rfl⟩ := mem_map.mp hp
    exact h.records.nonneg n v p (mem_entries.mp hm))
  rw [(hpr.map Prod.snd).sum_eq] at hle
  rw [ht]
  simpa [slashedSum,totalPower,foldl_add_eq] using hle

theorem step (hf : s.slashedValSet.get₂ n v = none) (ht : threshold ∈ slashThresholds) :
    InEpoch (s.afterSlash v) n total ∧ s.slashedSum n ≤ (s.afterSlash v).slashedSum n ∧
    (∀ v', v' ≠ v → s.slashedValSet.get₂ n v' = none →
      (s.afterSlash v).slashedValSet.get₂ n v' = none) ∧
    hooksAt threshold s v =
      if Reaches total (s.slashedSum n) ((s.afterSlash v).slashedSum n)
        threshold then 1 else 0 := by
  cases hv : s.valSet.get₂ n v with
  | none =>
    obtain ⟨hs,hc⟩ := h.unknown threshold hv
    rw [hs,hc,if_neg (by rintro ⟨hlt,hl⟩; omega)]
    exact ⟨h,le_rfl,fun _ _ h => h,rfl⟩
  | some p =>
    obtain ⟨ha,hc⟩ := h.known threshold hv
    have hsu : (s.afterSlash v).slashedSum n = s.slashedSum n+p := by
      rw [ha,slashedSum,sub_set₂,if_pos rfl]
      exact totalPower_set p hf
    have hp := h.records.nonneg n v p hv
    rw [hsu,hc,ha]
    refine ⟨⟨h.records.slash hv h.slashedPower hf,h.epoch,h.total⟩,by omega,?_,?_⟩
    · intro v' hn hnn
      simp [get₂_set₂,hn,hnn]
    · split
      case isTrue hr =>
        rw [count_filter (p := fun t => decide (Reaches total _ _ t)) (decide_eq_true hr)]
        exact count_eq_one_of_mem (by decide) ht
      case isFalse hr => exact count_eq_zero_of_not_mem (fun hm => hr
        (of_decide_eq_true (mem_filter.mp hm).2))

theorem run {vals : List Address} (hn : vals.Nodup)
    (hf : ∀ v ∈ vals, s.slashedValSet.get₂ n v = none)
    (ht : threshold ∈ slashThresholds) : InEpoch (vals.foldl afterSlash s) n total ∧
    s.slashedSum n ≤ (vals.foldl afterSlash s).slashedSum n ∧ hookCount threshold s vals =
      if Reaches total (s.slashedSum n) ((vals.foldl afterSlash s).slashedSum n)
        threshold then 1 else 0 := by
  induction vals generalizing s with
  | nil => exact ⟨h,le_rfl,(if_neg (by rintro ⟨hlt,hl⟩; simp only [foldl_nil] at hl; omega)).symm⟩
  | cons v _ ih =>
    rw [nodup_cons] at hn
    rw [forall_mem_cons] at hf
    obtain ⟨hs,hl,hk,hc⟩ := h.step hf.1 ht
    obtain ⟨he,hl',hc'⟩ := ih hs hn.2
      (fun v' hv' => hk v' (fun heq => hn.1 (heq ▸ hv')) (hf.2 v' hv'))
    refine ⟨he,hl.trans hl',?_⟩
    rw [hookCount,hc,hc',foldl_cons]
    -- The sums only grow, so the threshold lies in at most one of the two steps.
    split_ifs <;> simp only [Reaches] at * <;> omega

end InEpoch

end Store

namespace World

variable {R : Type} {k : StakingKeeper R} {w : World R}

/-- Where no validator is slashed twice in an epoch, the slashed power is the sum over the slashed
set and at most the total, and a threshold is reported once, by the slash that reaches it. -/
theorem slashed_power_counted (h : ((system k).restrict SlashedOnce).Reachable w) :
    ∃ epoch total, w.store.getEpoch = .ok epoch ∧
      w.store.votingPower.get epoch.epochNumber = some total ∧
      ∀ (vals : List Address) (s : Store), vals.Nodup →
        (∀ v ∈ vals, w.store.slashedValSet.get₂ epoch.epochNumber v = none) →
        vals.foldl Store.afterSlash w.store = s →
        s.slashedVotingPower.get epoch.epochNumber = some (s.slashedSum epoch.epochNumber) ∧
        s.slashedSum epoch.epochNumber ≤ total ∧
        ∀ threshold ∈ Store.slashThresholds, Store.hookCount threshold w.store vals =
          if Store.Reaches total (w.store.slashedSum epoch.epochNumber)
            (s.slashedSum epoch.epochNumber) threshold then 1 else 0 := by
  obtain ⟨n,e,hc,-,hr⟩ := reachable_exportable h
  have hnm := hc.calendar.number
  have hi : w.store.InEpoch n (totalPower (w.store.valSet.sub n)) := by
    refine ⟨hr.records,⟨e,hc.calendar.getEpoch,hnm⟩,?_⟩
    rw [hr.records.powers,if_pos le_rfl]
  rw [← hnm] at hi
  refine ⟨e,_,hc.calendar.getEpoch,hi.total,?_⟩
  rintro vals s hn hf rfl
  have he := (hi.run hn hf (mem_cons_self : (33 : Int) ∈ Store.slashThresholds)).1
  exact ⟨he.slashedPower,he.le_total,fun threshold ht => (hi.run hn hf ht).2.2⟩

end World

namespace Regtest

open Epoching.World

/-- The validator is slashed in the first epoch; in the second one, its next slash reaches the
threshold. -/
theorem slashed_power_counted_second : ∃ w, ((system keeper).restrict SlashedOnce).Reachable w ∧
    w.store.slashedSum 1 = 10 ∧ Store.hookCount 33 w.store [operator] = 1 := by
  have hrn : holds ((block 1 [.slash operator] ++ block 2 [] ++ block 3 []).foldlM
      (next slashedOnce)
      (genesis 2 (Epoch.new 0 2 0 (some 0)))) (fun w => holds w.store.getEpoch
        (fun e => e.epochNumber = 2) &&
        decide (w.store.slashedSum 1 = 10 ∧ w.store.slashedValSet.get₂ 2 operator = none ∧
          w.store.votingPower.get 2 = some 10 ∧ w.store.slashedSum 2 = 0 ∧
          (w.store.afterSlash operator).slashedSum 2 = 10)) = true := by
    decide +kernel
  obtain ⟨w,hr,ht⟩ := reachable_run slashedOnce_spec (by decide) hrn
  rw [Bool.and_eq_true] at ht
  obtain ⟨e,he,hn⟩ := holds_iff.mp ht.1
  obtain ⟨h1,hf,hp,h2,ha⟩ := of_decide_eq_true ht.2
  obtain ⟨e',total,he',hp',hc⟩ := slashed_power_counted hr
  cases he.symm.trans he'
  rw [of_decide_eq_true hn] at hp' hc
  cases hp.symm.trans hp'
  refine ⟨w,hr,h1,?_⟩
  rw [(hc [operator] _ (by simp) (by simpa using hf) rfl).2.2 33 (by decide),foldl_cons,
    foldl_nil,h2,ha]
  decide

/-- The only validator is slashed twice in a block: twice its power, and twice the total, is
counted. -/
theorem slashed_twice_counted_twice :
    ∃ w, (system keeper).Reachable w ∧ w.store.slashedVotingPower.get 1 = some 20 ∧
    w.store.slashedSum 1 = 10 ∧ w.store.votingPower.get 1 = some 10 := by
  have hrn : holds ((block 1 [.slash operator,.slash operator]).foldlM (next fun _ _ => true)
      (genesis 2 (Epoch.new 0 2 0 (some 0))))
        (fun w => decide (w.store.slashedVotingPower.get 1 = some 20 ∧
        w.store.slashedSum 1 = 10 ∧ w.store.votingPower.get 1 = some 10)) = true := by
    decide +kernel
  obtain ⟨w,hr,ht⟩ := reachable_run (G := fun _ _ _ => True)
    (fun _ _ _ _ => trivial) (by decide) hrn
  exact ⟨w,hr.of_restrict,of_decide_eq_true ht⟩

end Regtest

end AnonChain.Epoching
