import AnonChain.Finality.Effects
import AnonChain.Regtest

/-! The cursor of rewarding, and the calls that pass no height although one waits. -/

namespace AnonChain.Finality.State

open Lib List

variable {s s' : State} {a : Nat} {l : List Nat}

def cursor (s : State) (a : Nat) : Nat :=
  if s.nextHeightToReward = 0 then a else s.nextHeightToReward

def passed (s : State) (a target m : Nat) : List Nat := s.rewardedFrom (s.cursor a) target m

theorem isFinalized_iff {h : Nat} : s.isFinalized h = true ↔ s.FinalizedAt h := by
  simp [isFinalized,FinalizedAt,Option.any_eq_true]

theorem mem_finalizedFrom {i n x : Nat} :
    x ∈ s.finalizedFrom i n ↔ s.FinalizedAt x ∧ i ≤ x ∧ x < i+n := by
  rw [finalizedFrom,mem_filter,mem_range'_1,isFinalized_iff,and_comm]

theorem finalizedFrom_append (s : State) (i n k : Nat) :
    s.finalizedFrom i (n+k) = s.finalizedFrom i n ++ s.finalizedFrom (i+n) k := by
  rw [finalizedFrom,← range'_append_1,filter_append]
  rfl

theorem finalizedFrom_afterLast (s : State) (i n : Nat) : i ≤ afterLast (s.finalizedFrom i n) i ∧
    s.finalizedFrom i (afterLast (s.finalizedFrom i n) i-i) = s.finalizedFrom i n := by
  induction n with
  | zero => simp [finalizedFrom,afterLast]
  | succ n ih =>
    have ho : s.finalizedFrom (i+n) 1 = if s.isFinalized (i+n) then [i+n] else [] := by
      simp [finalizedFrom,filter_cons]
    rw [finalizedFrom_append,ho]
    split
    case isTrue hf =>
      have hl : afterLast (s.finalizedFrom i n ++ [i+n]) i = i+n+1 := by simp [afterLast]
      rw [hl,show i+n+1-i = n+1 by omega,finalizedFrom_append,ho,if_pos hf]
      exact ⟨by omega,rfl⟩
    case isFalse => simpa using ih

theorem handleRewarding_passed {target m : Nat} (ha : s.getBTCStakingActivatedHeight = .ok a)
    (h : s.handleRewarding target m = .ok s') :
    s'.cursor a = afterLast (s.passed a target m) (s.cursor a) ∧
      (s.nextHeightToReward < s'.nextHeightToReward → s.passed a target m ≠ []) ∧
      (∀ k, s'.votingPowerDistCache.get k =
        if k ∈ s.passed a target m then none else s.votingPowerDistCache.get k) ∧
      ∃ c n, s' = { s with votingPowerDistCache := c, nextHeightToReward := n } := by
  have hs : s.startHeightToReward = .ok (s.cursor a) := by
    unfold startHeightToReward cursor
    split
    · rw [ha]
      rfl
    · rfl
  obtain ⟨start,c,hs',rfl,hc⟩ := handleRewarding_eq h
  obtain rfl := Except.ok.inj (hs.symm.trans hs')
  have hle : s.cursor a ≤ afterLast (s.passed a target m) (s.cursor a) :=
    (finalizedFrom_afterLast s _ _).1
  rw [Int.toNat_natCast,← passed] at *
  refine ⟨?_,?_,hc,_,_,rfl⟩
  · by_cases hm : afterLast (s.passed a target m) (s.cursor a) = s.cursor a
    · simp only [hm,if_true]
      rfl
    · simp only [hm,if_false]
      exact if_neg (by dsimp only; omega)
  · intro hl hn
    simp [hn,afterLast] at hl

inductive RewardAction where
  | tally (header : HeaderInfo) (maxFinalizedBlocks : Nat)
  | reward (targetHeight maxRewardedBlocks : Nat)
  | other

/-- The ends of blocks after the activation at height `a`. Whatever else happens finalizes nothing
and leaves the two cursors alone. -/
def rewarding (a : Nat) : System State RewardAction where
  init s := s.BlocksKeyed ∧ s.getBTCStakingActivatedHeight = .ok a ∧ s.nextHeightToReward = 0 ∧
    ∀ h, ¬ s.FinalizedAt h
  step s act s' := match act with
    | .tally header m => s.tallyBlocks header m = .ok s'
    | .reward target m => 1 ≤ m ∧ s.handleRewarding target m = .ok s'
    | .other => s'.BlocksKeyed ∧ s'.getBTCStakingActivatedHeight = .ok a ∧
      (∀ h, s'.FinalizedAt h ↔ s.FinalizedAt h) ∧
      s'.nextHeightToFinalize = s.nextHeightToFinalize ∧
      s'.nextHeightToReward = s.nextHeightToReward

def passedBy (a : Nat) (s : State) : RewardAction → List Nat
  | .reward target m => s.passed a target m
  | .tally _ _ => []
  | .other => []

structure Rewarded (a : Nat) (s : State) (l : List Nat) : Prop where
  keyed : s.BlocksKeyed
  activated : s.getBTCStakingActivatedHeight = .ok a
  bounds : ∀ h, s.FinalizedAt h → a ≤ h ∧ h < s.nextHeightToFinalize
  cursor_ge : a ≤ s.cursor a
  cursor_le : s.cursor a ≤ max s.nextHeightToFinalize a
  eq : l = s.finalizedFrom a (s.cursor a-a)

theorem Rewarded.mem_iff (h : Rewarded a s l) {x : Nat} :
    x ∈ l ↔ s.FinalizedAt x ∧ x < s.cursor a := by
  rw [h.eq,mem_finalizedFrom]
  refine and_congr_right fun hf => ?_
  have := h.bounds x hf
  omega

/-- Heights are finalized behind both cursors, as `TallyBlocks` does. -/
theorem Rewarded.tallied (h : Rewarded a s l) (hk : s'.BlocksKeyed)
    (ha : s'.getBTCStakingActivatedHeight = .ok a)
    (hnx : s'.nextHeightToReward = s.nextHeightToReward)
    (hl : s.nextHeightToFinalize ≤ s'.nextHeightToFinalize)
    (hs : ∀ j, s.FinalizedAt j → s'.FinalizedAt j) (hn : ∀ j, s'.FinalizedAt j → s.FinalizedAt j ∨
      (max s.nextHeightToFinalize a ≤ j ∧ j < s'.nextHeightToFinalize)) : Rewarded a s' l := by
  have hc : s'.cursor a = s.cursor a := by rw [cursor,hnx]; rfl
  have hcl := h.cursor_le
  refine ⟨hk,ha,?_,hc ▸ h.cursor_ge,by omega,?_⟩
  · intro j hf
    have := (hn j hf).imp_left (h.bounds j)
    omega
  · rw [h.eq,hc]
    refine filter_congr fun j hj => Bool.eq_iff_iff.mpr ?_
    rw [mem_range'_1] at hj
    rw [isFinalized_iff,isFinalized_iff]
    exact ⟨hs j,fun hf => (hn j hf).resolve_right (by omega)⟩

theorem Rewarded.reward {target m : Nat} (h : Rewarded a s l)
    (hst : s.handleRewarding target m = .ok s') : Rewarded a s' (l ++ s.passed a target m) := by
  obtain ⟨hn,-,-,c,n,hs'⟩ := handleRewarding_passed h.activated hst
  obtain ⟨hg,hp⟩ : s.cursor a ≤ s'.cursor a ∧
      s.finalizedFrom (s.cursor a) (s'.cursor a-s.cursor a) = s.passed a target m := by
    rw [hn]
    exact finalizedFrom_afterLast s _ _
  have hc := h.cursor_le
  have hcg := h.cursor_ge
  have hnf : s'.nextHeightToFinalize = s.nextHeightToFinalize := by rw [hs']
  refine ⟨by rw [hs']; exact h.keyed,by rw [hs']; exact h.activated,by
    rw [hs']; exact h.bounds,by omega,?_,?_⟩
  · rw [hn,hnf,afterLast]
    cases hl : (s.passed a target m).getLast? with
    | none => exact hc
    | some x =>
      have := h.bounds x (mem_finalizedFrom.mp (mem_of_getLast? hl)).1
      simp only [Option.map_some,Option.getD_some]
      omega
  · have hf : s'.finalizedFrom = s.finalizedFrom := by rw [hs']; rfl
    rw [h.eq,← hp,hf,show s'.cursor a-a = s.cursor a-a+(s'.cursor a-s.cursor a) by omega,
      finalizedFrom_append,show a+(s.cursor a-a) = s.cursor a by omega]

theorem rewarded_reachable (h : ((rewarding a).recorded (passedBy a)).Reachable (s,l)) :
    Rewarded a s l := by
  refine System.Reachable.invariant (P := fun p => Rewarded a p.1 p.2) ?_ ?_ h
  · rintro ⟨s,l⟩ ⟨⟨hk,ha,hz,hnn⟩,hl⟩
    have hc : s.cursor a = a := if_pos hz
    exact ⟨hk,ha,fun h hf => absurd hf (hnn h),hc.ge,by simp [hc],
      by simpa [hc,finalizedFrom] using hl⟩
  · rintro ⟨s,l⟩ act ⟨s',_⟩ _ hi ⟨hst,rfl⟩
    dsimp only at *
    cases act with
    | tally _ m =>
      obtain ⟨hg,-,a',k,ha,-,ht⟩ := tallyBlocks_tallied hi.keyed hst
      obtain rfl := Except.ok.inj (hi.activated.symm.trans ha)
      obtain ⟨b,n,hs'⟩ := ht.frame
      rw [passedBy,append_nil]
      have hc := ht.next
      refine hi.tallied hg.keyed (by rw [hs']; exact ha) (by rw [hs']) ?_ ht.stays ?_
      · split at hc <;> omega
      · intro j hf
        rcases ht.newly j hf with hold | ⟨hle,hlt,_⟩
        · exact .inl hold
        · refine .inr ⟨hle,?_⟩
          split at hc <;> omega
    | reward _ m => exact hi.reward hst.2
    | other =>
      obtain ⟨hk,ha,hfn,hn,hnr⟩ := hst
      rw [passedBy,append_nil]
      exact hi.tallied hk ha hnr hn.ge (fun j => (hfn j).mpr) (fun j hf => .inl ((hfn j).mp hf))

/-- In every run the finalized heights are passed once and in order, and none is left behind. A call
passes one of those that wait exactly if one of them is within its window. -/
theorem rewarding_progress {rewarded : List Nat}
    (h : ((rewarding a).recorded (passedBy a)).Reachable (s,rewarded)) :
    rewarded.Pairwise (· < ·) ∧ (∀ x ∈ rewarded, s.FinalizedAt x ∧ a ≤ x) ∧
    (∀ x, s.FinalizedAt x → x < s.nextHeightToReward → x ∈ rewarded) ∧
    ∀ {target m : Nat} {s' : State}, 1 ≤ m → s.handleRewarding target m = .ok s' →
      let Waits x := s.FinalizedAt x ∧ x ≤ target ∧ x ∉ rewarded
      (∀ x, s'.votingPowerDistCache.get x =
        if x ∈ s.passed a target m then none else s.votingPowerDistCache.get x) ∧
      (((∃ x, Waits x) → s.passed a target m ≠ [] ∨ s.nextHeightToReward < s'.nextHeightToReward) ↔
        ((∃ x, Waits x) → ∃ x, Waits x ∧ x ≤ windowEnd (s.cursor a) m)) := by
  have hi := rewarded_reachable h
  refine ⟨?_,?_,?_,?_⟩
  · rw [hi.eq]
    exact List.Pairwise.filter _ pairwise_lt_range'
  · intro x hx
    have hf := (hi.mem_iff.mp hx).1
    exact ⟨hf,(hi.bounds x hf).1⟩
  · intro x hf hl
    refine hi.mem_iff.mpr ⟨hf,?_⟩
    unfold cursor
    split <;> omega
  · intro target m s' hm hs Waits
    obtain ⟨-,hmv,hc,-⟩ := handleRewarding_passed hi.activated hs
    refine ⟨hc,imp_congr_right fun _ => ?_⟩
    rw [or_iff_left_of_imp hmv,← length_pos_iff,length_pos_iff_exists_mem]
    refine exists_congr fun x => ?_
    simp only [passed,rewardedFrom,mem_finalizedFrom,Waits,hi.mem_iff]
    by_cases hf : s.FinalizedAt x
    · simp only [hf,true_and]
      omega
    · simp [hf]

/-- Heights 1 and 3 have a provider that voted, height 2 has none. -/
def Regtest.gap (finalized : Bool) : State :=
  { (AnonChain.Regtest.genesis 1).stores.fin with
    blocks := ((KVStore.empty.set 1 ⟨1,[],finalized⟩).set 2 ⟨2,[],false⟩).set 3 ⟨3,[],finalized⟩
    votes := (KVStore.empty.set₂ 1 [1] []).set₂ 3 [1] []
    votingPower := (KVStore.empty.set₂ 1 [1] 1).set₂ 3 [1] 1
    votingPowerDistCache := (KVStore.empty.set 1 ⟨1,[],1⟩).set 3 ⟨1,[],1⟩ }

/-- Heights 1 and 3 are finalized, and height 1 is rewarded. -/
def Regtest.stopped : State :=
  { Regtest.gap true with
    nextHeightToFinalize := 4
    nextHeightToReward := 2
    votingPowerDistCache := KVStore.empty.set 3 ⟨1,[],1⟩ }

theorem Regtest.stopped_reachable :
    ((rewarding 1).recorded (passedBy 1)).Reachable (stopped,[1]) := by
  have hbl : ∀ h b, (gap false).blocks.get h = some b → b.height = h ∧ b.finalized = false := by
    intro h b hb
    exact (show ∀ e ∈ (gap false).blocks.entries, e.2.height = e.1 ∧
      e.2.finalized = false by decide) (h,b)
      (KVStore.mem_entries.mpr hb)
  have hi : ((rewarding 1).recorded (passedBy 1)).Reachable (gap false,[]) := by
    refine .init ⟨⟨fun h b hb => (hbl h b hb).1,rfl,rfl,?_⟩,rfl⟩
    rintro h ⟨b,hb,hf⟩
    simp [(hbl h b hb).2] at hf
  have ht : ((rewarding 1).recorded (passedBy 1)).Reachable
      ({ gap true with nextHeightToFinalize := 4 },[]) :=
    hi.step (a := .tally ⟨3,0,[]⟩ 10) ⟨rfl,rfl⟩
  exact ht.step (a := .reward 3 1) ⟨⟨le_rfl,rfl⟩,rfl⟩

open State.Regtest

theorem rewarding_progress_window : ∃ s', stopped.handleRewarding 3 2 = .ok s' ∧
    (stopped.passed 1 3 2 ≠ [] ∨ stopped.nextHeightToReward < s'.nextHeightToReward) := by
  have hw : stopped.FinalizedAt 3 ∧ 3 ≤ 3 ∧ 3 ∉ [1] := ⟨⟨_,rfl,rfl⟩,le_rfl,by decide⟩
  exact ⟨_,rfl,((rewarding_progress stopped_reachable).2.2.2 (by decide) rfl).2.mpr
    (fun _ => ⟨3,hw,by decide⟩) ⟨3,hw⟩⟩

/-- The height without providers stops rewarding one height at a time: height 3 is never passed. -/
theorem gap_stops_rewarding : ((rewarding 1).recorded (passedBy 1)).Reachable (stopped,[1]) ∧
    stopped.FinalizedAt 3 ∧ stopped.passed 1 3 1 = [] ∧
    stopped.handleRewarding 3 1 = .ok stopped :=
  ⟨stopped_reachable,⟨_,rfl,rfl⟩,rfl,rfl⟩

end AnonChain.Finality.State
