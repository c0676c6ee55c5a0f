import AnonChain.Finality.Commits
import AnonChain.Lib.Keyed

/-! The voting power table and the distribution cache of a height. -/

namespace AnonChain.Finality

open Lib List KVStore State
open FinalityProviderDistInfo (shouldBeZeroed)
open BtcStaking (Ctx)

/-- What a provider needs to count as active, apart from its rank. -/
def FinalityProviderDistInfo.Eligible (fp : FinalityProviderDistInfo) : Prop :=
  0 < fp.totalBondedSat ∧ fp.isTimestamped = true ∧ fp.isJailed = false ∧ fp.isSlashed = false

instance (fp : FinalityProviderDistInfo) : Decidable fp.Eligible :=
  inferInstanceAs (Decidable (_ ∧ _ ∧ _ ∧ _))

/-- The key the ranking sorts by: providers without power last, then by stake from the largest on,
then by public key. -/
def FinalityProviderDistInfo.rank (fp : FinalityProviderDistInfo) :
    Lex (Bool × Lex (Natᵒᵈ × BIP340PubKey)) :=
  toLex (fp.shouldBeZeroed,
    toLex (OrderDual.toDual (if fp.shouldBeZeroed then 0 else fp.totalBondedSat),fp.btcPk))

section

variable {i j : FinalityProviderDistInfo}

theorem sortsBefore_iff : i.sortsBefore j = true ↔ i.rank < j.rank := by
  simp only [FinalityProviderDistInfo.sortsBefore,FinalityProviderDistInfo.rank,
    Prod.Lex.toLex_lt_toLex]
  cases hi : i.shouldBeZeroed <;> cases hj : j.shouldBeZeroed <;> simp
  split
  case isTrue h => simp [h]
  case isFalse h => simp [h]

theorem btcPk_of_rank_eq (h : i.rank = j.rank) : i.btcPk = j.btcPk := by
  simp only [FinalityProviderDistInfo.rank,toLex_inj,Prod.mk.injEq] at h
  exact h.2.2

theorem Eligible.not_zeroed (h : i.Eligible) : i.shouldBeZeroed = false := by
  simp [shouldBeZeroed,h.2.1,h.2.2.1,h.2.2.2]

theorem rank_le_iff (hi : i.Eligible) (hj : j.Eligible) : i.rank ≤ j.rank ↔
    j.totalBondedSat < i.totalBondedSat ∨ i.totalBondedSat = j.totalBondedSat ∧
      i.btcPk ≤ j.btcPk := by
  simp [FinalityProviderDistInfo.rank,Prod.Lex.toLex_le_toLex,Eligible.not_zeroed hi,
    Eligible.not_zeroed hj]

theorem eligible_of_rank_le (h : i.rank ≤ j.rank) (hj : j.Eligible) : i.Eligible := by
  have hz := Eligible.not_zeroed hj
  obtain ⟨hp,-⟩ := hj
  simp only [FinalityProviderDistInfo.rank,Prod.Lex.toLex_le_toLex,hz] at h
  have hi : i.shouldBeZeroed = false := by
    rcases h with hl | ⟨he,-⟩
    · exact absurd hl (by simp)
    · exact he
  have hs : 0 < i.totalBondedSat := by
    simp only [hi,lt_irrefl,false_or,true_and,Bool.false_eq_true,if_false,
      OrderDual.toDual_lt_toDual,OrderDual.toDual_inj] at h
    omega
  simp only [shouldBeZeroed,Bool.or_eq_false_iff,Bool.not_eq_false'] at hi
  exact ⟨hs,hi.1.2,hi.1.1,hi.2⟩

end

namespace VotingPowerDistCache

theorem sort_pairwise (fps : List FinalityProviderDistInfo) :
    (sortFinalityProvidersWithZeroedVotingPower fps).Pairwise (fun i j => i.rank ≤ j.rank) := by
  have hr : ∀ i j : FinalityProviderDistInfo, j.sortsBefore i = false ↔ i.rank ≤ j.rank := by
    intro i j
    rw [← not_lt,← sortsBefore_iff,Bool.not_eq_true]
  have ht : Std.Total (fun i j : FinalityProviderDistInfo => j.sortsBefore i = false) := by
    refine ⟨?_⟩
    intro i j
    simp only [hr]
    exact le_total _ _
  have htr : IsTrans FinalityProviderDistInfo (fun i j => j.sortsBefore i = false) := by
    refine ⟨?_⟩
    intro i j k
    simp only [hr]
    exact le_trans
  have hs := pairwise_insertionSort
    (fun i j : FinalityProviderDistInfo => j.sortsBefore i = false) fps
  exact hs.imp (fun h => (hr _ _).mp h)

theorem countActive_spec (m : Nat) (fps : List FinalityProviderDistInfo) :
    (countActive m fps).1 ≤ m ∧ (countActive m fps).1 ≤ fps.length ∧
    (∀ fp ∈ fps.take (countActive m fps).1, fp.Eligible) ∧
    (countActive m fps).2 = ((fps.take (countActive m fps).1).map (·.totalBondedSat)).sum := by
  induction fps generalizing m with
  | nil => simp [countActive]
  | cons fp _ ih =>
    cases m with
    | zero => simp [countActive]
    | succ m =>
      obtain ⟨hle,hl,he,hs⟩ := ih m
      simp only [countActive]
      split
      case isTrue => simp
      case isFalse hf =>
        have hf' : fp.Eligible := by
          simp only [not_or,Bool.not_eq_false,Bool.not_eq_true] at hf
          exact ⟨Nat.pos_of_ne_zero hf.1,hf.2.1,hf.2.2.1,hf.2.2.2⟩
        refine ⟨by simp only; omega,by simp only [length_cons]; omega,?_,?_⟩
        · simp only [take_succ_cons,forall_mem_cons]
          exact ⟨hf',he⟩
        · simp only [take_succ_cons,map_cons,sum_cons,hs]

theorem countActive_maximal {m : Nat} {fps : List FinalityProviderDistInfo}
    (hs : fps.Pairwise (fun i j => i.rank ≤ j.rank)) :
    (countActive m fps).1 = m ∨ ∀ fp ∈ fps.drop (countActive m fps).1, ¬ fp.Eligible := by
  induction fps generalizing m with
  | nil => simp
  | cons fp _ ih =>
    rw [pairwise_cons] at hs
    cases m with
    | zero => simp [countActive]
    | succ m =>
      simp only [countActive]
      split
      case isTrue ho =>
        refine .inr ?_
        have hfp : ¬ fp.Eligible := by
          rintro ⟨hp,ht,hj,hsl⟩
          simp [ht,hj,hsl] at ho
          omega
        intro fp' hfp' he
        cases mem_cons.mp hfp' with
        | inl heq => exact hfp (heq ▸ he)
        | inr hm => exact hfp (eligible_of_rank_le (hs.1 fp' hm) he)
      case isFalse =>
        cases ih (m := m) hs.2 with
        | inl hf => exact .inl (by rw [hf])
        | inr hr => exact .inr hr

theorem take_before_drop {fps : List FinalityProviderDistInfo}
    (hs : fps.Pairwise (fun i j => i.rank ≤ j.rank))
    (hn : (fps.map (·.btcPk)).Nodup) {n : Nat} {a fp : FinalityProviderDistInfo}
    (ha : a ∈ fps.take n) (hf : fp ∈ fps.drop n) : a.rank < fp.rank := by
  rw [← take_append_drop n fps] at hs hn
  refine lt_of_le_of_ne ((pairwise_append.mp hs).2.2 a ha fp hf) ?_
  intro he
  rw [map_append,nodup_append] at hn
  exact hn.2.2 a.btcPk (mem_map_of_mem ha) fp.btcPk (mem_map_of_mem hf) (btcPk_of_rank_eq he)

theorem sort_perm (fps : List FinalityProviderDistInfo) :
    (sortFinalityProvidersWithZeroedVotingPower fps).Perm fps :=
  perm_insertionSort _ _

theorem active_eligible {dc : VotingPowerDistCache} {m : Nat} {fp : FinalityProviderDistInfo}
    (h : fp ∈ (dc.applyActiveFinalityProviders m).getActiveFinalityProviderSet) :
    fp ∈ dc.finalityProviders ∧ fp.Eligible := by
  exact ⟨(sort_perm _).mem_iff.mp (mem_of_mem_take h),(countActive_spec m _).2.2.1 fp h⟩

/-- A cache as it is stored: distinct providers with stake, ranked, the leading ones active. -/
structure Ranked (dc : VotingPowerDistCache) : Prop where
  nodup : (dc.finalityProviders.map (·.btcPk)).Nodup
  bonded : ∀ fp ∈ dc.finalityProviders, 0 < fp.totalBondedSat
  sorted : dc.finalityProviders.Pairwise (fun i j => i.rank ≤ j.rank)
  count : dc.numActiveFps ≤ dc.finalityProviders.length
  eligible : ∀ fp ∈ dc.getActiveFinalityProviderSet, fp.Eligible
  total : dc.totalVotingPower = (dc.getActiveFinalityProviderSet.map (·.totalBondedSat)).sum

theorem applyActive_ranked {dc : VotingPowerDistCache} (m : Nat)
    (hn : (dc.finalityProviders.map (·.btcPk)).Nodup)
    (hb : ∀ fp ∈ dc.finalityProviders, 0 < fp.totalBondedSat) :
    (dc.applyActiveFinalityProviders m).Ranked := by
  have hp := sort_perm dc.finalityProviders
  obtain ⟨_,hl,he,hs⟩ :=
    countActive_spec m (sortFinalityProvidersWithZeroedVotingPower dc.finalityProviders)
  exact ⟨(hp.map _).nodup_iff.mpr hn,fun fp hf => hb fp (hp.mem_iff.mp hf),sort_pairwise _,hl,he,hs⟩

end VotingPowerDistCache

variable {s : State} {ctx : Ctx} {dc : VotingPowerDistCache}

theorem setVotingPower_foldl_nonempty (f : FinalityProviderDistInfo → Nat) {height : Nat}
    (l : List FinalityProviderDistInfo) (s : State)
    (hs : ∀ h t, s.votingPower.get h = some t → t.entries ≠ []) :
    ∀ h t, (l.foldl (fun s fp => s.setVotingPower fp.btcPk height (f fp)) s).votingPower.get h =
      some t → t.entries ≠ [] := by
  refine foldl_keeps (P := fun s : State => ∀ h t, s.votingPower.get h = some t →
    t.entries ≠ []) ?_ hs
  intro fp _ s hs h t ht
  simp only [setVotingPower,set₂,get_set] at ht
  split at ht
  · intro hn
    have hg : t.get fp.btcPk = some (f fp) := by
      rw [← Option.some.inj ht]
      exact get_set_self _ _ _
    have hm := mem_entries.mpr hg
    rw [hn] at hm
    simp at hm
  · exact hs h t ht

theorem setVotingPower_foldl_power (f : FinalityProviderDistInfo → Nat) (height : Nat)
    {l : List FinalityProviderDistInfo} (hn : (l.map (·.btcPk)).Nodup) (s : State) :
    (∀ fp ∈ l, (l.foldl (fun s fp => s.setVotingPower fp.btcPk height (f fp))
      s).getVotingPower fp.btcPk
      height = f fp) ∧
    ∀ pk, pk ∉ l.map (·.btcPk) →
      (l.foldl (fun s fp => s.setVotingPower fp.btcPk height (f fp)) s).getVotingPower pk height =
        s.getVotingPower pk height := by
  induction l generalizing s with
  | nil => simp
  | cons fp l ih =>
    rw [map_cons,nodup_cons] at hn
    obtain ⟨hi,ho⟩ := ih hn.2 (s.setVotingPower fp.btcPk height (f fp))
    have hs : ∀ pk, (s.setVotingPower fp.btcPk height (f fp)).getVotingPower pk height =
        if pk = fp.btcPk then f fp else s.getVotingPower pk height := by
      intro pk
      simp only [getVotingPower,setVotingPower,get₂_set₂,true_and]
      by_cases hp : pk = fp.btcPk <;> simp [hp]
    simp only [foldl_cons,map_cons,mem_cons,not_or]
    refine ⟨?_,?_⟩
    · rintro fp' (rfl | hm)
      · rw [ho fp'.btcPk hn.1,hs,if_pos rfl]
      · exact hi fp' hm
    · rintro pk ⟨hne,hp⟩
      rw [ho pk hp,hs,if_neg hne]

theorem hasTimestampedPubRand_commit {epoch height : Nat} {pk : BIP340PubKey}
    (h : s.hasTimestampedPubRand epoch pk height = true) :
    ∃ k c, s.pubRandCommits.get₂ pk k = some c ∧ c.startHeight ≤ height := by
  unfold hasTimestampedPubRand at h
  split at h
  case h_1 c hc =>
    simp only [getTimestampedPubRandCommitForHeight,ok_iff] at hc
    obtain ⟨c',hl,_⟩ := hc
    obtain ⟨k,hg,hr⟩ := getPubRandCommitForHeight_covers hl
    exact ⟨k,c',hg,(isInRange_iff.mp hr).1⟩
  case h_2 => simp at h

theorem recorded_active_commit {fp : FinalityProviderDistInfo}
    (h : fp ∈ (s.recordVotingPowerAndCache ctx dc).2.getActiveFinalityProviderSet) :
    ∃ k c, s.pubRandCommits.get₂ fp.btcPk k = some c ∧ c.startHeight ≤ ctx.header.height := by
  obtain ⟨hm,he⟩ := VotingPowerDistCache.active_eligible h
  simp only [mem_map] at hm
  obtain ⟨fp₀,_,rfl⟩ := hm
  exact hasTimestampedPubRand_commit he.2.1

theorem recordVotingPowerAndCache_table {t : KVStore BIP340PubKey Nat}
    (hs : ∀ h t, s.votingPower.get h = some t → t.entries ≠ [])
    (hnn : s.votingPower.get ctx.header.height = none)
    (ht : (s.recordVotingPowerAndCache ctx dc).1.votingPower.get ctx.header.height = some t) :
    t.entries ≠ [] ∧ (s.recordVotingPowerAndCache ctx dc).2.getActiveFinalityProviderSet ≠ [] := by
  refine ⟨setVotingPower_foldl_nonempty (·.totalBondedSat) _ s hs _ t ht,?_⟩
  intro hn
  simp only [recordVotingPowerAndCache] at hn ht
  rw [hn] at ht
  simp only [foldl_nil,setVotingPowerDistCache,hnn] at ht
  simp at ht

/-- The powers in the table of a height are those of the active providers of its cache. -/
structure CacheAgrees (s : State) (height : Nat) (dc : VotingPowerDistCache) : Prop where
  ranked : dc.Ranked
  powers : ∀ fp ∈ dc.getActiveFinalityProviderSet,
    s.getVotingPower fp.btcPk height = fp.totalBondedSat
  others : ∀ pk, (∀ fp ∈ dc.getActiveFinalityProviderSet, fp.btcPk ≠ pk) →
    s.getVotingPower pk height = 0

theorem CacheAgrees.congr {s' : State} {height : Nat} (h : CacheAgrees s height dc)
    (he : s'.votingPower.get height = s.votingPower.get height) : CacheAgrees s' height dc := by
  have hp : ∀ pk, s'.getVotingPower pk height = s.getVotingPower pk height := by
    intro pk
    simp only [getVotingPower,KVStore.get₂,KVStore.sub,KVStore.getD,he]
  refine ⟨h.ranked,?_,?_⟩
  · intro fp hf
    rw [hp]
    exact h.powers fp hf
  · intro pk hpk
    rw [hp]
    exact h.others pk hpk

theorem recordVotingPowerAndCache_agrees (hn : (dc.finalityProviders.map (·.btcPk)).Nodup)
    (hb : ∀ fp ∈ dc.finalityProviders, 0 < fp.totalBondedSat)
    (hnn : s.votingPower.get ctx.header.height = none) :
    CacheAgrees (s.recordVotingPowerAndCache ctx dc).1 ctx.header.height
      (s.recordVotingPowerAndCache ctx dc).2 := by
  have hr : (s.recordVotingPowerAndCache ctx dc).2.Ranked := by
    refine VotingPowerDistCache.applyActive_ranked _ ?_ ?_
    · simp only [map_map]
      exact hn
    · intro fp hf
      obtain ⟨fp₀,hf₀,rfl⟩ := mem_map.mp hf
      exact hb fp₀ hf₀
  have ha : (((s.recordVotingPowerAndCache ctx dc).2.getActiveFinalityProviderSet).map
      (·.btcPk)).Nodup := hr.nodup.sublist ((take_sublist _ _).map _)
  obtain ⟨hi,ho⟩ := setVotingPower_foldl_power (·.totalBondedSat) ctx.header.height ha s
  refine ⟨hr,hi,?_⟩
  intro pk hp
  have hm : pk ∉ ((s.recordVotingPowerAndCache ctx dc).2.getActiveFinalityProviderSet).map
      (·.btcPk) := by
    intro hm
    obtain ⟨fp,hf,he⟩ := mem_map.mp hm
    exact hp fp hf he
  refine (ho pk hm).trans ?_
  simp [getVotingPower,KVStore.get₂,KVStore.sub,KVStore.getD,hnn]

end AnonChain.Finality
