import AnonChain.BtcCheckpoint.MainChain

/-! The pass keeps just the submissions that a chain of submissions from epoch one leads to. -/

namespace AnonChain.BtcCheckpoint

open Lib List KVStore Option State
open SubmissionBtcInfo (isBetterThan submissionDepth)

variable {s : State} {e : Nat}

def State.dataOf (s : State) (e : Nat) : EpochData := s.epochData.getD e newEmptyEpochData

def State.keysOf (s : State) (e : Nat) : List SubmissionKey := (s.dataOf e).keys

def State.statusOf (s : State) (e : Nat) : BtcStatus := (s.dataOf e).status

theorem dataOf_eq {ed : EpochData} (h : s.epochData.get e = some ed) :
    s.dataOf e = ed := by simp [dataOf,KVStore.getD,h]

theorem keysOf_of_none (h : s.epochData.get e = none) : s.keysOf e = [] := by
  simp [keysOf,dataOf,KVStore.getD,h,newEmptyEpochData]

theorem exists_of_keysOf_ne_nil (h : s.keysOf e ≠ []) :
    s.epochData.get e = some (s.dataOf e) := by
  cases hg : s.epochData.get e with
  | none => exact absurd (keysOf_of_none hg) h
  | some ed => rw [dataOf_eq hg]

/-- The submission is listed for epoch `e`, is on the main chain, and follows a chain of such
submissions, one from each earlier epoch. -/
def State.Anchored (s : State) (b : BtcLightClient.State) : Nat → SubmissionKey → Prop :=
  Lib.Anchored (fun e sk => sk ∈ s.keysOf e ∧ OnChain b sk) (Before b)

/-- The summary of a member of `S` that no other member improves on. -/
structure IsBest (b : BtcLightClient.State) (S : SubmissionKey → Prop) (i : SubmissionBtcInfo) :
    Prop where
  mem : S i.submissionKey
  info : getSubmissionBtcInfo b i.submissionKey = .ok i
  best : ∀ sk, S sk → ∃ j, getSubmissionBtcInfo b sk = .ok j ∧ j.isBetterThan i = false

theorem depth_le_of_not_isBetterThan {i j : SubmissionBtcInfo} (h : j.isBetterThan i = false) :
    j.youngestBlockDepth ≤ i.youngestBlockDepth := by
  by_contra hl
  simp [isBetterThan,submissionDepth,Nat.lt_of_not_le hl] at h

theorem isBetterThan_irrefl (i : SubmissionBtcInfo) : i.isBetterThan i = false := by
  simp [isBetterThan]

theorem not_isBetterThan_trans {i j l : SubmissionBtcInfo} (h1 : l.isBetterThan i = false)
    (h2 : j.isBetterThan i = true) : l.isBetterThan j = false := by
  unfold isBetterThan submissionDepth at *
  grind

theorem IsBest.leads {b : BtcLightClient.State} {i : SubmissionBtcInfo}
    (h : IsBest b (s.Anchored b e) i) :
    Leads (fun e sk => sk ∈ s.keysOf e ∧ OnChain b sk) (Before b) e i.submissionKey := by
  refine ⟨h.mem,?_⟩
  intro p hp sk hps
  obtain ⟨j,hj,hb⟩ := h.best p hp
  exact hps.of_deeper (getSubmissionBtcInfo_infoOf hj) (getSubmissionBtcInfo_infoOf h.info)
    (depth_le_of_not_isBetterThan hb)

section

variable {b : BtcLightClient.State} {S : SubmissionKey → Prop} {seen : List SubmissionKey}
  {c : EpochChangesSummary} {sk : SubmissionKey} {parent : Option SubmissionBtcInfo}
  {c c' : EpochChangesSummary}

/-- The summary splits the keys seen so far into those in `S` and the others, and holds the best of
the former, at the right position if the first key is in `S`. -/
structure ChangesOf (b : BtcLightClient.State) (S : SubmissionKey → Prop)
    (seen : List SubmissionKey) (c : EpochChangesSummary) : Prop where
  keep : ∀ sk, sk ∈ c.submissionsToKeep ↔ sk ∈ seen ∧ S sk
  delete : ∀ sk, sk ∈ c.submissionsToDelete ↔ sk ∈ seen ∧ ¬ S sk
  sublist : c.submissionsToKeep.Sublist seen
  none : c.epochBestSubmission = none → c.submissionsToKeep = [] ∧ c.bestSubmissionIdx = 0
  best : ∀ i, c.epochBestSubmission = some i → IsBest b (fun sk => sk ∈ seen ∧ S sk) i
  idx : ∀ i, c.epochBestSubmission = some i → (∃ sk, seen.head? = some sk ∧ S sk) →
    seen[c.bestSubmissionIdx]? = some i.submissionKey

theorem changesOf_nil : ChangesOf b S [] ⟨[],[],none,0⟩ :=
  ⟨by simp,by simp,.refl _,by simp,by simp,by simp⟩

theorem head?_snoc {sk sk' : SubmissionKey} (h : (seen ++ [sk]).head? = some sk') :
    seen.head? = some sk' ∨ (seen = [] ∧ sk' = sk) := by
  cases seen with
  | nil => exact .inr ⟨rfl,by simpa using h.symm⟩
  | cons a l => exact .inl (by simpa using h)

theorem ChangesOf.snoc_delete (h : ChangesOf b S seen c) (hs : ¬ S sk) :
    ChangesOf b S (seen ++ [sk]) (c.delete sk) := by
  constructor
  · simp only [EpochChangesSummary.delete,mem_append,mem_singleton,h.keep]
    grind
  · simp only [EpochChangesSummary.delete,mem_append,mem_singleton,h.delete]
    grind
  · exact h.sublist.trans (sublist_append_left _ _)
  · exact h.none
  · intro i hi
    obtain ⟨hmm,hin,hb⟩ := h.best i hi
    refine ⟨⟨mem_append_left _ hmm.1,hmm.2⟩,hin,?_⟩
    intro k hk
    rcases mem_append.mp hk.1 with hm | hm
    · exact hb k ⟨hm,hk.2⟩
    · exact absurd (mem_singleton.mp hm ▸ hk.2) hs
  · intro i hi hh
    obtain ⟨k,hk,hS⟩ := hh
    rcases head?_snoc hk with hk | ⟨-,rfl⟩
    · have hid := h.idx i hi ⟨k,hk,hS⟩
      exact (List.getElem?_append_left (List.getElem?_eq_some_iff.mp hid).1).trans hid
    · exact absurd hS hs

theorem ChangesOf.nil_of_none (h : ChangesOf b S seen c)
    (hn : c.epochBestSubmission = Option.none) : ∀ sk ∈ seen, ¬ S sk := by
  intro sk hs hS
  have hm := (h.keep sk).mpr ⟨hs,hS⟩
  simp [(h.none hn).1] at hm

theorem EpochChangesSummary.keep_cases (c : EpochChangesSummary) (n : Nat) (sk : SubmissionKey)
    (i : SubmissionBtcInfo) :
    (c.epochBestSubmission = none ∧ c.keep n sk i =
        ⟨c.submissionsToDelete,c.submissionsToKeep ++ [sk],some i,c.bestSubmissionIdx⟩) ∨
      (∃ old, c.epochBestSubmission = some old ∧ i.isBetterThan old = true ∧ c.keep n sk i =
        ⟨c.submissionsToDelete,c.submissionsToKeep ++ [sk],some i,n⟩) ∨
      (∃ old, c.epochBestSubmission = some old ∧ i.isBetterThan old = false ∧ c.keep n sk i =
        ⟨c.submissionsToDelete,c.submissionsToKeep ++ [sk],some old,c.bestSubmissionIdx⟩) := by
  obtain ⟨del,keep,best,idx⟩ := c
  cases best with
  | none => exact .inl ⟨rfl,rfl⟩
  | some old =>
    cases hb : i.isBetterThan old with
    | true => exact .inr (.inl ⟨old,rfl,hb,by simp [EpochChangesSummary.keep,hb]⟩)
    | false => exact .inr (.inr ⟨old,rfl,hb,by simp [EpochChangesSummary.keep,hb]⟩)

theorem IsBest.snoc_self {i : SubmissionBtcInfo} (hsk : S sk)
    (hi : getSubmissionBtcInfo b sk = .ok i)
    (hs : ∀ k ∈ seen, S k → ∃ j, getSubmissionBtcInfo b k = .ok j ∧ j.isBetterThan i = false) :
    IsBest b (fun k => k ∈ seen ++ [sk] ∧ S k) i := by
  have hky := (getSubmissionBtcInfo_infoOf hi).key
  refine ⟨⟨by simp [hky],by rwa [hky]⟩,by rwa [hky],?_⟩
  intro k hk
  rcases mem_append.mp hk.1 with hm | hm
  · exact hs k hm hk.2
  · rw [mem_singleton.mp hm]
    exact ⟨i,hi,isBetterThan_irrefl i⟩

theorem ChangesOf.snoc_keep {i : SubmissionBtcInfo} (h : ChangesOf b S seen c) (hsk : S sk)
    (hi : getSubmissionBtcInfo b sk = .ok i) :
    ChangesOf b S (seen ++ [sk]) (c.keep seen.length sk i) := by
  have hky := (getSubmissionBtcInfo_infoOf hi).key
  have hkp : ∀ k, k ∈ c.submissionsToKeep ++ [sk] ↔ k ∈ seen ++ [sk] ∧ S k := by
    simp only [mem_append,mem_singleton,h.keep]
    grind
  have hd : ∀ k, k ∈ c.submissionsToDelete ↔ k ∈ seen ++ [sk] ∧ ¬ S k := by
    simp only [mem_append,mem_singleton,h.delete]
    grind
  have hs : (c.submissionsToKeep ++ [sk]).Sublist (seen ++ [sk]) := h.sublist.append (.refl _)
  rcases c.keep_cases seen.length sk i with ⟨hn,hc⟩ | ⟨old,hold,hb,hc⟩ | ⟨old,hold,hw,hc⟩ <;>
    rw [hc]
  · refine ⟨hkp,hd,hs,by simp,?_,?_⟩
    · intro j hj
      rw [some.injEq] at hj
      subst hj
      exact .snoc_self hsk hi (fun k hk hS => absurd hS (h.nil_of_none hn k hk))
    · -- The first key kept is the first key of all, so its position is the initial one.
      intro j hj hh
      rw [some.injEq] at hj
      subst hj
      obtain ⟨k,hk,hS⟩ := hh
      rcases head?_snoc hk with hk | ⟨rfl, -⟩
      · exact absurd hS (h.nil_of_none hn k (mem_of_mem_head? hk))
      · simp [(h.none hn).2,hky]
  · refine ⟨hkp,hd,hs,by simp,?_,?_⟩
    · intro j hj
      rw [some.injEq] at hj
      subst hj
      refine .snoc_self hsk hi ?_
      intro k hk hS
      obtain ⟨l,hl,hnt⟩ := (h.best old hold).best k ⟨hk,hS⟩
      exact ⟨l,hl,not_isBetterThan_trans hnt hb⟩
    · intro j hj _
      rw [some.injEq] at hj
      subst hj
      simp [hky]
  · refine ⟨hkp,hd,hs,by simp,?_,?_⟩
    · intro j hj
      rw [some.injEq] at hj
      subst hj
      obtain ⟨hmm,hin,hbs⟩ := h.best old hold
      refine ⟨⟨mem_append_left _ hmm.1,hmm.2⟩,hin,?_⟩
      intro k hk
      rcases mem_append.mp hk.1 with hm | hm
      · exact hbs k ⟨hm,hk.2⟩
      · rw [mem_singleton.mp hm]
        exact ⟨i,hi,hw⟩
    · intro j hj hh
      rw [some.injEq] at hj
      subst hj
      obtain ⟨k,hk,hS⟩ := hh
      rcases head?_snoc hk with hk | ⟨rfl, -⟩
      · have hsn := h.idx old hold ⟨k,hk,hS⟩
        exact (List.getElem?_append_left (List.getElem?_eq_some_iff.mp hsn).1).trans hsn
      · exact absurd (h.best old hold).mem.1 (by simp)

def Fits (b : BtcLightClient.State) (parent : Option SubmissionBtcInfo) (sk : SubmissionKey) :
    Prop :=
  OnChain b sk ∧ ∀ p, parent = some p → Before b p.submissionKey sk

theorem epochChangesStep_changesOf (hpr : ∀ p, parent = some p → InfoOf b p.submissionKey p)
    (hc : ChangesOf b (Fits b parent) seen c)
    (h : epochChangesStep b parent c (sk,seen.length) = .ok c') :
    ChangesOf b (Fits b parent) (seen ++ [sk]) c' := by
  simp only [epochChangesStep,checkKeyLength,ok_iff] at h
  obtain ⟨hl,o,ho,h⟩ := h
  cases o with
  | none =>
    rw [pure_eq_ok] at h
    subst h
    apply hc.snoc_delete
    intro hf
    obtain ⟨i,hi⟩ := getSubmissionBtcInfo_succeeds (by grind) hf.1
    exact Result.attempt_eq_none ho i hi
  | some i =>
    rw [Result.attempt_eq_some] at ho
    have hin := getSubmissionBtcInfo_infoOf ho
    cases parent with
    | none =>
      simp only [pure_eq_ok] at h
      subst h
      exact hc.snoc_keep ⟨hin.onChain,by simp⟩ ho
    | some p =>
      have ha := happenedAfter_iff (hpr p rfl) hin
      simp only at h
      split at h
      · rename_i hp
        rw [pure_eq_ok] at h
        subst h
        refine hc.snoc_keep ⟨hin.onChain,?_⟩ ho
        intro q hq
        rw [some.injEq] at hq
        exact hq ▸ ha.mp hp
      · rename_i hp
        rw [pure_eq_ok] at h
        subst h
        apply hc.snoc_delete
        intro hf
        exact hp (ha.mpr (hf.2 p rfl))

theorem epochChangesLoop_changesOf (hp : ∀ p, parent = some p → InfoOf b p.submissionKey p)
    {keys : List SubmissionKey} (seen : List SubmissionKey)
    (hc : ChangesOf b (Fits b parent) seen c)
    (h : (keys.zipIdx seen.length).foldlM (epochChangesStep b parent) c = .ok c') :
    ChangesOf b (Fits b parent) (seen ++ keys) c' := by
  induction keys generalizing seen c with
  | nil =>
    rw [zipIdx_nil,foldlM_nil,pure_eq_ok] at h
    rw [← h,append_nil]
    exact hc
  | cons sk _ ih =>
    rw [zipIdx_cons,foldlM_cons,bind_eq_ok] at h
    obtain ⟨c₁,h₁,h₂⟩ := h
    have hs := epochChangesStep_changesOf hp hc h₁
    rw [← singleton_append,← append_assoc]
    exact ih _ hs (by simpa using h₂)

theorem ChangesOf.congr {T : SubmissionKey → Prop}
    (h : ChangesOf b S seen c) (hST : ∀ sk ∈ seen, S sk ↔ T sk) : ChangesOf b T seen c := by
  have ha : ∀ sk, (sk ∈ seen ∧ S sk) ↔ (sk ∈ seen ∧ T sk) :=
    fun sk => and_congr_right (hST sk)
  constructor
  · exact fun sk => (h.keep sk).trans (ha sk)
  · exact fun sk => (h.delete sk).trans (and_congr_right (fun hm => not_congr (hST sk hm)))
  · exact h.sublist
  · exact h.none
  · intro i hi
    obtain ⟨hmm,hin,hb⟩ := h.best i hi
    exact ⟨(ha _).mp hmm,hin,fun sk hs => hb sk ((ha sk).mpr hs)⟩
  · intro i hi hh
    obtain ⟨sk,hs,hT⟩ := hh
    exact h.idx i hi ⟨sk,hs,(hST sk (mem_of_mem_head? hs)).mpr hT⟩

end

variable {b : BtcLightClient.State} {s₀ : State} {e : Nat} {parent : Option EpochInfo}
  {k k' : Keepers}

/-- What one iteration does with an epoch, in terms of the submissions before the pass. -/
inductive EpochOutcome (b : BtcLightClient.State) (s₀ : State) (e : Nat) (ed : EpochData)
    (k : Keepers) : Keepers → Prop where
  | finalized {sk : SubmissionKey} : ed.status = .Finalized → ed.keys = [sk] → OnChain b sk →
      EpochOutcome b s₀ e ed k k
  | forgotten : ed.status ≠ .Finalized → (∀ sk, ¬ s₀.Anchored b e sk) →
      EpochOutcome b s₀ e ed k (k.forgetEpoch e ed)
  | kept {c : EpochChangesSummary} {best : SubmissionBtcInfo} : ed.status ≠ .Finalized →
      ChangesOf b (s₀.Anchored b e) ed.keys c → c.epochBestSubmission = some best →
      EpochOutcome b s₀ e ed k (k.applyEpochChanges e ed c best)

/-- The iterations after epoch `e`; what is left over has no submissions. -/
inductive Pass (b : BtcLightClient.State) (s₀ : State) : Nat → Keepers → Keepers → Prop where
  | done {e : Nat} {k : Keepers} : (∀ e', e < e' → s₀.keysOf e' = []) → Pass b s₀ e k k
  | epoch {e : Nat} {k k₁ k' : Keepers} : s₀.keysOf (e+1) ≠ [] →
      EpochOutcome b s₀ (e+1) (s₀.dataOf (e+1)) k k₁ → Pass b s₀ (e+1) k₁ k' → Pass b s₀ e k k'

/-- What the iteration carries on from epoch `e` describes the anchored submissions of `e`. -/
inductive ParentOf (b : BtcLightClient.State) (s₀ : State) : Nat → Option EpochInfo → Prop where
  | start {e : Nat} : e = 0 ∨ s₀.statusOf (e+1) = .Finalized → ParentOf b s₀ e none
  | best {e : Nat} {i : SubmissionBtcInfo} : IsBest b (s₀.Anchored b e) i →
      ParentOf b s₀ e (some ⟨some i⟩)
  | lost {e : Nat} : 1 ≤ e → (∀ sk, ¬ s₀.Anchored b e sk) → ParentOf b s₀ e (some ⟨none⟩)

theorem fits_iff_anchored (hp : ParentOf b s₀ e parent) (hst : s₀.statusOf (e+1) ≠ .Finalized)
    (hi : parent ≠ some ⟨none⟩) {sk : SubmissionKey} (hs : sk ∈ s₀.keysOf (e+1)) :
    Fits b (parent.bind EpochInfo.bestSubmission) sk ↔ s₀.Anchored b (e+1) sk := by
  cases hp with
  | start h =>
    rw [h.resolve_right hst,State.Anchored,anchored_one]
    rw [h.resolve_right hst] at hs
    simp [Fits,hs]
  | @best i h =>
    rw [State.Anchored,h.leads.anchored_succ]
    simp only [Fits,bind_some,some.injEq,forall_eq',hs,true_and]
    exact and_comm
  | lost _ _ => exact absurd rfl hi

theorem checkEpoch_outcome {info : EpochInfo} (hp : ParentOf b s₀ e parent)
    (hf : ∀ sk, s₀.statusOf (e+1) = .Finalized → s₀.keysOf (e+1) = [sk] → s₀.Anchored b (e+1) sk)
    (h : checkEpoch b k parent (e+1) (s₀.dataOf (e+1)) = .ok (k',info)) :
    EpochOutcome b s₀ (e+1) (s₀.dataOf (e+1)) k k' ∧ ParentOf b s₀ (e+1) (some info) := by
  unfold checkEpoch at h
  split at h
  · rename_i hst
    split at h
    · rename_i sk hs
      simp only [ok_iff,Prod.mk.injEq] at h
      obtain ⟨i,hi,rfl,rfl⟩ := h
      have ho := getSubmissionBtcInfo_infoOf hi
      refine ⟨.finalized hst hs ho.onChain,.best ⟨?_,?_,?_⟩⟩
      · rw [ho.key]
        exact hf sk hst hs
      · rwa [ho.key]
      · intro q hq
        have hmm := hq.mem.1
        rw [keysOf,hs,mem_singleton] at hmm
        exact ⟨i,hmm ▸ hi,isBetterThan_irrefl i⟩
    · simp at h
  · rename_i hst
    split at h
    · -- The epoch before lost all its submissions.
      obtain ⟨rfl,rfl⟩ := h
      have hnn : ∀ sk, ¬ s₀.Anchored b (e+1) sk := by
        cases hp with
        | lost he hl => exact fun sk => not_anchored_succ he hl
      exact ⟨.forgotten hst hnn,.lost (Nat.le_add_left 1 e) hnn⟩
    · rename_i hl
      rw [bind_eq_ok] at h
      obtain ⟨c,hc,h⟩ := h
      have ho : ∀ p, parent.bind EpochInfo.bestSubmission = some p →
          InfoOf b p.submissionKey p := by
        intro p hpp
        cases hp with
        | start _ => simp at hpp
        | @best i hb =>
          rw [bind_some,some.injEq] at hpp
          subst hpp
          exact getSubmissionBtcInfo_infoOf hb.info
        | lost _ _ => simp at hpp
      have hch : ChangesOf b (s₀.Anchored b (e+1)) (s₀.dataOf (e+1)).keys c := by
        refine (epochChangesLoop_changesOf ho [] changesOf_nil hc).congr ?_
        intro sk hs
        exact fits_iff_anchored hp hst (fun hn => hl hn) hs
      have hmm : ∀ sk, s₀.Anchored b (e+1) sk → sk ∈ (s₀.dataOf (e+1)).keys :=
        fun sk hs => hs.mem.1
      split at h
      · rename_i hem
        obtain ⟨rfl,rfl⟩ := h
        have hnn : ∀ sk, ¬ s₀.Anchored b (e+1) sk := by
          intro sk hs
          have := (hch.keep sk).mpr ⟨hmm sk hs,hs⟩
          simp [hem] at this
        exact ⟨.forgotten hst hnn,.lost (Nat.le_add_left 1 e) hnn⟩
      · simp only [ok_iff,Prod.mk.injEq] at h
        obtain ⟨best,hb,rfl,rfl⟩ := h
        obtain ⟨hm,hin,hmx⟩ := hch.best best hb
        exact ⟨.kept hst hch hb,.best ⟨hm.2,hin,fun sk hs => hmx sk ⟨hmm sk hs,hs⟩⟩⟩

def State.Contiguous (s : State) : Prop :=
  s.keysOf 0 = [] ∧ ∀ e, s.keysOf (e+2) ≠ [] → s.keysOf (e+1) ≠ []

theorem State.Contiguous.below {s : State} (h : s.Contiguous) {e e' : Nat}
    (he : 1 ≤ e) (hl : e ≤ e') (hk : s.keysOf e' ≠ []) : s.keysOf e ≠ [] := by
  induction e', hl using Nat.le_induction with
  | base => exact hk
  | succ n hn ih =>
    obtain ⟨m,rfl⟩ : ∃ m, n = m+1 := ⟨n-1,by omega⟩
    exact ih (h.2 m hk)

theorem checkEpochs_pass (hc : s₀.Contiguous)
    (hfn : ∀ e sk, s₀.statusOf e = .Finalized → s₀.keysOf e = [sk] → s₀.Anchored b e sk)
    {l : List (Nat × EpochData)} (hs : l.Pairwise (fun x y => x.1 < y.1))
    (hm : ∀ x, x ∈ l ↔ e < x.1 ∧ s₀.epochData.get x.1 = some x.2) (hp : ParentOf b s₀ e parent)
    (h : checkEpochs b l parent k = .ok k') : Pass b s₀ e k k' := by
  induction l generalizing e parent k with
  | nil =>
    rw [checkEpochs,Except.ok.injEq] at h
    subst h
    refine .done ?_
    intro e' he
    by_contra hne
    have hi := (hm (e',s₀.dataOf e')).mpr ⟨he,exists_of_keysOf_ne_nil hne⟩
    simp at hi
  | cons x l ih =>
    obtain ⟨n,ed⟩ := x
    obtain ⟨hx,hl⟩ := pairwise_cons.mp hs
    obtain ⟨hn,hg⟩ := (hm (n,ed)).mp mem_cons_self
    have hd : s₀.dataOf n = ed := dataOf_eq hg
    -- The first entry is the next epoch whenever that one has submissions.
    have hf : ∀ e', e < e' → s₀.keysOf e' ≠ [] → n ≤ e' := by
      intro e' he hne
      rcases mem_cons.mp ((hm (e',_)).mpr ⟨he,exists_of_keysOf_ne_nil hne⟩) with heq | hi
      · exact (congrArg Prod.fst heq).ge
      · exact (hx _ hi).le
    rw [checkEpochs] at h
    split at h
    · rename_i hem
      rw [Except.ok.injEq] at h
      subst h
      refine .done ?_
      intro e' he
      by_contra hne
      refine hc.below (e := n) (by omega) (hf e' he hne) hne ?_
      rw [keysOf,hd]
      exact hem
    · rename_i hne
      have hk : s₀.keysOf n ≠ [] := by
        rw [keysOf,hd]
        exact hne
      obtain ⟨⟨k₁,info⟩,h₁,h₂⟩ := bind_eq_ok.mp h
      obtain rfl : n = e+1 :=
        Nat.le_antisymm
          (hf (e+1) (Nat.lt_succ_self e) (hc.below (Nat.le_add_left 1 e) hn hk)) hn
      subst hd
      obtain ⟨ho,hpr⟩ := checkEpoch_outcome hp (hfn (e+1)) h₁
      refine .epoch hk ho (ih hl ?_ hpr h₂)
      intro y
      constructor
      · intro hy
        exact ⟨hx y hy,((hm y).mp (mem_cons_of_mem _ hy)).2⟩
      · intro hy
        rcases mem_cons.mp ((hm y).mpr ⟨by omega,hy.2⟩) with rfl | hi
        · exact absurd hy.1 (Nat.lt_irrefl _)
        · exact hi

theorem checkCheckpoints_pass (hc : k.btccheckpoint.Contiguous)
    (hz : k.btccheckpoint.epochData.get 0 = none)
    (hl : 1 ≤ k.btccheckpoint.lastFinalizedEpoch →
      k.btccheckpoint.statusOf k.btccheckpoint.lastFinalizedEpoch = .Finalized)
    (hf : ∀ e sk, k.btccheckpoint.statusOf e = .Finalized → k.btccheckpoint.keysOf e = [sk] →
      k.btccheckpoint.Anchored b e sk)
    (h : checkCheckpoints b k = .ok k') :
    Pass b k.btccheckpoint (k.btccheckpoint.lastFinalizedEpoch-1) k k' := by
  refine checkEpochs_pass (l := k.btccheckpoint.openEpochs) hc hf
    (k.btccheckpoint.epochData.sorted.filter _) ?_ (.start ?_) h
  · intro x
    rw [openEpochs,mem_filter,decide_eq_true_iff,← mem_entries]
    constructor
    · intro hx
      have hp : x.1 ≠ 0 := by
        intro h0
        have := mem_entries.mp hx.1
        rw [h0,hz] at this
        simp at this
      exact ⟨by omega,hx.1⟩
    · intro hx
      exact ⟨hx.2,by omega⟩
  · by_cases hp : 1 ≤ k.btccheckpoint.lastFinalizedEpoch
    · rw [Nat.sub_add_cancel hp]
      exact .inr (hl hp)
    · exact .inl (by omega)

end AnonChain.BtcCheckpoint
