import AnonChain.BtcCheckpoint.Keeper
import AnonChain.Lib.Anchoring

/-! Where a submission lies on the Bitcoin main chain, by the depths of its blocks. -/

namespace AnonChain.BtcCheckpoint

open Lib List

section

variable (b : BtcLightClient.State)

def OnChain (sk : SubmissionKey) : Prop := ∀ tk ∈ sk, ∃ d, b.mainChainDepth tk.hash = .ok d

def Before (p sk : SubmissionKey) : Prop :=
  ∀ tp ∈ p, ∀ tk ∈ sk, ∀ dp dk, b.mainChainDepth tp.hash = .ok dp →
    b.mainChainDepth tk.hash = .ok dk → dk < dp

def Deep (n : Nat) (sk : SubmissionKey) : Prop :=
  ∀ tk ∈ sk, ∃ d, b.mainChainDepth tk.hash = .ok d ∧ n ≤ d

end

variable {b : BtcLightClient.State} {sk : SubmissionKey} {i : SubmissionBtcInfo}

theorem headerDepth_eq_ok {hash : Hash} {d : Nat} :
    headerDepth b hash = .ok d ↔ b.mainChainDepth hash = .ok d :=
  Result.wrap_eq_ok

structure BtcInfoLoop.Spans (b : BtcLightClient.State) (r : BtcInfoLoop)
    (seen : List TransactionKey) : Prop where
  between : ∀ tk ∈ seen, ∃ d y, b.mainChainDepth tk.hash = .ok d ∧
    r.youngest = some y ∧ y.depth ≤ d ∧ d ≤ r.oldestBlockDepth
  youngest : ∀ y, r.youngest = some y → ∃ tk ∈ seen, b.mainChainDepth tk.hash = .ok y.depth
  oldest : seen ≠ [] → ∃ tk ∈ seen, b.mainChainDepth tk.hash = .ok r.oldestBlockDepth
  start : seen = [] → r.oldestBlockDepth = 0 ∧ r.youngest = none

theorem youngestOf_depth (d : Nat) (tk : TransactionKey) (y : Option YoungestBlock) :
    (youngestOf d tk y).depth ≤ d ∧ (∀ y', y = some y' → (youngestOf d tk y).depth ≤ y'.depth) ∧
      ((youngestOf d tk y).depth = d ∨ ∃ y', y = some y' ∧
        (youngestOf d tk y).depth = y'.depth) := by
  cases y with
  | none => simp [youngestOf]
  | some y' =>
    by_cases h1 : d < y'.depth
    · simp [youngestOf,h1,h1.le]
    · by_cases h2 : d = y'.depth ∧ tk.index < y'.lowestTxIdx
      · simp [youngestOf,h2]
      · simp [youngestOf,h1,h2,Nat.le_of_not_lt h1]

theorem btcInfoStep_spans {r r' : BtcInfoLoop} {seen : List TransactionKey} {tk : TransactionKey}
    (hr : r.Spans b seen) (h : btcInfoStep b r tk = .ok r') : r'.Spans b (seen ++ [tk]) := by
  simp only [btcInfoStep,ok_iff,headerDepth_eq_ok] at h
  obtain ⟨d,hd,rfl⟩ := h
  obtain ⟨hle,hm,ha⟩ := youngestOf_depth d tk r.youngest
  have ho : d ≤ (if r.oldestBlockDepth < d then d else r.oldestBlockDepth) ∧
      r.oldestBlockDepth ≤ (if r.oldestBlockDepth < d then d else r.oldestBlockDepth) := by
    split <;> omega
  constructor
  · intro t ht
    rcases mem_append.mp ht with ht | ht
    · obtain ⟨d',y,hd',hy,h1,h2⟩ := hr.between t ht
      exact ⟨d',_,hd',rfl,(hm y hy).trans h1,h2.trans ho.2⟩
    · rw [mem_singleton.mp ht]
      exact ⟨d,_,hd,rfl,hle,ho.1⟩
  · intro y hy
    rw [Option.some.injEq] at hy
    subst hy
    rcases ha with ha | ⟨y',hy',ha⟩
    · exact ⟨tk,by simp,by rw [ha]; exact hd⟩
    · obtain ⟨t,ht,htd⟩ := hr.youngest y' hy'
      exact ⟨t,by simp [ht],by rw [ha]; exact htd⟩
  · intro _
    by_cases hs : seen = []
    · obtain ⟨hz, -⟩ := hr.start hs
      refine ⟨tk,by simp,?_⟩
      simp only [hz]
      split
      · exact hd
      · rw [show (0 : Nat) = d by omega]
        exact hd
    · by_cases hl : r.oldestBlockDepth < d
      · exact ⟨tk,by simp,by simpa [hl] using hd⟩
      · obtain ⟨t,ht,htd⟩ := hr.oldest hs
        exact ⟨t,by simp [ht],by simpa [hl] using htd⟩
  · simp

theorem btcInfoLoop_spans {sk : List TransactionKey} {r r' : BtcInfoLoop}
    (seen : List TransactionKey)
    (hr : r.Spans b seen) (h : sk.foldlM (btcInfoStep b) r = .ok r') : r'.Spans b (seen ++ sk) := by
  induction sk generalizing r seen with
  | nil =>
    rw [foldlM_nil,pure_eq_ok] at h
    rw [← h,append_nil]
    exact hr
  | cons tk sk ih =>
    rw [foldlM_cons,bind_eq_ok] at h
    obtain ⟨r₁,h₁,h₂⟩ := h
    have hs := ih _ (btcInfoStep_spans hr h₁) h₂
    rwa [append_assoc,singleton_append] at hs

/-- The summary of a submission gives the depths of its oldest and of its youngest block. -/
structure InfoOf (b : BtcLightClient.State) (sk : SubmissionKey) (i : SubmissionBtcInfo) :
    Prop where
  key : i.submissionKey = sk
  between : ∀ tk ∈ sk, ∃ d, b.mainChainDepth tk.hash = .ok d ∧ i.youngestBlockDepth ≤ d ∧
    d ≤ i.oldestBlockDepth
  youngest : ∃ tk ∈ sk, b.mainChainDepth tk.hash = .ok i.youngestBlockDepth
  oldest : ∃ tk ∈ sk, b.mainChainDepth tk.hash = .ok i.oldestBlockDepth

theorem getSubmissionBtcInfo_infoOf (h : getSubmissionBtcInfo b sk = .ok i) : InfoOf b sk i := by
  simp only [getSubmissionBtcInfo,ok_iff] at h
  obtain ⟨r,hr,y,hy,rfl⟩ := h
  have hs := btcInfoLoop_spans [] ⟨by simp,by simp,by simp,by simp⟩ hr
  obtain ⟨tk,htk,htd⟩ := hs.youngest y hy
  refine ⟨rfl,?_,⟨tk,htk,htd⟩,hs.oldest (ne_nil_of_mem htk)⟩
  intro t ht
  obtain ⟨d,y',hd,hy',h1,h2⟩ := hs.between t ht
  rw [hy,Option.some.injEq] at hy'
  subst hy'
  exact ⟨d,hd,h1,h2⟩

theorem InfoOf.onChain (h : InfoOf b sk i) :
    OnChain b sk := by
  intro tk ht
  obtain ⟨d,hd, -⟩ := h.between tk ht
  exact ⟨d,hd⟩

theorem InfoOf.deep_iff (h : InfoOf b sk i) (n : Nat) :
    n ≤ i.youngestBlockDepth ↔ Deep b n sk := by
  constructor
  · intro hn tk htk
    obtain ⟨d,hd,hl, -⟩ := h.between tk htk
    exact ⟨d,hd,by omega⟩
  · intro hdp
    obtain ⟨tk,htk,ht⟩ := h.youngest
    obtain ⟨d,hd,hn⟩ := hdp tk htk
    rw [ht,Except.ok.injEq] at hd
    omega

theorem happenedAfter_iff {p sk : SubmissionKey} {ip i : SubmissionBtcInfo} (hp : InfoOf b p ip)
    (hi : InfoOf b sk i) : i.happenedAfter ip = true ↔ Before b p sk := by
  rw [SubmissionBtcInfo.happenedAfter,decide_eq_true_iff]
  constructor
  · intro hl tp htp tk htk dp dk hdp hd
    obtain ⟨d₁,h₁,hy, -⟩ := hp.between tp htp
    obtain ⟨d₂,h₂, -,ho⟩ := hi.between tk htk
    rw [hdp,Except.ok.injEq] at h₁
    rw [hd,Except.ok.injEq] at h₂
    omega
  · intro hb
    obtain ⟨tp,htp,htd⟩ := hp.youngest
    obtain ⟨tk,htk,ht⟩ := hi.oldest
    exact hb tp htp tk htk _ _ htd ht

theorem Before.of_deeper {p q sk : SubmissionKey} {ip iq : SubmissionBtcInfo} (hp : InfoOf b p ip)
    (hq : InfoOf b q iq) (hl : ip.youngestBlockDepth ≤ iq.youngestBlockDepth) (h : Before b p sk) :
    Before b q sk := by
  intro tq htq tk htk dq dk hdq hdk
  obtain ⟨tp,htp,ht⟩ := hp.youngest
  obtain ⟨d,hd,hy, -⟩ := hq.between tq htq
  rw [hdq,Except.ok.injEq] at hd
  have := h tp htp tk htk _ _ ht hdk
  omega

theorem Before.deep {p sk : SubmissionKey} {n : Nat} (hs : sk ≠ []) (hp : OnChain b p)
    (h : Before b p sk) (hd : Deep b n sk) : Deep b n p := by
  obtain ⟨tk,ht⟩ := exists_mem_of_ne_nil sk hs
  obtain ⟨dk,hdk,hn⟩ := hd tk ht
  intro tp htp
  obtain ⟨dp,hdp⟩ := hp tp htp
  have := h tp htp tk ht dp dk hdp hdk
  exact ⟨dp,hdp,by omega⟩

theorem btcInfoLoop_succeeds {sk : List TransactionKey} (r : BtcInfoLoop) (h : OnChain b sk) :
    ∃ r', sk.foldlM (btcInfoStep b) r = .ok r' ∧ (r.youngest.isSome ∨ sk ≠ [] →
      r'.youngest.isSome) := by
  induction sk generalizing r with
  | nil => exact ⟨r,rfl,by simp⟩
  | cons tk sk ih =>
    obtain ⟨d,hd⟩ := h tk mem_cons_self
    obtain ⟨o,hst⟩ : ∃ o, btcInfoStep b r tk = .ok ⟨o,some (youngestOf d tk r.youngest)⟩ := by
      rw [btcInfoStep,headerDepth_eq_ok.mpr hd]
      exact ⟨_,rfl⟩
    obtain ⟨r',hr',hs⟩ := ih ⟨o,some (youngestOf d tk r.youngest)⟩
      (fun t ht => h t (mem_cons_of_mem tk ht))
    refine ⟨r',?_,fun _ => hs (.inl rfl)⟩
    rw [foldlM_cons,hst]
    exact hr'

theorem getSubmissionBtcInfo_succeeds (hn : sk ≠ []) (h : OnChain b sk) :
    ∃ i, getSubmissionBtcInfo b sk = .ok i := by
  obtain ⟨r,hr,hs⟩ := btcInfoLoop_succeeds ⟨0,none⟩ h
  obtain ⟨y,hy⟩ := Option.isSome_iff_exists.mp (hs (.inr hn))
  refine ⟨⟨sk,r.oldestBlockDepth,y.depth,y.hash,y.lowestTxIdx⟩,?_⟩
  simp only [getSubmissionBtcInfo,ok_iff]
  exact ⟨r,hr,y,hy,rfl⟩

end AnonChain.BtcCheckpoint
