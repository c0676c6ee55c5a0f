import AnonChain.Safety.Extraction

/-! Public randomness over whole runs. -/

namespace AnonChain

open Lib List KVStore Result Finality
open Regtest (bytes env)
open Finality (PubRandCommit CommitInv Env State)

def Chain.commitsMade (E : Env) (c : Chain) (a : Action) : List (BIP340PubKey × PubRandCommit) :=
  match a, deliver E c a with
  | .fin (.commitPubRandList m), .ok _ =>
    m.fpBtcPk.toList.map (fun pk => (pk,m.prCommit c.ctx.currentEpoch))
  | _, _ => []

def commitRun (E : Env) : System (Chain × List (BIP340PubKey × PubRandCommit)) Action :=
  (chain E).recorded (Chain.commitsMade E)

def Finality.State.scanPubRandCommits (s : State) (fpBtcPk : BIP340PubKey) (height : Nat) :
    Option PubRandCommit :=
  ((s.pubRandCommits.sub fpBtcPk).entries.map Prod.snd).find? (fun c => c.isInRange height)

/-- The accepted commitments are the stored ones, each above those before it. -/
structure CommitHistory (c : Chain) (hist : List (BIP340PubKey × PubRandCommit)) : Prop where
  inv : CommitInv c.stores.fin
  stored : ∀ pk k x, c.stores.fin.pubRandCommits.get₂ pk k = some x ↔ (pk,x) ∈ hist ∧
    x.startHeight = k
  ordered : hist.Pairwise (fun a b => a.1 = b.1 → a.2.endHeight < b.2.startHeight)

section

variable {E : Env} {c c' : Chain} {hist : List (BIP340PubKey × PubRandCommit)}

theorem deliver_keeps_commits {a : Action} (hb : BaseInv c) (h : deliver E c a = .ok c')
    (ha : ∀ m, a ≠ .fin (.commitPubRandList m)) :
    c'.stores.fin.pubRandCommits = c.stores.fin.pubRandCommits ∧
      c'.stores.fin.pubRandCommitIndex = c.stores.fin.pubRandCommitIndex := by
  cases deliver_effect h with
  | beginBlock _ _ run =>
    obtain ⟨_,_,_,_,_,_,_,_,_,he⟩ := updatePowerDist_effect run
    rw [he.fin]
    exact ⟨rfl,rfl⟩
  | endBlock _ _ run =>
    rw [(endBlocker_effect hb.blocks run).fin]
    exact ⟨rfl,rfl⟩
  | between _ _ effect =>
    cases effect with
    | quiet fin =>
      rw [fin]
      exact ⟨rfl,rfl⟩
    | vote _ effect => cases effect <;> exact ⟨rfl,rfl⟩
    | commit _ action => exact absurd action (ha _)
    | params _ fin =>
      rw [fin]
      exact ⟨rfl,rfl⟩
    | resume _ run =>
      rw [(resumeFinalityProposal_effect run).fin]
      exact ⟨rfl,rfl⟩

theorem CommitHistory.commit {m : Finality.MsgCommitPubRandList} (hi : CommitHistory c hist)
    (h : deliver E c (.fin (.commitPubRandList m)) = .ok c') :
    CommitHistory c' (hist ++ c.commitsMade E (.fin (.commitPubRandList m))) := by
  have hr := h
  simp only [deliver,handleFin,ok_iff] at hr
  obtain ⟨_,stores,hsr,rfl⟩ := hr
  obtain ⟨pk,hpk,he⟩ := commitPubRandList_effect hsr
  have hm : c.commitsMade E (.fin (.commitPubRandList m)) =
      [(pk,m.prCommit c.ctx.currentEpoch)] := by simp [Chain.commitsMade,h,hpk]
  rw [hm]
  constructor
  · exact hi.inv.commit he
  · intro pk' k x
    rw [mem_append,mem_singleton,or_and_right,← hi.stored]
    constructor
    · intro hx
      rw [he.get₂] at hx
      split at hx
      · rename_i heq
        rw [Option.some.injEq] at hx
        subst hx
        exact .inr ⟨by rw [heq.1],heq.2.symm⟩
      · exact .inl hx
    · intro hx
      cases hx with
      | inl hold => exact hi.inv.keeps he hold
      | inr hn =>
        obtain ⟨hp,hk⟩ := hn
        rw [Prod.mk.injEq] at hp
        rw [he.get₂,hp.2] at *
        rw [if_pos ⟨hp.1,hk.symm⟩]
  · rw [pairwise_append]
    refine ⟨hi.ordered,pairwise_singleton _ _,?_⟩
    intro a ha b hb hab
    rw [mem_singleton] at hb
    subst hb
    have hs := (hi.stored a.1 a.2.startHeight a.2).mpr ⟨ha,rfl⟩
    rw [show a.1 = pk from hab] at hs
    exact hi.inv.above he hs

theorem CommitHistory.deliver {a : Action} (hb : BaseInv c) (hi : CommitHistory c hist)
    (h : deliver E c a = .ok c') : CommitHistory c' (hist ++ c.commitsMade E a) := by
  by_cases ha : ∃ m, a = .fin (.commitPubRandList m)
  · obtain ⟨m,rfl⟩ := ha
    exact hi.commit h
  · have ho : ∀ m, a ≠ .fin (.commitPubRandList m) := fun m hm => ha ⟨m,hm⟩
    have hmd : c.commitsMade E a = [] := by
      unfold Chain.commitsMade
      split
      · rename_i m _ _
        exact absurd rfl (ho m)
      · rfl
    obtain ⟨hc,hin⟩ := deliver_keeps_commits hb h ho
    rw [hmd,append_nil]
    refine ⟨hi.inv.congr hc hin,?_,hi.ordered⟩
    rw [hc]
    exact hi.stored

theorem commitHistory (h : (commitRun E).Reachable (c,hist)) : CommitHistory c hist := by
  refine System.Reachable.invariant (P := fun p => CommitHistory p.1 p.2) ?_ ?_ h
  · intro p ⟨hg,hn⟩
    refine ⟨commitInv_genesis hg,?_,?_⟩
    · simp [hn,show p.1.stores.fin.pubRandCommits = _ from hg.noCommits]
    · simp [hn]
  · intro p a p' hr hi ⟨hst,hh⟩
    rw [hh]
    cases hst with
    | inl ho => exact hi.deliver (baseInv hr.of_recorded) ho
    | inr hrj =>
      obtain ⟨_,⟨e,he⟩,hs⟩ := hrj
      have hm : p.1.commitsMade E a = [] := by
        unfold Chain.commitsMade
        split
        · simp_all
        · rfl
      rw [hm,append_nil,hs]
      exact hi

end

section

variable {s : State} {pk : BIP340PubKey} {height : Nat} {x : PubRandCommit}

theorem Finality.CommitInv.disjoint (hi : CommitInv s) {k k' : Nat} {y : PubRandCommit}
    (hx : s.pubRandCommits.get₂ pk k = some x) (hy : s.pubRandCommits.get₂ pk k' = some y)
    (hr : x.isInRange height = true) (hry : y.isInRange height = true) : x = y := by
  rw [isInRange_iff] at hr hry
  have hk := (hi.keyed pk k x hx).1
  have hky := (hi.keyed pk k' y hy).1
  rcases Nat.lt_trichotomy k k' with hl | he | hl
  · have := hi.ordered pk k k' x y hx hy hl
    omega
  · subst he
    exact Option.some.inj (hx.symm.trans hy)
  · have := hi.ordered pk k' k y x hy hx hl
    omega

theorem Finality.CommitInv.scan_iff (hi : CommitInv s) :
    s.scanPubRandCommits pk height = some x ↔
      ∃ k, s.pubRandCommits.get₂ pk k = some x ∧ x.isInRange height = true := by
  have hm : ∀ y, y ∈ (s.pubRandCommits.sub pk).entries.map Prod.snd ↔
      ∃ k, s.pubRandCommits.get₂ pk k = some y := by
    intro y
    simp only [mem_map,Prod.exists,exists_eq_right,mem_entries]
    rfl
  constructor
  · intro hx
    obtain ⟨k,hk⟩ := (hm x).mp (mem_of_find?_eq_some hx)
    exact ⟨k,hk,find?_some (p := fun c : PubRandCommit => c.isInRange height) hx⟩
  · intro ⟨k,hk,hr⟩
    cases hf : s.scanPubRandCommits pk height with
    | none =>
      have := find?_eq_none.mp hf x ((hm x).mpr ⟨k,hk⟩)
      exact absurd hr this
    | some y =>
      obtain ⟨k',hk'⟩ := (hm y).mp (mem_of_find?_eq_some hf)
      have hr' := find?_some (p := fun c : PubRandCommit => c.isInRange height) hf
      rw [hi.disjoint hk hk' hr hr']

theorem Finality.CommitInv.lookup_noPanic (hi : CommitInv s) :
    (s.getPubRandCommitForHeight pk height).NoPanic := by
  refine (noPanic_orFail (.inr (by simp))).bind (fun heights hid => ?_)
  refine (noPanic_ensure (.inr (by simp))).bind (fun _ _ => ?_)
  refine (noPanic_ensure (.inr (by simp))).bind (fun _ hp => ?_)
  have hs : heights.Pairwise (· < ·) := by
    rw [orFail_eq_ok] at hid
    have hk := hi.index pk
    rw [KVStore.getD,hid,Option.getD_some] at hk
    rw [hk]
    exact keys_sorted _
  have hl := (sortSearch_increasing hs height 0).1
  rw [ensure_eq_ok] at hp
  refine (noPanic_orFail (.inl ⟨_,getElem?_eq_getElem (by omega)⟩)).bind (fun _ _ => ?_)
  refine (noPanic_orFail (.inr (by simp))).bind (fun _ _ => ?_)
  exact (noPanic_ensure (.inr (by simp))).bind (fun _ _ => noPanic_pure _)

end

/-- What holds of the accepted commitments `hist` of a run and of one provider's stores. -/
structure CommitmentsOf (s : State) (hist : List (BIP340PubKey × PubRandCommit))
    (pk : BIP340PubKey) : Prop where
  range : ∀ x, (pk,x) ∈ hist → x.startHeight ≤ x.endHeight ∧
    (UInt64.ofNat x.startHeight+UInt64.ofNat x.numPubRand-1).toNat = x.endHeight
  disjoint : hist.Pairwise (fun a b => a.1 = b.1 →
    ∀ h, ¬ (a.2.isInRange h = true ∧ b.2.isInRange h = true))
  stored : ∀ k x, s.pubRandCommits.get₂ pk k = some x ↔ (pk,x) ∈ hist ∧ x.startHeight = k
  index_increasing : (s.pubRandCommitIndex.getD pk []).Pairwise (· < ·)
  index_lists : ∀ k, k ∈ s.pubRandCommitIndex.getD pk [] ↔ ∃ x, s.pubRandCommits.get₂ pk k = some x
  lookup : ∀ h x, s.getPubRandCommitForHeight pk h = .ok x ↔ (pk,x) ∈ hist ∧ x.isInRange h = true
  unique : ∀ h x y, (pk,x) ∈ hist → (pk,y) ∈ hist → x.isInRange h = true →
    y.isInRange h = true → x = y
  scan : ∀ h x, s.getPubRandCommitForHeight pk h = .ok x ↔ s.scanPubRandCommits pk h = some x
  none : ∀ h, (∀ x, (pk,x) ∈ hist → x.isInRange h = false) →
    ∃ e, s.getPubRandCommitForHeight pk h = .error e ∧ ∀ t, e ≠ .panic t

/-- In every run the accepted commitments of a provider have non-empty, disjoint ranges that do not
wrap around, the index lists their start heights, and binary search finds what a scan finds. -/
theorem pubRand_commitments {E : Finality.Env} {c : Chain}
    {hist : List (BIP340PubKey × PubRandCommit)}
    (h : (commitRun E).Reachable (c,hist)) (pk : BIP340PubKey) :
    CommitmentsOf c.stores.fin hist pk := by
  obtain ⟨hi,hs,ho⟩ := commitHistory h
  have hm : ∀ {x}, (pk,x) ∈ hist → c.stores.fin.pubRandCommits.get₂ pk x.startHeight = some x :=
    fun hx => (hs pk _ _).mpr ⟨hx,rfl⟩
  have hl : ∀ h x, c.stores.fin.getPubRandCommitForHeight pk h = .ok x ↔
      (pk,x) ∈ hist ∧ x.isInRange h = true := by
    intro h x
    rw [hi.getPubRandCommitForHeight_iff]
    constructor
    · intro ⟨k,hk,hr⟩
      exact ⟨((hs pk k x).mp hk).1,hr⟩
    · intro ⟨hx,hr⟩
      exact ⟨_,hm hx,hr⟩
  constructor
  · intro x hx
    have hp := (hi.keyed pk _ x (hm hx)).2
    have hbn := hi.bounded pk _ x (hm hx)
    simp only [UInt64.toNat_sub,UInt64.toNat_add,UInt64.toNat_ofNat',PubRandCommit.endHeight,
      UInt64.toNat_one]
    omega
  · apply ho.imp
    intro a b hab he k ⟨ha,hb⟩
    have := hab he
    rw [isInRange_iff] at ha hb
    omega
  · exact hs pk
  · rw [hi.index pk]
    exact keys_sorted _
  · intro k
    rw [hi.index pk,KVStore.mem_keys]
    rfl
  · exact hl
  · intro k x y hx hy hrx hry
    exact hi.disjoint (hm hx) (hm hy) hrx hry
  · intro k x
    rw [hi.getPubRandCommitForHeight_iff,hi.scan_iff]
  · intro k hn
    cases hrs : c.stores.fin.getPubRandCommitForHeight pk k with
    | ok x =>
      obtain ⟨hx,hr⟩ := (hl k x).mp hrs
      simp [hn x hx] at hr
    | error e =>
      refine ⟨e,rfl,?_⟩
      intro t ht
      exact hi.lookup_noPanic t (ht ▸ hrs)

def Regtest.twoCommits : List Action :=
  [Regtest.beginBlock 1,Regtest.register 1,Regtest.commit 1,
    .fin (.commitPubRandList ⟨some [],some (bytes 1),1500,10,bytes 1,none⟩)]

theorem pubRand_commitments_two : ∃ c hist,
    deliverAll Regtest.env (Regtest.genesis 1) Regtest.twoCommits = .ok c ∧
    (commitRun Regtest.env).Reachable (c,hist) ∧
    c.stores.fin.pubRandCommitIndex.getD (Regtest.bytes 1) [] = [1,1500] ∧
    CommitmentsOf c.stores.fin hist (Regtest.bytes 1) := by
  have hrn : holds (deliverAll env (Regtest.genesis 1) Regtest.twoCommits) (fun c =>
      c.stores.fin.pubRandCommitIndex.getD (bytes 1) [] == [1,1500]) = true := by decide +kernel
  obtain ⟨c,hc,hi⟩ := holds_iff.mp hrn
  have hr := reachable_deliverAll (.init Regtest.genesis_init) hc
  obtain ⟨hist,hh⟩ := hr.recorded (Chain.commitsMade env)
  exact ⟨c,hist,hc,hh,beq_iff_eq.mp hi,pubRand_commitments hh (bytes 1)⟩

end AnonChain
