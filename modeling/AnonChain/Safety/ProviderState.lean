import AnonChain.Safety.VoteRandomness

/-! The status and the last voted height of a finality provider, in memory and in the database. -/

namespace AnonChain.FinalitySubmitter

open Lib EotsManager List

/-- The returned blocks are the new ones with power, and the status tells the power at the last new
block, if there is one. -/
structure StatusFollows {E : Env} (ds : Submitter E) (st : FinalityProviderState)
    (blocks processed : List BlockDescription) (st' : FinalityProviderState) : Prop where
  returned : processed = (newBlocks st.lastVotedHeight blocks).filter fun b =>
    (ds.hasPower b.height).toOption = some true
  active : ∀ b, (newBlocks st.lastVotedHeight blocks).getLast? = some b →
    (st'.status = .active ↔ ds.hasPower b.height = .ok true)
  unchanged : newBlocks st.lastVotedHeight blocks = [] → st'.status = st.status

theorem status_follows_power {E : Env} (ds : Submitter E) {st st' : FinalityProviderState}
    {blocks processed : List BlockDescription}
    (h : filterBlocksForVoting ds st blocks = .ok (processed,st')) :
    StatusFollows ds st blocks processed st' ↔
      (st.status = .active → ∃ b ∈ blocks, st.lastVotedHeight < b.height) := by
  simp only [filterBlocksForVoting,ok_iff] at h
  obtain ⟨⟨bs,power⟩,hlp,heq⟩ := h
  cases heq
  obtain ⟨hr,hn,hl⟩ := filterLoop_power hlp
  have hnw : newBlocks st.lastVotedHeight blocks ≠ [] ↔
      ∃ b ∈ blocks, st.lastVotedHeight < b.height := by
    simp [newBlocks]
  rw [← hnw]
  constructor
  · rintro ⟨-,-,hu⟩ ha he
    have := hu he
    simp [statusAfter,hn he,ha] at this
  · intro hc
    refine ⟨hr,?_,?_⟩
    · intro b hb
      rw [hl b hb]
      cases power <;> simp [statusAfter]
      split <;> simp_all
    · intro he
      have hi : st.status ≠ .active := fun ha => hc ha he
      simp [statusAfter,hn he,hi]

theorem status_follows_power_one :
    filterBlocksForVoting (regtestSubmitter fun h => .ok (h = 2)) ⟨1,.active⟩ regtestBlocks =
        .ok ([⟨2,[2]⟩],⟨1,.inactive⟩) ∧
      StatusFollows (regtestSubmitter fun h => .ok (h = 2)) ⟨1,.active⟩ regtestBlocks [⟨2,[2]⟩]
        ⟨1,.inactive⟩ := by
  have hf : filterBlocksForVoting (regtestSubmitter fun h => .ok (h = 2))
      ⟨1,.active⟩ regtestBlocks = .ok ([⟨2,[2]⟩],⟨1,.inactive⟩) := rfl
  exact ⟨hf,(status_follows_power _ hf).mpr fun _ => ⟨⟨2,[2]⟩,by simp [regtestBlocks],by decide⟩⟩

/-- The flag of the loop starts as false: an active provider with power at every height becomes
inactive when the batch brings no new block. -/
theorem inactive_without_new_blocks :
    filterBlocksForVoting (regtestSubmitter fun _ => .ok true) ⟨3,.active⟩ regtestBlocks =
        .ok ([],⟨3,.inactive⟩) ∧
      ¬ StatusFollows (regtestSubmitter fun _ => .ok true) ⟨3,.active⟩ regtestBlocks []
        ⟨3,.inactive⟩ :=
  ⟨rfl,fun h => absurd (h.unchanged rfl) (by decide)⟩

/-- The two copies of the last voted height, with the heights voted for and the heights the starts
have reset to. -/
structure Provider where
  isStarted : Bool
  memory : FinalityProviderState
  database : Uint64
  marks : List Uint64

/-- The copy in memory is overwritten, the one in the database only ever increases. -/
def setLastVotedHeight (s : Provider) (height : Uint64) : Provider :=
  { s with
    memory := { s.memory with lastVotedHeight := height }
    database := if s.database < height then height else s.database }

variable {E : Env}

def accepted (p : Attempt E × SubmitBatchFinalitySigsRequest E) : Bool :=
  match p.1.submit p.2 with
  | .ok txHash => txHash ≠ ""
  | .error _ => false

def Trace.votedFor (t : Trace E) : List Uint64 :=
  (t.handed.filter accepted).flatMap fun p => p.2.blocks.map (·.height)

inductive Action (E : Env) where
  | start (advancedResetLastVotedHeight : Bool) (startHeight : Uint64)
  | submitBatch (ds : Submitter E) (blocks : List BlockDescription)
  | stop
  | restart

def Provider.next (s : Provider) : Action E → Option Provider
  | .start advancedReset startHeight =>
    if s.isStarted then none
    else
      let s := { s with isStarted := true }
      if advancedReset then
        some (setLastVotedHeight { s with marks := (startHeight-1) :: s.marks } (startHeight-1))
      else some s
  | .submitBatch ds blocks =>
    if s.isStarted then
      let t := submitBatchFinalitySignatures ds s.memory blocks
      if t.votedFor.isEmpty then some { s with memory := t.state }
      else some (setLastVotedHeight { s with memory := t.state, marks := t.votedFor ++ s.marks }
        t.state.lastVotedHeight)
    else none
  | .stop => if s.isStarted then some { s with isStarted := false } else none
  | .restart =>
    some { s with isStarted := false, memory := { s.memory with lastVotedHeight := s.database } }

def created : Provider := ⟨false,⟨0,.registered⟩,0,[]⟩

def provider (E : Env) : System Provider (Action E) where
  init s := s = created
  step s a s' := s.next a = some s'

/-- A reset goes to no height below the one in the database, and a request for a batch has a vote
for its last block: the EOTS manager has not skipped it as a double sign. -/
def Steady (s : Provider) : Action E → Prop
  | .start advancedReset startHeight => advancedReset → s.database < startHeight
  | .submitBatch ds blocks =>
    ∀ kept st n req b, filterBlocksForVoting ds s.memory blocks = .ok (kept,st) →
      buildRequest ds (ds.attempts n) kept = some (.ok req) →
      kept.getLast? = some b → b ∈ req.blocks
  | .stop | .restart => True

/-- A request for the blocks was accepted, and the height of the last of them was set. -/
def Votes (ds : Submitter E) (kept : List BlockDescription) (t : Trace E) : Prop :=
  ∃ n req b, buildRequest ds (ds.attempts n) kept = some (.ok req) ∧ kept.getLast? = some b ∧
    t.state.lastVotedHeight = b.height ∧ t.votedFor = req.blocks.map (·.height)

theorem once_votes (ds : Submitter E) (cycle : Nat) (st : FinalityProviderState)
    (kept : List BlockDescription) :
    let t := submitBatchFinalitySignaturesOnce ds (ds.attempts cycle) st kept
    (t.votedFor = [] ∧ t.state = st) ∨ (∃ txHash, t.outcome = .ends txHash) ∧ Votes ds kept t := by
  unfold submitBatchFinalitySignaturesOnce
  split
  case h_1 => exact .inl ⟨rfl,rfl⟩
  case h_2 => exact .inl ⟨rfl,rfl⟩
  case h_3 req hr =>
    split
    · exact .inl ⟨rfl,rfl⟩
    · split
      case h_1 he => exact .inl ⟨by simp [Trace.votedFor,accepted,he],rfl⟩
      case h_2 he => exact .inl ⟨by simp [Trace.votedFor,accepted,he],rfl⟩
      case h_3 he => exact .inl ⟨by simp [Trace.votedFor,accepted,he],rfl⟩
      case h_4 txHash ho =>
        split
        case isTrue hem => exact .inl ⟨by simp [Trace.votedFor,accepted,ho,hem],rfl⟩
        case isFalse hs =>
          cases hl : kept.getLast? with
          | some b =>
            exact .inr ⟨⟨_,rfl⟩,cycle,req,b,hr,hl,rfl,by simp [Trace.votedFor,accepted,ho,hs]⟩
          | none =>
            rw [getLast?_eq_none_iff.mp hl] at hr
            cases hr

theorem retryLoop_votes (ds : Submitter E) (kept : List BlockDescription) (left cycle : Nat)
    (st : FinalityProviderState) :
    let t := retryLoop ds kept left cycle st
    (t.votedFor = [] ∧ t.state = st) ∨ Votes ds kept t := by
  induction left generalizing cycle st with
  | zero => exact (once_votes ds cycle st kept).imp_right And.right
  | succ _ ih =>
    simp only [retryLoop]
    obtain hn | ⟨⟨txHash,he⟩,hv⟩ := once_votes ds cycle st kept
    · split
      · exact .inl hn
      · simp only [Votes,Trace.votedFor,filter_append,flatMap_append,hn.2] at hn ih ⊢
        rw [hn.1]
        exact ih (cycle+1) st
    · rw [he]
      exact .inr hv

theorem submitBatch_votes (ds : Submitter E) (st : FinalityProviderState)
    (blocks : List BlockDescription) :
    let t := submitBatchFinalitySignatures ds st blocks
    (t.votedFor = [] ∧ t.state.lastVotedHeight = st.lastVotedHeight) ∨
      ∃ kept st', filterBlocksForVoting ds st blocks = .ok (kept,st') ∧ Votes ds kept t := by
  unfold submitBatchFinalitySignatures
  split
  · exact .inl ⟨rfl,rfl⟩
  · split
    case h_1 => exact .inl ⟨rfl,rfl⟩
    case h_2 kept st' hf =>
      have hs : st'.lastVotedHeight = st.lastVotedHeight := by
        simp only [filterBlocksForVoting,ok_iff,Prod.exists,Prod.mk.injEq] at hf
        obtain ⟨_,_,_,_,rfl⟩ := hf
        rfl
      split
      · exact .inl ⟨rfl,hs⟩
      · obtain ⟨hn,hsta⟩ | hv := retryLoop_votes ds kept ds.maxSubmissionRetries 0 st'
        · exact .inl ⟨hn,by rw [hsta,hs]⟩
        · exact .inr ⟨kept,st',hf,hv⟩

/-- The copies agree, and the height is zero or at most one voted for or reset to. -/
structure Consistent (s : Provider) : Prop where
  agree : s.memory.lastVotedHeight = s.database
  bounded : s.database = 0 ∨ ∃ h ∈ s.marks, s.database ≤ h

theorem Consistent.set {s : Provider} {height : Uint64} (hl : s.database ≤ height)
    (hm : height ∈ s.marks) : Consistent (setLastVotedHeight s height) := by
  have hd : (setLastVotedHeight s height).database = height := by
    simp only [setLastVotedHeight]
    split
    · rfl
    case isFalse hg => exact le_antisymm hl (not_lt.mp hg)
  exact ⟨hd.symm,.inr ⟨height,hm,hd.le⟩⟩

theorem le_sub_one {m n : Uint64} (h : m < n) : m ≤ n-1 := by
  have hn : n ≠ 0 := ne_of_gt (lt_of_le_of_lt (Fin.zero_le m) h)
  rw [Fin.le_def,Fin.val_sub_one_of_ne_zero hn]
  rw [Fin.lt_def] at h
  omega

theorem Consistent.next {s s' : Provider} {a : Action E} (hc : Consistent s) (hs : Steady s a)
    (h : s.next a = some s') : Consistent s' := by
  cases a with
  | start _ _ =>
    simp only [Provider.next] at h
    split at h
    · cases h
    · split at h
      case isTrue hrs =>
        cases h
        exact Consistent.set (le_sub_one (hs hrs)) mem_cons_self
      case isFalse =>
        cases h
        exact ⟨hc.agree,hc.bounded⟩
  | submitBatch ds blocks =>
    simp only [Provider.next] at h
    split at h
    case isFalse => cases h
    case isTrue =>
      obtain ⟨hnn,hl⟩ | ⟨kept,st',hf,n,req,b,hr,hb,hl,hv⟩ := submitBatch_votes ds s.memory blocks
      · rw [if_pos (by simp [hnn])] at h
        cases h
        exact ⟨hl.trans hc.agree,hc.bounded⟩
      · have hm := hs kept st' n req b hf hr hb
        have hn : req.blocks ≠ [] := ne_nil_of_mem hm
        rw [if_neg (by simp [hv,hn])] at h
        cases h
        simp only [filterBlocksForVoting,ok_iff,Prod.exists,Prod.mk.injEq] at hf
        obtain ⟨_,_,hlp,rfl,_⟩ := hf
        have hlt := (((filterLoop_spec hlp).2 b).mp (mem_of_getLast? hb)).2.1
        rw [hl]
        refine Consistent.set (hc.agree ▸ hlt.le) ?_
        simp only [hv,mem_append,mem_map]
        exact .inl ⟨b,hm,rfl⟩
  | stop =>
    simp only [Provider.next] at h
    split at h
    · cases h
      exact ⟨hc.agree,hc.bounded⟩
    · cases h
  | restart =>
    cases h
    exact ⟨rfl,hc.bounded⟩

/-- In a run of steady steps the copies agree, and a start with reset leaves every block from the
start height on above the last voted height. -/
theorem last_voted_height_consistent {s : Provider}
    (h : ((provider E).restrict fun s a _ => Steady s a).Reachable s) :
    Consistent s ∧ ∀ startHeight s', s.next (.start true startHeight : Action E) = some s' →
      Steady s (.start true startHeight : Action E) →
      ∀ blocks, ∀ b ∈ blocks, startHeight ≤ b.height →
        b ∈ newBlocks s'.memory.lastVotedHeight blocks := by
  have hc : Consistent s := h.invariant (fun _ hi => hi ▸ ⟨rfl,.inl rfl⟩)
    fun _ _ _ _ hc hst => hc.next hst.2 hst.1
  refine ⟨hc,fun startHeight s' hs' hsd blocks b hb hl => ?_⟩
  simp only [Provider.next] at hs'
  split at hs'
  · cases hs'
  · cases hs'
    have hp : startHeight ≠ 0 := ne_of_gt (lt_of_le_of_lt (Fin.zero_le _) (hsd rfl))
    have hlt : startHeight-1 < startHeight := by
      rw [Fin.lt_def,Fin.val_sub_one_of_ne_zero hp]
      have := Fin.pos_iff_ne_zero.mpr hp
      omega
    simp only [newBlocks,mem_filter,decide_eq_true_eq]
    exact ⟨hb,lt_of_lt_of_le hlt hl⟩

theorem steady_three {st : FinalityProviderState} {db : Uint64} {marks : List Uint64}
    (h : st.lastVotedHeight = 0) : Steady ⟨true,st,db,marks⟩
      (.submitBatch (regtestSubmitter fun _ => .ok true) regtestBlocks) := by
  intro kept st' n req b hf hr hb
  have hk : kept = regtestBlocks := by
    rw [filterBlocksForVoting,h] at hf
    cases hf
    rfl
  subst hk
  cases hb
  have hq : (buildRequest (regtestSubmitter fun _ => .ok true)
      ((regtestSubmitter fun _ => .ok true).attempts 0)
      regtestBlocks).any (fun r => holds r (fun req => req.blocks.any (fun b => b.height = 3 ∧
        b.hash = [3]))) =
        true := by decide +kernel
  have hn : (regtestSubmitter fun _ => .ok true).attempts n =
      (regtestSubmitter fun _ => .ok true).attempts 0 :=
    rfl
  rw [hn] at hr
  rw [hr] at hq
  obtain ⟨⟨_,_⟩,hm,he⟩ := any_eq_true.mp hq
  obtain ⟨rfl,rfl⟩ := of_decide_eq_true he
  exact hm

/-- The provider votes for three blocks and is restarted. -/
theorem last_voted_height_consistent_three : ∃ s : Provider, s.marks = [1,2,3] ∧ s.database = 3 ∧
    Consistent s := by
  have h1 : ((provider regtest).restrict fun s a _ => Steady s a).Reachable
      ⟨true,⟨0,.registered⟩,0,[]⟩ :=
    .step (a := .start false 1) (.init rfl) ⟨rfl,nofun⟩
  have hn : (Provider.next ⟨true,⟨0,.registered⟩,0,[]⟩
      (.submitBatch (regtestSubmitter fun _ => .ok true) regtestBlocks)).any
        (fun s => s.marks = [1,2,3] ∧ s.database = 3) = true := by decide +kernel
  obtain ⟨s,hs,ht⟩ := (Option.any_eq_true _ _).mp hn
  obtain ⟨hm,hd⟩ := of_decide_eq_true ht
  have h2 := h1.step ⟨hs,steady_three rfl⟩
  have h3 : ((provider regtest).restrict fun s a _ => Steady s a).Reachable
      { s with isStarted := false, memory := { s.memory with lastVotedHeight := s.database } } :=
    h2.step (a := .restart) ⟨rfl,trivial⟩
  exact ⟨_,by exact hm,by exact hd,(last_voted_height_consistent h3).1⟩

/-- After votes up to height 3 a start with reset at height 2 sets the copy in memory back to 1. -/
theorem reset_below_database : ∃ s, (provider regtest).Reachable s ∧
    (s.memory.lastVotedHeight = 1 ∧ s.database = 3) ∧ ¬ Consistent s := by
  have hr : (([.start false 1,.submitBatch (regtestSubmitter fun _ => .ok true) regtestBlocks,.stop,
      .start true 2] : List (Action regtest)).foldlM Provider.next created).any (fun s =>
        s.memory.lastVotedHeight = 1 ∧ s.database = 3) = true := by decide +kernel
  have hi : (provider regtest).Reachable created := .init rfl
  obtain ⟨s,hs,ht⟩ := hi.follow (fun _ a _ hst => ⟨a,hst⟩) hr
  have hcp := of_decide_eq_true ht
  refine ⟨s,hs,hcp,fun hc => ?_⟩
  have ha := hc.agree
  rw [hcp.1,hcp.2] at ha
  exact absurd ha (by decide)

end AnonChain.FinalitySubmitter
