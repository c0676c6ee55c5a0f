import AnonChain.Finality.PowerTable
import AnonChain.Regtest
import AnonChain.Steps

/-! The finalized prefix: the heights below the cursor are settled, those above are open. -/

namespace AnonChain

open Lib KVStore Finality
open BtcStaking (Ctx)
open Finality (Stores Env State)

/-- The steps under a fixed activation height and without a resume proposal. -/
def FixedActivation (c : Chain) (a : Action) (c' : Chain) : Prop :=
  (∀ m, a ≠ .fin (.resumeFinalityProposal m)) ∧
    c'.stores.fin.params.finalityActivationHeight = c.stores.fin.params.finalityActivationHeight

def Chain.ended (c : Chain) : Nat :=
  if c.inBlock then c.ctx.header.height-1 else c.ctx.header.height

/-- The cursor, the blocks, the tables and the commitments of public randomness. -/
structure PrefixInv (F : Nat) (c : Chain) : Prop where
  params : c.stores.fin.params.finalityActivationHeight = F
  commits : ∀ pk k cm, c.stores.fin.pubRandCommits.get₂ pk k = some cm → F ≤ cm.startHeight
  nonempty : ∀ h t, c.stores.fin.votingPower.get h = some t → t.entries ≠ []
  tables : ∀ h t, c.stores.fin.votingPower.get h = some t → F ≤ h ∧ h ≤ c.ctx.header.height
  indexed : ∀ a h, c.stores.fin.getBTCStakingActivatedHeight = .ok a → a ≤ h → h ≤ c.ended →
    ∃ b, c.stores.fin.blocks.get h = some b
  past : ∀ h b, c.stores.fin.blocks.get h = some b → h ≤ c.ended
  finalized : ∀ h, c.stores.fin.FinalizedAt h →
    h < c.stores.fin.nextHeightToFinalize ∧ c.stores.fin.QuorumAt h
  skipped : ∀ a h, c.stores.fin.getBTCStakingActivatedHeight = .ok a → a ≤ h →
    h < c.stores.fin.nextHeightToFinalize →
    c.stores.fin.FinalizedAt h ∨ c.stores.fin.getVotingPowerTable h = none
  next : c.stores.fin.nextHeightToFinalize ≤ c.ended+1

section

variable {E : Env} {F : Nat} {c : Chain}

theorem prefixInv_genesis (hg : Genesis E c) :
    PrefixInv c.stores.fin.params.finalityActivationHeight c := by
  have hac : ∀ a, c.stores.fin.getBTCStakingActivatedHeight ≠ .ok a := by
    intro a ha
    obtain ⟨t,ht⟩ := getBTCStakingActivatedHeight_eq_ok.mp ha
    rw [hg.noPower] at ht
    simp [first,empty] at ht
  refine ⟨rfl,by simp [hg.noCommits],by simp [hg.noPower],by simp [hg.noPower],
    fun a _ ha => absurd ha (hac a),by simp [hg.noBlocks],?_,fun a _ ha => absurd ha (hac a),?_⟩
  · rintro h ⟨b,hb,_⟩
    simp [hg.noBlocks] at hb
  · rw [hg.noNext]
    omega

theorem PrefixInv.of_frame {c' : Chain} (hi : PrefixInv F c) (hh : c'.ctx.header = c.ctx.header)
    (hin : c'.inBlock = c.inBlock)
    (hpr : c'.stores.fin.params.finalityActivationHeight =
      c.stores.fin.params.finalityActivationHeight)
    (hp : c'.stores.fin.votingPower = c.stores.fin.votingPower)
    (hb : c'.stores.fin.blocks = c.stores.fin.blocks)
    (hn : c'.stores.fin.nextHeightToFinalize = c.stores.fin.nextHeightToFinalize)
    (hv : ∀ h pk, c.stores.fin.isVoter h pk = true → c'.stores.fin.isVoter h pk = true)
    (hc : ∀ pk k cm, c'.stores.fin.pubRandCommits.get₂ pk k = some cm → F ≤ cm.startHeight) :
    PrefixInv F c' := by
  have he : c'.ended = c.ended := by simp only [Chain.ended,hin,hh]
  have ht : ∀ h, c'.stores.fin.getVotingPowerTable h = c.stores.fin.getVotingPowerTable h :=
    fun h => State.getVotingPowerTable_congr (by rw [hp])
  have hfn : ∀ h, c'.stores.fin.FinalizedAt h ↔ c.stores.fin.FinalizedAt h :=
    fun h => State.FinalizedAt.congr (by rw [hb])
  have hac : c'.stores.fin.getBTCStakingActivatedHeight =
      c.stores.fin.getBTCStakingActivatedHeight := by
    simp only [State.getBTCStakingActivatedHeight,hp]
  refine ⟨hpr.trans hi.params,hc,?_,?_,?_,?_,?_,?_,?_⟩
  · rw [hp]
    exact hi.nonempty
  · rw [hp,hh]
    exact hi.tables
  · rw [hac,he,hb]
    exact hi.indexed
  · rw [he,hb]
    exact hi.past
  · intro h hf
    obtain ⟨hl,hq⟩ := hi.finalized h ((hfn h).mp hf)
    exact ⟨hn ▸ hl,hq.mono (ht h) (hv h)⟩
  · intro a h ha hle hl
    rw [hac] at ha
    rw [hn] at hl
    rw [hfn,ht]
    exact hi.skipped a h ha hle hl
  · rw [hn,he]
    exact hi.next

theorem activated_beginBlock {s s' : State} {H a : Nat}
    (hs : ∀ h, h ≠ H+1 → s'.votingPower.get h = s.votingPower.get h)
    (hb : ∀ h t, s.votingPower.get h = some t → h ≤ H)
    (ha : s'.getBTCStakingActivatedHeight = .ok a) :
    s.getBTCStakingActivatedHeight = .ok a ∨ H < a := by
  obtain ⟨t,ht⟩ := getBTCStakingActivatedHeight_eq_ok.mp ha
  obtain ⟨hg,hm⟩ := first_spec ht
  rcases Nat.lt_or_ge H a with hl | hle
  · exact .inr hl
  · refine .inl (getBTCStakingActivatedHeight_eq_ok.mpr ⟨t,first_eq_some_of_min ?_ ?_⟩)
    · rw [← hs a (by omega)]
      exact hg
    · intro k v hk
      have hkH := hb k v hk
      exact hm k v (by rw [hs k (by omega)]; exact hk)

theorem PrefixInv.beginBlock {ctx : Ctx} {stores : Stores} {time : Nat} {appHash : Bytes}
    (hi : PrefixInv F c) (idle : c.inBlock = false)
    (ctx_eq : ctx = c.nextCtx time appHash)
    (run : c.beginBlocker ctx = .ok stores) :
    PrefixInv F ⟨ctx,true,stores⟩ := by
  obtain ⟨_,_,dc,_,_,_,_,_,hpw,hef⟩ := updatePowerDist_effect run
  have hhg : ctx.header.height = c.ctx.header.height+1 := by rw [ctx_eq]
  have he : Chain.ended ⟨ctx,true,stores⟩ = c.ended := by simp [Chain.ended,idle,hhg]
  have he' : c.ended = c.ctx.header.height := by simp [Chain.ended,idle]
  have hp : stores.fin.params = c.stores.fin.params := by rw [hef.fin]
  have hc : stores.fin.pubRandCommits = c.stores.fin.pubRandCommits := by rw [hef.fin]
  have hbl : stores.fin.blocks = c.stores.fin.blocks := by rw [hef.fin]
  have hn : stores.fin.nextHeightToFinalize = c.stores.fin.nextHeightToFinalize := by rw [hef.fin]
  have hvt : stores.fin.votes = c.stores.fin.votes := by rw [hef.fin]
  have hs : ∀ h, h ≠ c.ctx.header.height+1 →
      stores.fin.votingPower.get h = c.stores.fin.votingPower.get h := by
    intro h hh
    exact hef.tables h (by rw [hhg]; exact hh)
  have hnn : c.stores.fin.votingPower.get ctx.header.height = none := by
    cases hg : c.stores.fin.votingPower.get ctx.header.height with
    | none => rfl
    | some t =>
      have := (hi.tables _ t hg).2
      omega
  have hat : ∀ a, stores.fin.getBTCStakingActivatedHeight = .ok a →
      c.stores.fin.getBTCStakingActivatedHeight = .ok a ∨ c.ctx.header.height < a :=
    fun a ha => activated_beginBlock hs (fun h t ht => (hi.tables h t ht).2) ha
  have hnw : ∀ t, stores.fin.votingPower.get ctx.header.height = some t →
      t.entries ≠ [] ∧ F ≤ ctx.header.height := by
    intro t ht
    rw [hpw] at ht
    obtain ⟨hne,hac⟩ := recordVotingPowerAndCache_table hi.nonempty hnn ht
    refine ⟨hne,?_⟩
    obtain ⟨fp,hfp⟩ := List.exists_mem_of_ne_nil _ hac
    obtain ⟨k,cm,hcm,hle⟩ := recorded_active_commit hfp
    exact (hi.commits _ k cm hcm).trans hle
  have hnx := hi.next
  have htb : ∀ h, h < c.stores.fin.nextHeightToFinalize →
      stores.fin.getVotingPowerTable h = c.stores.fin.getVotingPowerTable h :=
    fun h hlt => State.getVotingPowerTable_congr (hs h (by omega))
  have hfn : ∀ h, stores.fin.FinalizedAt h ↔ c.stores.fin.FinalizedAt h :=
    fun h => State.FinalizedAt.congr (by rw [hbl])
  refine ⟨by rw [hp]; exact hi.params,by rw [hc]; exact hi.commits,?_,?_,?_,?_,?_,?_,?_⟩
  · intro h t ht
    by_cases hh : h = ctx.header.height
    · exact (hnw t (hh ▸ ht)).1
    · exact hi.nonempty h t (by rw [← hs h (by omega)]; exact ht)
  · intro h t ht
    by_cases hh : h = ctx.header.height
    · exact ⟨hh ▸ (hnw t (hh ▸ ht)).2,hh.le⟩
    · have hold := hi.tables h t (by rw [← hs h (by omega)]; exact ht)
      exact ⟨hold.1,by simp only [hhg]; omega⟩
  · intro a h ha hle hlt
    simp only [hbl]
    cases hat a ha with
    | inl hold => exact hi.indexed a h hold hle (by omega)
    | inr hl => omega
  · intro h b hb
    rw [he]
    simp only [hbl] at hb
    exact hi.past h b hb
  · intro h hf
    obtain ⟨hlt,hq⟩ := hi.finalized h ((hfn h).mp hf)
    refine ⟨by simp only [hn]; exact hlt,hq.mono (htb h hlt) ?_⟩
    intro pk hv
    simpa only [State.isVoter,hvt] using hv
  · intro a h ha hle hlt
    simp only [hn] at hlt
    simp only [hfn,htb h hlt]
    cases hat a ha with
    | inl hold => exact hi.skipped a h hold hle hlt
    | inr hl => omega
  · simp only [hn,he]
    exact hi.next

theorem PrefixInv.activated (hi : PrefixInv F c) {a : Nat}
    (ha : c.stores.fin.getBTCStakingActivatedHeight = .ok a) : F ≤ a ∧ a ≤ c.ctx.header.height := by
  obtain ⟨t,ht⟩ := getBTCStakingActivatedHeight_eq_ok.mp ha
  exact hi.tables a t (first_spec ht).1

theorem isFinalityActive_iff {s : State} {header : HeaderInfo} :
    s.isFinalityActive header = true ↔ s.params.finalityActivationHeight ≤ header.height ∧
      ∃ a, s.getBTCStakingActivatedHeight = .ok a := by
  simp [State.isFinalityActive,State.getBTCStakingActivatedHeight,orFail_eq_ok,
    Option.isSome_iff_exists]

theorem PrefixInv.open_heights (hi : PrefixInv F c) (busy : c.inBlock = true) {a j : Nat}
    (ha : c.stores.fin.getBTCStakingActivatedHeight = .ok a)
    (hj : max c.stores.fin.nextHeightToFinalize a ≤ j) (hl : j < c.ctx.header.height) :
    ∃ b, c.stores.fin.blocks.get j = some b ∧ b.finalized = false := by
  have he : c.ended = c.ctx.header.height-1 := by simp [Chain.ended,busy]
  obtain ⟨b,hb⟩ := hi.indexed a j ha (by omega) (by omega)
  refine ⟨b,hb,Bool.eq_false_iff.mpr ?_⟩
  intro hf
  have := (hi.finalized j ⟨b,hb,hf⟩).1
  omega

theorem PrefixInv.current_free (hi : PrefixInv F c) (hb : BaseInv c) (busy : c.inBlock = true) :
    c.stores.fin.blocks.get c.ctx.header.height = none := by
  cases hg : c.stores.fin.blocks.get c.ctx.header.height with
  | none => rfl
  | some b =>
    have hp := hi.past _ b hg
    have hpo := hb.positive busy
    simp only [Chain.ended,busy,if_true] at hp
    omega

theorem PrefixInv.endBlock {stores : Stores} (hi : PrefixInv F c) (hb : BaseInv c)
    (busy : c.inBlock = true) (run : Finality.endBlocker c.stores c.ctx = .ok stores) :
    PrefixInv F ⟨c.ctx,false,stores⟩ ∧
      c.stores.fin.nextHeightToFinalize ≤ stores.fin.nextHeightToFinalize := by
  have he : c.ended+1 = c.ctx.header.height := by
    have := hb.positive busy
    simp only [Chain.ended,busy,if_true]
    omega
  have he' : Chain.ended ⟨c.ctx,false,stores⟩ = c.ctx.header.height := by simp [Chain.ended]
  have hps := hi.next
  rcases endBlocker_tally run with ⟨ho,rfl⟩ | ⟨hon,fin,hfi,hbl,hn⟩
  · have hac : ∀ a, c.stores.fin.getBTCStakingActivatedHeight ≠ .ok a := by
      intro a ha
      have hfa := hi.activated ha
      rw [isFinalityActive_iff.mpr ⟨by rw [hi.params]; omega,a,ha⟩] at ho
      simp at ho
    refine ⟨⟨hi.params,hi.commits,hi.nonempty,hi.tables,fun a _ ha => absurd ha (hac a),?_,
      hi.finalized,fun a _ ha => absurd ha (hac a),?_⟩,le_rfl⟩
    · intro h b hgt
      have := hi.past h b hgt
      omega
    · simp only [he']
      omega
  · obtain ⟨hF,a,ha⟩ := isFinalityActive_iff.mp hon
    obtain ⟨hg,hcr,a',k,ha',hk,ht⟩ := tallyBlocks_tallied hb.blocks hfi
    obtain rfl := Except.ok.inj (ha.symm.trans ha')
    have hef := endBlocker_effect hb.blocks run
    have hpr : stores.fin.params = c.stores.fin.params := by rw [hef.fin]
    have hcm : stores.fin.pubRandCommits = c.stores.fin.pubRandCommits := by rw [hef.fin]
    have hp : stores.fin.votingPower = c.stores.fin.votingPower := by rw [hef.fin]
    have hvt : stores.fin.votes = c.stores.fin.votes := by rw [hef.fin]
    have hqr : ∀ h, c.stores.fin.QuorumAt h → stores.fin.QuorumAt h := by
      intro h hq
      refine hq.mono (State.getVotingPowerTable_congr (by rw [hp])) ?_
      intro pk hv
      simpa only [State.isVoter,hvt] using hv
    have hac : ∀ x, stores.fin.getBTCStakingActivatedHeight = .ok x → x = a := by
      intro x hx
      simp only [State.getBTCStakingActivatedHeight,hp] at hx
      simp only [State.getBTCStakingActivatedHeight,hx,Except.ok.injEq] at ha
      exact ha
    have hfn : ∀ h, stores.fin.FinalizedAt h ↔ fin.FinalizedAt h :=
      fun h => State.FinalizedAt.congr (by rw [hbl])
    have hc := hn.trans ht.next
    have hm : c.stores.fin.nextHeightToFinalize ≤ stores.fin.nextHeightToFinalize := by
      rw [hc]
      split <;> omega
    refine ⟨⟨by rw [hpr]; exact hi.params,by rw [hcm]; exact hi.commits,
      by rw [hp]; exact hi.nonempty,by rw [hp]; exact hi.tables,?_,?_,?_,?_,?_⟩,hm⟩
    · intro x h hx hle hl
      obtain rfl := hac x hx
      simp only [hbl]
      by_cases hh : h = c.ctx.header.height
      · exact hh ▸ hcr
      · obtain ⟨b,hgt⟩ := hi.indexed x h ha hle (by omega)
        obtain ⟨b',hb',-⟩ := hg.keeps h b hgt
        exact ⟨b',hb'⟩
    · intro h b hgt
      cases hef.blocks.news h b hgt with
      | inl hold =>
        obtain ⟨b₀,hb₀⟩ := hold
        have := hi.past h b₀ hb₀
        omega
      | inr heq => exact heq.le
    · intro h hf
      rcases ht.newly h ((hfn h).mp hf) with hold | ⟨_,hl,hq⟩
      · obtain ⟨hl,hq⟩ := hi.finalized h hold
        exact ⟨hl.trans_le hm,hqr h hq⟩
      · refine ⟨?_,hqr h hq⟩
        simp only [hc]
        split <;> omega
    · intro x h hx hle hl
      obtain rfl := hac x hx
      have htb : stores.fin.getVotingPowerTable h = c.stores.fin.getVotingPowerTable h :=
        State.getVotingPowerTable_congr (by rw [hp])
      simp only [htb,hfn]
      rcases Nat.lt_or_ge h c.stores.fin.nextHeightToFinalize with hold | hge
      · exact (hi.skipped x h ha hle hold).imp_left (ht.stays h)
      · refine ht.passed h (by omega) ?_
        simp only [hc] at hl
        split at hl <;> omega
    · simp only [hc,he']
      split <;> omega

end

theorem PrefixInv.step {E : Env} {F : Nat} {c c' : Chain} {a : Action} (hi : PrefixInv F c)
    (hb : BaseInv c) (h : StepEffect E c a c') (hf : FixedActivation c a c') :
    PrefixInv F c' ∧ c.stores.fin.nextHeightToFinalize ≤ c'.stores.fin.nextHeightToFinalize := by
  cases h with
  | beginBlock idle ctx_eq run =>
    obtain ⟨_,_,_,_,_,_,_,_,_,he⟩ := updatePowerDist_effect run
    refine ⟨hi.beginBlock idle ctx_eq run,?_⟩
    rw [he.fin]
  | endBlock busy _ run => exact hi.endBlock hb busy run
  | @between _ _ stores header _ effect =>
    have hc : stores.fin.nextHeightToFinalize = c.stores.fin.nextHeightToFinalize := by
      cases effect with
      | quiet fin => rw [fin]
      | vote _ effect => exact effect.frame.2.2.1
      | commit effect => rw [effect.fin]
      | params _ fin => rw [fin]
      | resume action _ => exact absurd action (hf.1 _)
    refine ⟨?_,by rw [hc]⟩
    cases effect with
    | quiet fin _ =>
      exact hi.of_frame header rfl (by rw [fin]) (by rw [fin]) (by rw [fin]) hc
        (by rw [fin]; exact fun _ _ hv => hv) (by rw [fin]; exact hi.commits)
    | vote _ effect =>
      obtain ⟨hp,hpw,_,hcm⟩ := effect.frame
      exact hi.of_frame header rfl (by rw [hp]) hpw effect.blocks hc effect.isVoter
        (by rw [hcm]; exact hi.commits)
    | @commit pk cm effect =>
      refine hi.of_frame header rfl (by rw [effect.fin]) (by rw [effect.fin]) (by rw [effect.fin])
        hc (by rw [effect.fin]; exact fun _ _ hv => hv) ?_
      rw [effect.fin]
      exact forall_set₂ (hi.params ▸ effect.activated) hi.commits
    | params _ fin =>
      exact hi.of_frame header rfl hf.2 (by rw [fin]) (by rw [fin]) hc
        (by rw [fin]; exact fun _ _ hv => hv) (by rw [fin]; exact hi.commits)
    | resume action _ => exact absurd action (hf.1 _)

theorem prefixInv {E : Env} {c : Chain} (h : ((chain E).restrict FixedActivation).Reachable c) :
    PrefixInv c.stores.fin.params.finalityActivationHeight c := by
  induction h with
  | init hg => exact prefixInv_genesis hg
  | @step c c' a hr hs ih =>
    obtain ⟨ho | ⟨_,_,rfl⟩,hf⟩ := hs
    · rw [hf.2]
      exact (ih.step (baseInv hr.of_restrict) (deliver_effect ho) hf).1
    · exact ih

/-- In such a run a height from the activated one up to the cursor has no table or is finalized, by
more than two thirds of its table while the tables are within the supply of Bitcoin; nothing above
is finalized; no step moves the cursor back; and tallying returns. -/
theorem finalizedPrefix_settled {E : Finality.Env} {c : Chain}
    (h : ((chain E).restrict FixedActivation).Reachable c) :
    (∀ a, c.stores.fin.getBTCStakingActivatedHeight = .ok a →
      ∀ k, a ≤ k → k < c.stores.fin.nextHeightToFinalize →
        (c.stores.fin.FinalizedAt k ∧
          (c.stores.fin.WithinSupply → c.stores.fin.MajorityAt k)) ∨
        (c.stores.fin.getVotingPowerTable k = none ∧ ¬ c.stores.fin.FinalizedAt k)) ∧
    (∀ k, c.stores.fin.nextHeightToFinalize ≤ k → ¬ c.stores.fin.FinalizedAt k) ∧
    (∀ a c', ((chain E).restrict FixedActivation).step c a c' →
      c.stores.fin.nextHeightToFinalize ≤ c'.stores.fin.nextHeightToFinalize) ∧
    (c.inBlock = true → c.stores.fin.isFinalityActive c.ctx.header = true →
      ∃ fin, c.stores.fin.tallyBlocks c.ctx.header
        Finality.maxFinalizedRewardedBlocksPerEndBlock = .ok fin) := by
  have hi := prefixInv h
  have hb := baseInv h.of_restrict
  refine ⟨?_,?_,?_,?_⟩
  · intro a ha k hle hl
    by_cases hf : c.stores.fin.FinalizedAt k
    · exact .inl ⟨hf,fun hs => (hi.finalized k hf).2.majority hs⟩
    · exact .inr ⟨(hi.skipped a k ha hle hl).resolve_left hf,hf⟩
  · intro k hle hf
    have := (hi.finalized k hf).1
    omega
  · rintro a c' ⟨ho | ⟨_,_,rfl⟩,hfx⟩
    · exact (hi.step hb (deliver_effect ho) hfx).2
    · exact le_rfl
  · intro busy hac
    obtain ⟨_,a,ha⟩ := isFinalityActive_iff.mp hac
    exact tallyBlocks_runs _ hb.blocks ha (hi.current_free hb busy)
      (fun j hj hl => hi.open_heights busy ha hj hl)

def Regtest.fixedActivation (c : Chain) (a : Action) (c' : Chain) : Bool :=
  (match a with
    | .fin (.resumeFinalityProposal _) => false
    | _ => true) &&
    c'.stores.fin.params.finalityActivationHeight == c.stores.fin.params.finalityActivationHeight

theorem Regtest.fixedActivation_spec (c : Chain) (a : Action) (c' : Chain)
    (h : fixedActivation c a c' = true) : FixedActivation c a c' := by
  simp only [fixedActivation,Bool.and_eq_true,beq_iff_eq] at h
  refine ⟨?_,h.2⟩
  rintro m rfl
  simp at h

def Regtest.withinSupply (s : State) : Bool :=
  s.votingPower.entries.all (fun e => decide (e.2.total ≤ 21*10^14))

theorem Regtest.withinSupply_spec {s : State} (h : withinSupply s = true) : s.WithinSupply := by
  simp only [withinSupply,List.all_eq_true,decide_eq_true_eq] at h
  intro height table ht
  simp only [State.getVotingPowerTable,Option.ite_none_left_eq_some,Option.some.injEq] at ht
  obtain ⟨hne,rfl⟩ := ht
  cases hg : s.votingPower.get height with
  | none => simp [sub,getD,hg,empty] at hne
  | some t =>
    simp only [sub,getD,hg,Option.getD_some]
    exact h (height,t) (mem_entries.mpr hg)

/-- The only provider votes for the block of height 2 while height 3 is executed. -/
def Regtest.finalization : List Action :=
  [beginBlock 1] ++ join 1 10 ++
    [.endBlock,beginBlock 2,.endBlock,beginBlock 3,vote 1 0 2,.endBlock]

open Regtest in
theorem finalizedPrefix_settled_finalization :
    ∃ c, ((chain env).restrict FixedActivation).Reachable c ∧
    c.stores.fin.getBTCStakingActivatedHeight = .ok 2 ∧ 2 < c.stores.fin.nextHeightToFinalize ∧
    c.stores.fin.FinalizedAt 2 ∧ c.stores.fin.MajorityAt 2 := by
  have hrn : holds (finalization.foldlM (deliverChecked env fixedActivation) (genesis 1)) (fun c =>
      holds c.stores.fin.getBTCStakingActivatedHeight (· == 2) &&
        decide (2 < c.stores.fin.nextHeightToFinalize) && withinSupply c.stores.fin &&
        (c.stores.fin.getVotingPowerTable 2).isSome) = true := by decide +kernel
  obtain ⟨c,hr,hts⟩ := reachable_deliverChecked fixedActivation_spec (.init genesis_init) hrn
  simp only [Bool.and_eq_true,holds_iff,beq_iff_eq,decide_eq_true_eq] at hts
  obtain ⟨⟨⟨⟨a,ha,rfl⟩,hl⟩,hs⟩,ht⟩ := hts
  refine ⟨c,hr,ha,hl,?_⟩
  rcases (finalizedPrefix_settled hr).1 2 ha 2 le_rfl hl with ⟨hf,hq⟩ | ⟨hn,_⟩
  · exact ⟨hf,hq (withinSupply_spec hs)⟩
  · rw [hn] at ht
    simp at ht

end AnonChain
