import AnonChain.Steps
import AnonChain.Regtest

/-! Slashable safety, in whichever order the two votes of a provider arrive. -/

namespace AnonChain

open Lib Finality
open KVStore (forall_set₂ get₂_set₂_cases)
open BtcStaking (Ctx)
open Finality (Stores Evidence FinalityVote IndexedBlock CheckedVote VoteEffect Env
  forkEvidence State
  tally)

/-- What every stored evidence has, whether or not the canonical vote is known. -/
structure WellFormedEvidence (E : Env) (blocks : KVStore Nat IndexedBlock)
    (pk : BIP340PubKey) (height : Nat) (e : Evidence) : Prop where
  pk_eq : e.fpBtcPk = pk
  height_eq : e.blockHeight = height
  pkParses : (Eots.parsePubKey E.curve e.fpBtcPk).isSome = true
  randLength : e.pubRand.length = 32
  hashLength : e.forkAppHash.length = 32
  sigLength : e.forkFinalitySig.length = 32
  canonical : ∃ b, blocks.get height = some b ∧ e.canonicalAppHash = b.appHash

structure SlashInv (E : Env) (s : Stores) : Prop where
  votes : ∀ h pk sig, s.fin.votes.get₂ h pk = some sig →
    ∃ b, s.fin.blocks.get h = some b ∧ b.appHash.length = 32
  evidence : ∀ pk h e, s.fin.evidences.get₂ pk h = some e → WellFormedEvidence E s.fin.blocks pk h e
  slashed : ∀ pk h sig e, s.fin.votes.get₂ h pk = some sig → s.fin.evidences.get₂ pk h = some e →
    s.stk.isSlashedFp pk ∧ e.canonicalFinalitySig.isSome = true

section

variable {E : Env} {blocks blocks' : KVStore Nat IndexedBlock} {pk : BIP340PubKey} {h : Nat}
  {e : Evidence}

theorem length_ne_nil {b : Bytes} {n : Nat} (hb : b.length = n+1) : b ≠ [] := by
  intro h0
  simp [h0] at hb

theorem WellFormedEvidence.isSlashable (he : WellFormedEvidence E blocks pk h e)
    (hl : ∀ b, blocks.get h = some b → b.appHash.length = 32)
    (hs : e.canonicalFinalitySig.isSome = true) : e.isSlashable E = true := by
  obtain ⟨b,hb,ha⟩ := he.canonical
  have hcn : e.canonicalAppHash.length = 32 := by
    rw [ha]
    exact hl b hb
  have hpk : e.fpBtcPk.length = 32 := by
    have hp := he.pkParses
    unfold Eots.parsePubKey at hp
    split at hp
    · rename_i hc
      exact hc.1
    · simp at hp
  have hv : e.validateBasic E = .ok () := by
    simp only [Evidence.validateBasic,ok_iff]
    exact ⟨length_ne_nil hpk,he.pkParses,length_ne_nil he.randLength,hcn,he.hashLength,
      length_ne_nil he.sigLength,he.sigLength⟩
  unfold Evidence.isSlashable
  rw [hv]
  exact hs

theorem WellFormedEvidence.of_blocks (he : WellFormedEvidence E blocks pk h e)
    (hb : ∀ b, blocks.get h = some b → ∃ b', blocks'.get h = some b' ∧ b'.appHash = b.appHash) :
    WellFormedEvidence E blocks' pk h e := by
  obtain ⟨b,hg,ha⟩ := he.canonical
  obtain ⟨b',hg',ha'⟩ := hb b hg
  exact ⟨he.pk_eq,he.height_eq,he.pkParses,he.randLength,he.hashLength,he.sigLength,
    b',hg',ha.trans ha'.symm⟩

end

section

variable {E : Env} {ctx : Ctx} {s s' : Stores} {v : FinalityVote} {block : IndexedBlock}
  {c : Finality.PubRandCommit}

theorem SlashInv.of_frame (hi : SlashInv E s) (hv : s'.fin.votes = s.fin.votes)
    (he : s'.fin.evidences = s.fin.evidences)
    (hb : ∀ h b, s.fin.blocks.get h = some b → ∃ b', s'.fin.blocks.get h = some b' ∧
      b'.appHash = b.appHash)
    (hs : ∀ pk, s.stk.isSlashedFp pk → s'.stk.isSlashedFp pk) : SlashInv E s' := by
  refine ⟨?_,?_,?_⟩
  · intro h pk sig hsg
    rw [hv] at hsg
    obtain ⟨b,hg,hl⟩ := hi.votes h pk sig hsg
    obtain ⟨b',hg',ha⟩ := hb h b hg
    exact ⟨b',hg',by rw [ha]; exact hl⟩
  · intro pk h e hev
    rw [he] at hev
    exact (hi.evidence pk h e hev).of_blocks (hb h)
  · intro pk h sig e hsg hev
    rw [hv] at hsg
    rw [he] at hev
    obtain ⟨hsl,hc⟩ := hi.slashed pk h sig e hsg hev
    exact ⟨hs pk hsl,hc⟩

theorem Finality.CheckedVote.parses (hc : CheckedVote E ctx s v block c) :
    (Eots.parsePubKey E.curve v.fpBtcPk).isSome = true := by
  have hv := hc.verified
  simp only [verifyFinalitySig,ok_iff] at hv
  obtain ⟨_,_,_,P,hP,_⟩ := hv
  simp [hP]

theorem forkEvidence_wellFormed {sig : Option Bytes} (hc : CheckedVote E ctx s v block c) :
    WellFormedEvidence E s.fin.blocks v.fpBtcPk v.blockHeight (forkEvidence v block sig) :=
  ⟨rfl,rfl,hc.parses,hc.randLength,hc.hashLength,hc.sigLength,block,hc.block,rfl⟩

theorem SlashInv.vote (hi : SlashInv E s) (hk : s.stk.FpKeyed) (hp : 0 < ctx.header.height)
    (hb : ∀ h b, s.fin.blocks.get h = some b → h ≤ ctx.header.height)
    (hc : CheckedVote E ctx s v block c) (h : VoteEffect ctx s v block s') : SlashInv E s' := by
  have hl : v.blockHeight ≤ ctx.header.height := hb _ _ hc.block
  have hkp : ∀ pk, s.stk.isSlashedFp pk → s'.stk.isSlashedFp pk :=
    fun pk hsl => h.providers.slashed hk hsl
  have hf : ∀ sig pk k e, (s.fin.evidences.set₂ v.fpBtcPk v.blockHeight
      (forkEvidence v block sig)).get₂ pk k = some e →
      WellFormedEvidence E s.fin.blocks pk k e := by
    exact fun _ => forall_set₂ (forkEvidence_wellFormed hc) hi.evidence
  cases h with
  | fork _ novote =>
    refine ⟨hi.votes,hf _,?_⟩
    · intro pk k sig e hsg he
      rcases get₂_set₂_cases he with ⟨rfl,rfl,_⟩ | ⟨_,he⟩
      · cases (novote hl).symm.trans hsg
      · exact hi.slashed pk k sig e hsg he
  | @forkSlash _ stk _ _ slash =>
    have hsl : stk.isSlashedFp v.fpBtcPk := BtcStaking.slashFinalityProvider_slashed hk hp slash
    refine ⟨hi.votes,hf _,?_⟩
    · intro pk k sig e hsg he
      rcases get₂_set₂_cases he with ⟨rfl,_,rfl⟩ | ⟨_,he⟩
      · exact ⟨hsl,rfl⟩
      · obtain ⟨hs,hcn⟩ := hi.slashed pk k sig e hsg he
        exact ⟨hkp pk hs,hcn⟩
  | @vote _ canonical _ noevidence =>
    refine ⟨forall_set₂ ⟨block,hc.block,by rw [canonical]; exact hc.hashLength⟩ hi.votes,
      hi.evidence,?_⟩
    · intro pk k sig e hsg he
      rcases get₂_set₂_cases hsg with ⟨rfl,rfl,_⟩ | ⟨_,hsg⟩
      · cases noevidence.symm.trans he
      · obtain ⟨hs,hcn⟩ := hi.slashed pk k sig e hsg he
        exact ⟨hkp pk hs,hcn⟩
  | @voteSlash e₀ _ stk' canonical steps evidence slash =>
    have hw := hi.evidence _ _ _ evidence
    have hsl : stk'.isSlashedFp v.fpBtcPk :=
      BtcStaking.slashFinalityProvider_slashed (steps.keyed hk) hp slash
    refine ⟨forall_set₂ ⟨block,hc.block,by rw [canonical]; exact hc.hashLength⟩ hi.votes,?_,?_⟩
    · simp only [State.setEvidence,hw.pk_eq,hw.height_eq]
      exact forall_set₂ ⟨rfl,rfl,hw.pk_eq ▸ hw.pkParses,hw.randLength,hw.hashLength,hw.sigLength,
        hw.canonical⟩ hi.evidence
    · intro pk k sig e hsg he
      simp only [State.setEvidence,hw.pk_eq,hw.height_eq] at he
      rcases get₂_set₂_cases he with ⟨rfl,_,rfl⟩ | ⟨hn,he⟩
      · exact ⟨hsl,rfl⟩
      · rcases get₂_set₂_cases hsg with ⟨rfl,rfl,_⟩ | ⟨_,hsg⟩
        · exact absurd ⟨rfl,rfl⟩ hn
        obtain ⟨hs,hcn⟩ := hi.slashed pk k sig e hsg he
        exact ⟨hkp pk hs,hcn⟩

end

section

variable {E : Env} {c c' : Chain}

theorem SlashInv.step {a : Action} (hb : BaseInv c) (hi : SlashInv E c.stores)
    (h : StepEffect E c a c') : SlashInv E c'.stores := by
  have hs : ∀ pk, c.stores.stk.isSlashedFp pk → c'.stores.stk.isSlashedFp pk :=
    fun pk => h.slashed hb
  cases h with
  | @beginBlock _ _ _ _ _ _ run =>
    obtain ⟨_,_,_,_,_,_,_,_,_,he⟩ := updatePowerDist_effect run
    refine hi.of_frame (by rw [he.fin]) (by rw [he.fin]) ?_ hs
    intro h b hg
    exact ⟨b,by rw [he.fin]; exact hg,rfl⟩
  | @endBlock _ _ _ run =>
    have he := endBlocker_effect hb.blocks run
    refine hi.of_frame (by rw [he.fin]) (by rw [he.fin]) ?_ hs
    intro h b hg
    obtain ⟨b',hb',_,ha⟩ := he.blocks.keeps h b hg
    exact ⟨b',hb',ha⟩
  | @between _ _ stores _ busy effect =>
    have hbl : ∀ h b, c.stores.fin.blocks.get h = some b →
        ∃ b', stores.fin.blocks.get h = some b' ∧ b'.appHash = b.appHash := by
      intro h b hg
      exact ⟨b,by rw [effect.blocks]; exact hg,rfl⟩
    cases effect with
    | quiet fin _ => exact hi.of_frame (by rw [fin]) (by rw [fin]) hbl hs
    | commit effect =>
      exact hi.of_frame (by rw [effect.fin]) (by rw [effect.fin]) hbl hs
    | params _ fin => exact hi.of_frame (by rw [fin]) (by rw [fin]) hbl hs
    | resume _ run =>
      have he := resumeFinalityProposal_effect run
      exact hi.of_frame (by rw [he.fin]) (by rw [he.fin]) hbl hs
    | vote checked effect =>
      cases busy with
      | inl heq =>
        subst heq
        exact hi
      | inr hin =>
        exact hi.vote hb.providers (hb.positive hin) hb.bounded checked effect

theorem slashInv_genesis (hg : Genesis E c) : SlashInv E c.stores := by
  exact ⟨by simp [hg.noVotes],by simp [hg.noEvidence],by simp [hg.noVotes]⟩

theorem slashInv (h : (chain E).Reachable c) : SlashInv E c.stores := by
  refine (chain_invariant (P := fun c => BaseInv c ∧ SlashInv E c.stores) ?_ ?_ h).2
  · intro c hg
    exact ⟨baseInv_genesis hg,slashInv_genesis hg⟩
  · intro c a c' hc hs
    exact ⟨baseInv_step hc.1 hs,hc.2.step hc.1 hs⟩

end

/-- In every state, a canonical vote and evidence at one height mean a slashed provider and
slashable evidence; so two quorums at one height cost more than a third of the power. -/
theorem slashable_safety {E : Finality.Env} {c : Chain} (h : (chain E).Reachable c) :
    (∀ pk height sig e, c.stores.fin.votes.get₂ height pk = some sig →
      c.stores.fin.evidences.get₂ pk height = some e →
      c.stores.stk.isSlashedFp pk ∧ e.isSlashable E = true) ∧
    ∀ (table : KVStore BIP340PubKey Nat) (height : Nat), 3*table.total < 2^64 →
      Finality.tally table (c.stores.fin.isVoter height) = true →
      Finality.tally table (fun pk => c.stores.fin.hasEvidence pk height) = true →
      table.total < 3*table.weight (fun pk =>
        (c.stores.stk.finalityProviders.get pk).any (·.isSlashed)) := by
  have hi := slashInv h
  refine ⟨?_,?_⟩
  · intro pk height sig e hsg he
    obtain ⟨hsl,hc⟩ := hi.slashed pk height sig e hsg he
    refine ⟨hsl,(hi.evidence pk height e he).isSlashable ?_ hc⟩
    intro b hb
    obtain ⟨b',hb',hl⟩ := hi.votes height pk sig hsg
    rw [hb,Option.some.injEq] at hb'
    rw [hb']
    exact hl
  · intro table height hf hv hfr
    rw [tally_iff hf] at hv hfr
    refine (KVStore.quorum_intersection hv hfr).trans_le (Nat.mul_le_mul_left 3 ?_)
    refine KVStore.weight_mono ?_
    intro pk hbt
    simp only [State.isVoter,State.hasEvidence,Bool.and_eq_true,Option.isSome_iff_exists] at hbt
    obtain ⟨⟨sig,hsg⟩,e,he⟩ := hbt
    obtain ⟨fp,hfp,hs⟩ := (hi.slashed pk height sig e hsg he).1
    simp [hfp,hs]

def Regtest.equivocation : List Action :=
  [beginBlock 1] ++ join 1 10 ++
    [.endBlock,beginBlock 2,.endBlock,beginBlock 3,vote 1 0 2,vote 1 3 2]

def Regtest.equivocationTable : KVStore BIP340PubKey Nat := KVStore.empty.set (bytes 1) 10

open Regtest in
theorem slashable_safety_equivocation : ∃ c sig e, (chain env).Reachable c ∧
    c.stores.fin.votes.get₂ 2 (bytes 1) = some sig ∧
    c.stores.fin.evidences.get₂ (bytes 1) 2 = some e ∧
    (c.stores.stk.isSlashedFp (bytes 1) ∧ e.isSlashable env = true) ∧
    equivocationTable.total < 3*equivocationTable.weight (fun pk =>
      (c.stores.stk.finalityProviders.get pk).any (·.isSlashed)) := by
  have hrn : holds (deliverAll env (genesis 1) equivocation) (fun c =>
      c.stores.fin.isVoter 2 (bytes 1) && c.stores.fin.hasEvidence (bytes 1) 2 &&
        tally equivocationTable (c.stores.fin.isVoter 2) &&
        tally equivocationTable (fun pk => c.stores.fin.hasEvidence pk 2)) = true := by
    decide +kernel
  obtain ⟨c,hc,ht⟩ := holds_iff.mp hrn
  simp only [Bool.and_eq_true,State.isVoter,State.hasEvidence,Option.isSome_iff_exists] at ht
  obtain ⟨⟨⟨⟨sig,hs⟩,e,he⟩,hv⟩,hf⟩ := ht
  have hr : (chain env).Reachable c :=
    reachable_deliverAll (.init genesis_init) hc
  exact ⟨c,sig,e,hr,hs,he,(slashable_safety hr).1 _ _ sig e hs he,
    (slashable_safety hr).2 _ 2 (by decide) hv hf⟩

end AnonChain
