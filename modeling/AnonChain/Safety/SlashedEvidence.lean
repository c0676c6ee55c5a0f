import AnonChain.BtcSlasher
import AnonChain.Lib.Execution
import AnonChain.Safety.Slashing

/-! The provider of an evidence with both signatures is slashed; its evidences never change. -/

namespace AnonChain

open Lib List Finality
open KVStore (get₂_set₂ mem_entries forall_set₂ get₂_set₂_cases)
open BtcStaking (Ctx)
open Finality (Stores Evidence FinalityVote IndexedBlock CheckedVote VoteEffect Env State)

variable {E : Env} {c c' : Chain} {e : Evidence}

/-- What a step does to the evidences: nothing, or one of a provider that is not slashed is set. -/
inductive EvidenceStep (s s' : Stores) : Prop where
  | same (evidences : s'.fin.evidences = s.fin.evidences)
  | set {e : Evidence} (fresh : ¬ s.stk.isSlashedFp e.fpBtcPk)
      (evidences : s'.fin.evidences = s.fin.evidences.set₂ e.fpBtcPk e.blockHeight e)
      (slashes : e.canonicalFinalitySig.isSome = true → s'.stk.isSlashedFp e.fpBtcPk)

theorem VoteEffect.evidenceStep {ctx : Ctx} {s s' : Stores} {v : FinalityVote}
    {block : IndexedBlock}
    {p : Finality.PubRandCommit} (hi : SlashInv E s) (hk : s.stk.FpKeyed)
    (hp : 0 < ctx.header.height)
    (hc : CheckedVote E ctx s v block p) (h : VoteEffect ctx s v block s') : EvidenceStep s s' := by
  cases h with
  | fork =>
    exact .set (e := forkEvidence v block none) hc.notSlashed rfl fun hs => by cases hs
  | @forkSlash sig _ _ _ slash =>
    exact .set (e := forkEvidence v block (some sig)) hc.notSlashed rfl
      fun _ => BtcStaking.slashFinalityProvider_slashed hk hp slash
  | vote => exact .same rfl
  | @voteSlash e _ _ _ steps evidence slash =>
    have hpk : e.fpBtcPk = v.fpBtcPk := (hi.evidence _ _ _ evidence).pk_eq
    refine .set (e := { e with canonicalFinalitySig := some v.finalitySig }) ?_ rfl ?_
    · rw [hpk]
      exact hc.notSlashed
    · intro _
      rw [hpk]
      exact BtcStaking.slashFinalityProvider_slashed (steps.keyed hk) hp slash

theorem StepEffect.evidenceStep {a : Action} (hb : BaseInv c) (hi : SlashInv E c.stores)
    (h : StepEffect E c a c') : EvidenceStep c.stores c'.stores := by
  cases h with
  | beginBlock _ _ run =>
    obtain ⟨_,_,_,_,_,_,_,_,_,he⟩ := updatePowerDist_effect run
    exact .same (by rw [he.fin])
  | endBlock _ _ run => exact .same (by rw [(endBlocker_effect hb.blocks run).fin])
  | between _ busy effect =>
    cases effect with
    | quiet fin _ => exact .same (by rw [fin])
    | commit effect => exact .same (by rw [effect.fin])
    | params _ fin => exact .same (by rw [fin])
    | resume _ run => exact .same (by rw [(resumeFinalityProposal_effect run).fin])
    | vote checked effect =>
      cases busy with
      | inl heq => exact .same (by rw [heq])
      | inr hin => exact VoteEffect.evidenceStep hi hb.providers (hb.positive hin) checked effect

/-- Evidence with both signatures is of a slashed provider, which has no other such evidence. -/
structure EvidenceInv (s : Stores) : Prop where
  slashed : ∀ pk h e, s.fin.evidences.get₂ pk h = some e → e.canonicalFinalitySig.isSome = true →
    s.stk.isSlashedFp pk
  single : ∀ pk h h' e e', s.fin.evidences.get₂ pk h = some e →
    s.fin.evidences.get₂ pk h' = some e' →
    e.canonicalFinalitySig.isSome = true → e'.canonicalFinalitySig.isSome = true → h = h'

theorem EvidenceInv.step {s s' : Stores} (hi : EvidenceInv s) (h : EvidenceStep s s')
    (hs : ∀ pk, s.stk.isSlashedFp pk → s'.stk.isSlashedFp pk) : EvidenceInv s' := by
  cases h with
  | same evidences =>
    refine ⟨?_,?_⟩
    · intro pk h e he hsg
      rw [evidences] at he
      exact hs pk (hi.slashed pk h e he hsg)
    · intro pk h h' e e' he he'
      rw [evidences] at he he'
      exact hi.single pk h h' e e' he he'
  | @set e₀ fresh evidences slashes =>
    -- the other evidences of the provider have one signature
    have ho : ∀ h e, s.fin.evidences.get₂ e₀.fpBtcPk h = some e →
        e.canonicalFinalitySig.isSome = true → False :=
      fun h e he hsg => fresh (hi.slashed _ h e he hsg)
    refine ⟨?_,?_⟩
    · rw [evidences]
      exact forall_set₂ slashes fun pk h e he hsg => hs pk (hi.slashed pk h e he hsg)
    · intro pk h h' e e' he he' hsg hsg'
      rw [evidences] at he he'
      rcases get₂_set₂_cases he with ⟨rfl,rfl,_⟩ | ⟨_,hold⟩ <;>
        rcases get₂_set₂_cases he' with ⟨hp,rfl,_⟩ | ⟨_,hold'⟩
      · rfl
      · exact (ho h' e' hold' hsg').elim
      · exact (ho h e (hp ▸ hold) hsg).elim
      · exact hi.single pk h h' e e' hold hold' hsg hsg'

theorem reachable_evidence (h : (chain E).Reachable c) :
    BaseInv c ∧ SlashInv E c.stores ∧ EvidenceInv c.stores := by
  refine chain_invariant (P := fun c => BaseInv c ∧ SlashInv E c.stores ∧
    EvidenceInv c.stores) ?_ ?_ h
  · intro c hg
    exact ⟨baseInv_genesis hg,slashInv_genesis hg,by simp [hg.noEvidence],by simp [hg.noEvidence]⟩
  · intro c a c' hc hs
    obtain ⟨hb,hi,he⟩ := hc
    exact ⟨baseInv_step hb hs,hi.step hb hs,he.step (hs.evidenceStep hb hi) fun pk => hs.slashed hb⟩

def SlashableIn (E : Env) (fin : State) (e : Evidence) : Prop :=
  ∃ pk h, fin.evidences.get₂ pk h = some e ∧ e.isSlashable E = true

theorem Evidence.signed_of_isSlashable (h : e.isSlashable E = true) :
    e.canonicalFinalitySig.isSome = true := by
  unfold Evidence.isSlashable at h
  split at h
  · cases h
  · exact h

theorem mem_slashableEvidences {fin : State} :
    e ∈ fin.slashableEvidences E ↔ SlashableIn E fin e := by
  simp only [State.slashableEvidences,SlashableIn,mem_filter,mem_flatMap,mem_map,
    Prod.exists,exists_eq_right,mem_entries,KVStore.get₂,KVStore.sub,KVStore.getD]
  constructor
  · rintro ⟨⟨pk,t,ht,h,hg⟩,hs⟩
    exact ⟨pk,h,by rw [ht]; exact hg,hs⟩
  · rintro ⟨pk,h,hg,hs⟩
    cases ht : fin.evidences.get pk with
    | none =>
      rw [ht] at hg
      cases hg
    | some t =>
      rw [ht] at hg
      exact ⟨⟨pk,t,ht,h,hg⟩,hs⟩

theorem SlashableIn.first (hc : (chain E).Reachable c) (h : SlashableIn E c.stores.fin e) :
    c.stores.fin.evidences.get₂ e.fpBtcPk e.blockHeight = some e ∧
      c.stores.fin.getFirstSlashableEvidence E e.fpBtcPk = some e := by
  obtain ⟨-,hi,he⟩ := reachable_evidence hc
  obtain ⟨pk,h,hg,hs⟩ := h
  have hw := hi.evidence pk h e hg
  obtain rfl := hw.pk_eq
  obtain rfl := hw.height_eq
  refine ⟨hg,?_⟩
  unfold State.getFirstSlashableEvidence
  cases hf : (c.stores.fin.evidences.sub e.fpBtcPk).entries.find? fun e => e.2.isSlashable E with
  | none =>
    have hn := find?_eq_none.mp hf (e.blockHeight,e) (mem_entries.mpr hg)
    exact absurd hs hn
  | some p =>
    obtain ⟨h',e'⟩ := p
    have hg' : c.stores.fin.evidences.get₂ e.fpBtcPk h' = some e' :=
      mem_entries.mp (mem_of_find?_eq_some hf)
    have hs' := find?_some hf
    have hh := he.single _ _ _ _ _ hg hg' (Evidence.signed_of_isSlashable hs)
      (Evidence.signed_of_isSlashable hs')
    rw [← hh,hg] at hg'
    rw [Option.map_some,Option.some.inj hg']

theorem SlashableIn.step {a : Action} (hc : (chain E).Reachable c) (hs : (chain E).step c a c')
    (h : SlashableIn E c.stores.fin e) : SlashableIn E c'.stores.fin e := by
  rcases hs with ho | ⟨-, -,rfl⟩
  · obtain ⟨hb,hi,he⟩ := reachable_evidence hc
    obtain ⟨pk,h,hg,hsl⟩ := h
    have hss := he.slashed pk h e hg (Evidence.signed_of_isSlashable hsl)
    refine ⟨pk,h,?_,hsl⟩
    cases (deliver_effect ho).evidenceStep hb hi with
    | same evidences => rw [evidences,hg]
    | @set e₀ fresh evidences _ =>
      have hn : ¬ (pk = e₀.fpBtcPk ∧ h = e₀.blockHeight) := fun heq => fresh (heq.1 ▸ hss)
      rw [evidences,get₂_set₂,if_neg hn,hg]
  · exact h

theorem StepEffect.votes_of_slashed {a : Action} (hb : BaseInv c) (h : StepEffect E c a c')
    {pk : BIP340PubKey}
    (hs : c.stores.stk.isSlashedFp pk) (k : Nat) :
    c'.stores.fin.votes.get₂ k pk = c.stores.fin.votes.get₂ k pk := by
  cases h with
  | beginBlock _ _ run =>
    obtain ⟨_,_,_,_,_,_,_,_,_,he⟩ := updatePowerDist_effect run
    rw [he.fin]
  | endBlock _ _ run => rw [(endBlocker_effect hb.blocks run).fin]
  | between _ _ effect =>
    cases effect with
    | quiet fin _ => rw [fin]
    | commit effect => rw [effect.fin]
    | params _ fin => rw [fin]
    | resume _ run => rw [(resumeFinalityProposal_effect run).fin]
    | @vote v _ _ checked effect =>
      -- a checked vote is of another provider
      have hn : ¬ (k = v.blockHeight ∧ pk = v.fpBtcPk) := fun he => checked.notSlashed (he.2 ▸ hs)
      cases effect with
      | fork => rfl
      | forkSlash => rfl
      | vote => exact (get₂_set₂ ..).trans (if_neg hn)
      | voteSlash => exact (get₂_set₂ ..).trans (if_neg hn)

/-- The provider is slashed, with the votes and evidences of `fin`. -/
def Silenced (pk : BIP340PubKey) (fin : State) (c : Chain) : Prop :=
  c.stores.stk.isSlashedFp pk ∧ ∀ k, c.stores.fin.votes.get₂ k pk = fin.votes.get₂ k pk ∧
    c.stores.fin.evidences.get₂ pk k = fin.evidences.get₂ pk k

theorem Silenced.step {pk : BIP340PubKey} {fin : State} {a : Action} (hc : (chain E).Reachable c)
    (h : Silenced pk fin c) (hs : (chain E).step c a c') : Silenced pk fin c' := by
  rcases hs with ho | ⟨-, -,rfl⟩
  · obtain ⟨hp,hk⟩ := h
    obtain ⟨hb,hi,-⟩ := reachable_evidence hc
    have hd := deliver_effect ho
    refine ⟨hd.slashed hb hp,fun k => ⟨(hd.votes_of_slashed hb hp k).trans (hk k).1,
      .trans ?_ (hk k).2⟩⟩
    cases hd.evidenceStep hb hi with
    | same evidences => rw [evidences]
    | set fresh evidences _ =>
      rw [evidences,get₂_set₂,if_neg]
      exact fun he => fresh (he.1 ▸ hp)
  · exact h

/-- A slashed provider stays slashed, and none of its votes or evidences is written again. -/
theorem slashing_final {pk : BIP340PubKey} (e : (chain E).Execution) {i j : Nat} (hi : i ≤ j)
    (hs : (e.state i).stores.stk.isSlashedFp pk) : Silenced pk (e.state i).stores.fin (e.state j) :=
  e.stays (fun _ _ _ hc hp => hp.step hc) hi ⟨hs,fun _ => ⟨rfl,rfl⟩⟩

/-- The slashed provider votes again. -/
def Regtest.slashedVote : (chain env).Execution :=
  .ofMoves (fun c a c' (h : (deliver env c a).toOption = some c') => .inl (toOption_eq_some.mp h))
    (equivocation ++ [.endBlock,beginBlock 4,vote 1 0 3]) (genesis_init : Genesis env (genesis 1))

open Regtest in
theorem slashing_final_vote :
    Silenced (bytes 1) (slashedVote.state 11).stores.fin (slashedVote.state 14) := by
  have hs : ((slashedVote.state 11).stores.stk.finalityProviders.get (bytes 1)).any
      (·.isSlashed) = true := by
    decide +kernel
  exact slashing_final slashedVote (by simp) ((Option.any_eq_true _ _).mp hs)

end AnonChain
