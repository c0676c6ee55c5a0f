import AnonChain.Finality.Commits
import AnonChain.Safety.Slashing

/-! Evidence that holds both signatures gives up the private key. -/

namespace AnonChain

open Lib Option Finality
open KVStore (forall_set₂ get₂_set₂_cases)
open Regtest (env bytes)
open BtcStaking (Ctx)
open Finality (Stores Evidence FinalityVote IndexedBlock PubRandCommit CheckedVote VoteEffect
  CommitInv Env State forkEvidence msgToSignForVote uint64)

/-- A signature over an app hash that was verified against the commitment of its height. -/
def VerifiedSig (E : Env) (fin : State) (pk : BIP340PubKey) (h : Nat)
    (appHash pubRand sig : Bytes) : Prop :=
  appHash.length = 32 ∧ ∃ c proof, fin.getPubRandCommitForHeight pk h = .ok c ∧
    Finality.verifyFinalitySig E ⟨pk,h,pubRand,proof,appHash,sig⟩ c = .ok ()

structure ExtractInv (E : Env) (fin : State) : Prop where
  commits : CommitInv fin
  votes : ∀ h pk sig, fin.votes.get₂ h pk = some sig →
    ∃ b r, fin.blocks.get h = some b ∧ VerifiedSig E fin pk h b.appHash r sig
  fork : ∀ pk h e, fin.evidences.get₂ pk h = some e → e.canonicalAppHash ≠ e.forkAppHash ∧
    VerifiedSig E fin pk h e.forkAppHash e.pubRand e.forkFinalitySig
  canonical : ∀ pk h e sig, fin.evidences.get₂ pk h = some e → e.canonicalFinalitySig = some sig →
    ∃ r, VerifiedSig E fin pk h e.canonicalAppHash r sig

section

variable {E : Env} {ctx : Ctx} {s s' : Stores} {fin fin' : State}

theorem VerifiedSig.mono {pk : BIP340PubKey} {h : Nat} {appHash r sig : Bytes}
    (hv : VerifiedSig E fin pk h appHash r sig)
    (hl : ∀ c, fin.getPubRandCommitForHeight pk h = .ok c →
      fin'.getPubRandCommitForHeight pk h = .ok c) :
    VerifiedSig E fin' pk h appHash r sig := by
  obtain ⟨hln,c,proof,hc,hvr⟩ := hv
  exact ⟨hln,c,proof,hl c hc,hvr⟩

theorem ExtractInv.of_frame (hi : ExtractInv E fin) (hc : CommitInv fin')
    (hv : fin'.votes = fin.votes) (he : fin'.evidences = fin.evidences)
    (hl : ∀ pk h c, fin.getPubRandCommitForHeight pk h = .ok c →
      fin'.getPubRandCommitForHeight pk h = .ok c)
    (hb : ∀ h b, fin.blocks.get h = some b → ∃ b', fin'.blocks.get h = some b' ∧
      b'.appHash = b.appHash) :
    ExtractInv E fin' := by
  refine ⟨hc,?_,?_,?_⟩
  · intro h pk sig hs
    rw [hv] at hs
    obtain ⟨b,r,hg,hvr⟩ := hi.votes h pk sig hs
    obtain ⟨b',hg',ha⟩ := hb h b hg
    exact ⟨b',r,hg',by rw [ha]; exact hvr.mono (hl pk h)⟩
  · intro pk h e hev
    rw [he] at hev
    obtain ⟨hn,hvr⟩ := hi.fork pk h e hev
    exact ⟨hn,hvr.mono (hl pk h)⟩
  · intro pk h e sig hev hs
    rw [he] at hev
    obtain ⟨r,hvr⟩ := hi.canonical pk h e sig hev hs
    exact ⟨r,hvr.mono (hl pk h)⟩

theorem ExtractInv.vote {v : FinalityVote} {block : IndexedBlock} {c : PubRandCommit}
    (hs : SlashInv E s)
    (hi : ExtractInv E s.fin) (hc : CheckedVote E ctx s v block c)
    (h : VoteEffect ctx s v block s') : ExtractInv E s'.fin := by
  have hvr : VerifiedSig E s.fin v.fpBtcPk v.blockHeight v.blockAppHash v.pubRand v.finalitySig :=
    ⟨hc.hashLength,c,v.proof,hc.commit,hc.verified⟩
  have hf : block.appHash ≠ v.blockAppHash → ∀ sig pk k e, (s.fin.evidences.set₂ v.fpBtcPk
      v.blockHeight (forkEvidence v block sig)).get₂ pk k = some e →
      e.canonicalAppHash ≠ e.forkAppHash ∧
        VerifiedSig E s.fin pk k e.forkAppHash e.pubRand e.forkFinalitySig :=
    fun hfr _ => forall_set₂ ⟨hfr,hvr⟩ hi.fork
  cases h with
  | fork hfr _ =>
    refine ⟨hi.commits.congr rfl rfl,hi.votes,hf hfr _,?_⟩
    · intro pk k e sig he hsg
      rcases get₂_set₂_cases he with ⟨_,_,rfl⟩ | ⟨_,he⟩
      · simp [forkEvidence] at hsg
      · exact hi.canonical pk k e sig he hsg
  | @forkSlash _ _ hfr vote _ =>
    refine ⟨hi.commits.congr rfl rfl,hi.votes,hf hfr _,?_⟩
    · intro pk k e sig he hsg
      rcases get₂_set₂_cases he with ⟨rfl,rfl,rfl⟩ | ⟨_,he⟩
      · obtain ⟨b,r,hb,hv⟩ := hi.votes _ _ _ vote
        rw [hc.block,some.injEq] at hb
        refine ⟨r,?_⟩
        rw [← some.inj hsg]
        exact hb ▸ hv
      · exact hi.canonical pk k e sig he hsg
  | @vote _ canonical _ _ =>
    exact ⟨hi.commits.congr rfl rfl,
      forall_set₂ ⟨block,v.pubRand,hc.block,by rw [canonical]; exact hvr⟩ hi.votes,
      hi.fork,hi.canonical⟩
  | @voteSlash e₀ _ _ canonical _ evidence _ =>
    have hw := hs.evidence _ _ _ evidence
    refine ⟨hi.commits.congr rfl rfl,
      forall_set₂ ⟨block,v.pubRand,hc.block,by rw [canonical]; exact hvr⟩ hi.votes,?_,?_⟩
    · simp only [State.setEvidence,hw.pk_eq,hw.height_eq]
      exact forall_set₂ (hi.fork _ _ e₀ evidence) hi.fork
    · intro pk k e sig he hsg
      simp only [State.setEvidence,hw.pk_eq,hw.height_eq] at he
      rcases get₂_set₂_cases he with ⟨rfl,rfl,rfl⟩ | ⟨_,he⟩
      · obtain ⟨b,hb,ha⟩ := hw.canonical
        rw [hc.block,some.injEq] at hb
        refine ⟨v.pubRand,?_⟩
        rw [← some.inj hsg,ha,← hb,canonical]
        exact hvr
      · exact hi.canonical pk k e sig he hsg

theorem ExtractInv.step {c c' : Chain} {a : Action} (hb : BaseInv c) (hs : SlashInv E c.stores)
    (hi : ExtractInv E c.stores.fin) (h : StepEffect E c a c') : ExtractInv E c'.stores.fin := by
  cases h with
  | @beginBlock _ _ _ _ _ _ run =>
    obtain ⟨_,_,_,_,_,_,_,_,_,he⟩ := updatePowerDist_effect run
    rw [he.fin]
    exact ⟨hi.commits.congr rfl rfl,hi.votes,hi.fork,hi.canonical⟩
  | @endBlock _ _ _ run =>
    have he := endBlocker_effect hb.blocks run
    refine hi.of_frame ?_ (by rw [he.fin]) (by rw [he.fin]) ?_ ?_
    · rw [he.fin]
      exact hi.commits.congr rfl rfl
    · intro pk k c hc
      rw [he.fin]
      exact hc
    · intro k b hg
      obtain ⟨b',hb',_,ha⟩ := he.blocks.keeps k b hg
      exact ⟨b',hb',ha⟩
  | @between _ _ _ _ _ effect =>
    cases effect with
    | quiet fin _ =>
      rw [fin]
      exact hi
    | commit effect =>
      refine hi.of_frame (hi.commits.commit effect) (by rw [effect.fin]) (by rw [effect.fin]) ?_ ?_
      · intro pk k c hc
        exact hi.commits.keeps_lookup effect hc
      · intro k b hg
        exact ⟨b,by rw [effect.fin]; exact hg,rfl⟩
    | params _ fin =>
      rw [fin]
      exact ⟨hi.commits.congr rfl rfl,hi.votes,hi.fork,hi.canonical⟩
    | resume _ run =>
      rw [(resumeFinalityProposal_effect run).fin]
      exact ⟨hi.commits.congr rfl rfl,hi.votes,hi.fork,hi.canonical⟩
    | vote checked effect => exact hi.vote hs checked effect

theorem commitInv_genesis {c : Chain} (hg : Genesis E c) : CommitInv c.stores.fin := by
  constructor
  all_goals simp only [hg.noCommits,hg.noIndex]
  · simp
  · simp
  · simp
  · intro pk
    rfl

theorem extractInv {c : Chain} (h : (chain E).Reachable c) : ExtractInv E c.stores.fin := by
  refine (chain_invariant (P := fun c => BaseInv c ∧ SlashInv E c.stores ∧
    ExtractInv E c.stores.fin)
    ?_ ?_ h).2.2
  · intro c hg
    exact ⟨baseInv_genesis hg,slashInv_genesis hg,commitInv_genesis hg,by simp [hg.noVotes],
      by simp [hg.noEvidence],by simp [hg.noEvidence]⟩
  · rintro c a c' ⟨hb,hs,hi⟩ hst
    exact ⟨baseInv_step hb hst,hs.step hb hst,hi.step hb hs hst⟩

end

def MerkleBinding (E : Env) : Prop :=
  ∀ (p q : Finality.MerkleProof) (root leaf leaf' : Bytes), p.index = q.index → p.total = q.total →
    E.merkleVerify p root leaf = true → E.merkleVerify q root leaf' = true → leaf = leaf'

/-- The challenge hash does not collide on the two messages of the evidence. -/
def ChallengeInjective (E : Env) (e : Evidence) : Prop :=
  let canonical := msgToSignForVote e.blockHeight e.canonicalAppHash
  let fork := msgToSignForVote e.blockHeight e.forkAppHash
  let r := Eots.toFieldValNormalized E.curve e.pubRand
  ∀ P, Eots.parsePubKey E.curve e.fpBtcPk = some P → canonical ≠ fork →
    Eots.challenge E.curve E.hashes r P (E.hashes.sha256 canonical) ≠
      Eots.challenge E.curve E.hashes r P (E.hashes.sha256 fork)

section

variable {E : Env}

theorem toUInt64_toNat_inj {i j : Int64} (h : i.toUInt64.toNat = j.toUInt64.toNat) : i = j :=
  congrArg Int64.ofUInt64 (UInt64.toNat_inj.mp h)

theorem toUInt64_add_inj {a : Nat} {i j : Int64}
    (h : uint64 (a+i.toUInt64.toNat) = uint64 (a+j.toUInt64.toNat)) : i = j := by
  have hi := UInt64.toNat_lt i.toUInt64
  have hj := UInt64.toNat_lt j.toUInt64
  unfold uint64 at h
  have he : i.toUInt64.toNat = j.toUInt64.toNat := by omega
  exact toUInt64_toNat_inj he

theorem VerifiedSig.pubRand_eq (hb : MerkleBinding E) {fin : State} {pk : BIP340PubKey}
    {h : Nat} {a₁ a₂ r₁ r₂ s₁ s₂ : Bytes} (h₁ : VerifiedSig E fin pk h a₁ r₁ s₁)
    (h₂ : VerifiedSig E fin pk h a₂ r₂ s₂) : r₁ = r₂ := by
  obtain ⟨_,c₁,p₁,hc₁,hv₁⟩ := h₁
  obtain ⟨_,c₂,p₂,hc₂,hv₂⟩ := h₂
  have hc : c₁ = c₂ := Except.ok.inj (hc₁.symm.trans hc₂)
  subst hc
  simp only [verifyFinalitySig,ok_iff] at hv₁ hv₂
  obtain ⟨hh₁,ht₁,hm₁,_⟩ := hv₁
  obtain ⟨hh₂,ht₂,hm₂,_⟩ := hv₂
  refine hb p₁ p₂ c₁.commitment r₁ r₂ (toUInt64_add_inj (hh₁.symm.trans hh₂)) ?_ hm₁ hm₂
  exact toUInt64_toNat_inj (ht₁.trans ht₂.symm)

theorem VerifiedSig.verify {fin : State} {pk : BIP340PubKey} {h : Nat} {a r sig : Bytes}
    (hv : VerifiedSig E fin pk h a r sig) : ∃ P, Eots.parsePubKey E.curve pk = some P ∧
      Eots.verify E.curve E.hashes P (Eots.toFieldValNormalized E.curve r)
        (msgToSignForVote h a) (Eots.toModNScalar E.curve sig) = .ok () := by
  obtain ⟨_,c,p,_,hvr⟩ := hv
  simp only [verifyFinalitySig,ok_iff] at hvr
  obtain ⟨_,_,_,P,hP,hvr⟩ := hvr
  exact ⟨P,hP,hvr⟩

/-- Stored evidence with both signatures gives the private key of its provider. -/
theorem evidence_extractable {c : Chain} (hbind : MerkleBinding E) (h : (chain E).Reachable c)
    {pk : BIP340PubKey} {height : Nat} {e : Evidence}
    (he : c.stores.fin.evidences.get₂ pk height = some e)
    (hboth : e.canonicalFinalitySig.isSome = true) (hcoll : ChallengeInjective E e) :
    ∃ sk, e.extractBTCSK E = .ok sk ∧ Eots.serializePubKey E.curve (sk • E.curve.G) = pk := by
  have hi := extractInv h
  obtain ⟨sig,hs⟩ := isSome_iff_exists.mp hboth
  have hw := (slashInv h).evidence pk height e he
  obtain ⟨hn,hf⟩ := hi.fork pk height e he
  obtain ⟨r,hc⟩ := hi.canonical pk height e sig he hs
  have hr : r = e.pubRand := hc.pubRand_eq hbind hf
  rw [hr] at hc
  obtain ⟨P,hP,hv₁⟩ := hc.verify
  obtain ⟨P',hP',hv₂⟩ := hf.verify
  have hPP : P' = P := some.inj (hP'.symm.trans hP)
  rw [hPP] at hv₂
  have hsl : e.isSlashable E = true := by
    refine hw.isSlashable ?_ hboth
    intro b hb
    obtain ⟨b',hb',ha⟩ := hw.canonical
    rw [hb,some.injEq] at hb'
    rw [hb',← ha]
    exact hc.1
  rw [← hw.pk_eq] at hP ⊢
  rw [← hw.height_eq] at hv₁ hv₂
  have hm : msgToSignForVote e.blockHeight e.canonicalAppHash ≠
      msgToSignForVote e.blockHeight e.forkAppHash := by
    intro heq
    exact hn (List.append_cancel_left heq)
  obtain ⟨sk,hsk,_,hsr⟩ := Eots.extract_of_verify hP hv₁ hv₂ (hcoll P hP hm)
  refine ⟨sk,?_,hsr⟩
  simp only [Evidence.extractBTCSK,ok_iff]
  exact ⟨hsl,P,hP,sig,hs,hsk⟩

end

/-- The equivocation of one provider reveals its key. -/
theorem evidence_extractable_equivocation : ∃ c e sk, (chain Regtest.env).Reachable c ∧
    c.stores.fin.evidences.get₂ (Regtest.bytes 1) 2 = some e ∧
    e.extractBTCSK Regtest.env = .ok sk ∧
    Eots.serializePubKey Regtest.env.curve (sk • Regtest.env.curve.G) = Regtest.bytes 1 := by
  have hbn : MerkleBinding env := by
    intro p q root leaf leaf' _ _ hp hq
    exact (of_decide_eq_true hp).symm.trans (of_decide_eq_true hq)
  have hrn : holds (deliverAll env (Regtest.genesis 1) Regtest.equivocation) (fun c =>
      (c.stores.fin.evidences.get₂ (bytes 1) 2).any (fun e => e.canonicalFinalitySig.isSome &&
        decide (e.blockHeight = 2 ∧ e.canonicalAppHash = bytes 0 ∧
          e.forkAppHash = bytes 3 ∧ e.fpBtcPk = bytes 1 ∧
          e.pubRand = bytes 1))) = true := by decide +kernel
  obtain ⟨c,hc,ht⟩ := holds_iff.mp hrn
  rw [any_eq_true] at ht
  obtain ⟨e,he,hb⟩ := ht
  simp only [Bool.and_eq_true,decide_eq_true_eq] at hb
  obtain ⟨hb,hh,hcn,hf,hpk,hr⟩ := hb
  have hcl : ChallengeInjective env e := by
    intro P hP _
    rw [hpk] at hP
    have hG : Eots.parsePubKey env.curve (bytes 1) = some env.curve.G := by decide +kernel
    have hP1 : P = env.curve.G := some.inj (hP.symm.trans hG)
    rw [hh,hcn,hf,hr,hP1]
    decide +kernel
  have hrc : (chain env).Reachable c :=
    reachable_deliverAll (.init Regtest.genesis_init) hc
  obtain ⟨sk,hs,hsr⟩ := evidence_extractable hbn hrc he hb hcl
  exact ⟨c,e,sk,hrc,he,hs,hsr⟩

end AnonChain
