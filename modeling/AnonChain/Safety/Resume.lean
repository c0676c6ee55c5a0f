import AnonChain.Regtest
import AnonChain.Steps

/-! Resuming finality checks the votes of the listed providers at the halting height only. -/

namespace AnonChain

open Lib List KVStore Finality
open BtcStaking (Ctx)
open Finality (Stores PkHex inHexMap State resumeHeight Env)

section

variable {s : State} {k : Nat} {height : Nat}

theorem Finality.State.MajorityAt.zero (h : s.MajorityAt k) (pk : BIP340PubKey) (height : Nat)
    (hvt : s.isVoter k pk = false) : (s.setVotingPower pk height 0).MajorityAt k := by
  obtain ⟨table,ht,hl⟩ := h
  by_cases hk : k = height
  · subst hk
    have hs : table = s.votingPower.sub k := by
      simp only [State.getVotingPowerTable] at ht
      split at ht
      · simp at ht
      · exact (Option.some.inj ht).symm
    have hn : (s.setVotingPower pk k 0).votingPower.sub k = table.set pk 0 := by
      simp only [State.setVotingPower,sub_set₂,if_true,hs]
    refine ⟨table.set pk 0,?_,?_⟩
    · have hne : (table.set pk 0).entries ≠ [] := by
        intro hnl
        have hm := mem_entries.mpr (get_set_self table pk 0)
        rw [hnl] at hm
        simp at hm
      simp only [State.getVotingPowerTable,hn,if_neg hne]
    · have htt := table.total_set_zero_le pk
      have hw : (table.set pk 0).weight (s.isVoter k) = table.weight (s.isVoter k) :=
        table.weight_set_zero hvt
      have hv : (s.setVotingPower pk k 0).isVoter k = s.isVoter k := rfl
      rw [hv]
      omega
  · exact ⟨table,(State.getVotingPowerTable_congr (get_set_ne _ _ hk)).trans ht,hl⟩

theorem resumeHeight_power {ctx : Ctx} {l : List PkHex} {t t' : State}
    (h : resumeHeight ctx l t height = .ok t') : ∃ dc,
      t.getVotingPowerDistCache height = some dc ∧ t'.votes = t.votes ∧
      t'.votingPower = ((dc.finalityProviders.filter (fun fp => inHexMap l fp.btcPk)).foldl
        (fun s fp => s.setVotingPower fp.btcPk height 0) t).votingPower := by
  simp only [resumeHeight,ok_iff] at h
  obtain ⟨dc,hd,h⟩ := h
  obtain ⟨i,y,rfl⟩ := handleFPStateUpdates_eq h
  obtain ⟨vp,hv,_⟩ := setVotingPower_foldl (fun _ => 0) height
    (dc.finalityProviders.filter (fun fp => inHexMap l fp.btcPk)) t
  refine ⟨dc,hd,?_,rfl⟩
  rw [hv]
  rfl

theorem Finality.State.MajorityAt.congr {t : State} (h : s.MajorityAt k)
    (hp : t.votingPower = s.votingPower) (hvt : t.votes = s.votes) : t.MajorityAt k := by
  obtain ⟨table,ht,hl⟩ := h
  refine ⟨table,?_,?_⟩
  · have htb : t.getVotingPowerTable k = s.getVotingPowerTable k :=
      State.getVotingPowerTable_congr (by rw [hp])
    rw [htb]
    exact ht
  · have hv : t.isVoter k = s.isVoter k := by
      funext pk
      simp only [State.isVoter,hvt]
    rw [hv]
    exact hl

theorem resumeHeight_majority {ctx : Ctx} {l : List PkHex} {t t' : State}
    (hl : ∀ pk, inHexMap l pk = true → t.isVoter k pk = false)
    (h : resumeHeight ctx l t height = .ok t') (hm : t.MajorityAt k) :
    t'.votes = t.votes ∧ t'.MajorityAt k := by
  obtain ⟨dc,_,hv,hp⟩ := resumeHeight_power h
  have hf : ((dc.finalityProviders.filter (fun fp => inHexMap l fp.btcPk)).foldl
      (fun s fp => s.setVotingPower fp.btcPk height 0) t).votes = t.votes ∧
      ((dc.finalityProviders.filter (fun fp => inHexMap l fp.btcPk)).foldl
      (fun s fp => s.setVotingPower fp.btcPk height 0) t).MajorityAt k := by
    refine foldl_keeps (P := fun u : State => u.votes = t.votes ∧ u.MajorityAt k) ?_ ⟨rfl,hm⟩
    rintro fp hfp u ⟨hu,hmu⟩
    refine ⟨hu,hmu.zero fp.btcPk height ?_⟩
    have ho := hl fp.btcPk (mem_filter.mp hfp).2
    simpa only [State.isVoter,hu] using ho
  exact ⟨hv,hf.2.congr hp (by rw [hv,hf.1])⟩

/-- What the proposal does to the tables: nothing below the halting height, and no harm to a block
at or above it for which no listed provider voted. -/
theorem resumeFinalityProposal_tables {ctx : Ctx} {s s' : Stores}
    {req : Finality.MsgResumeFinalityProposal}
    (h : Finality.resumeFinalityProposal s ctx req = .ok s') (k : Nat) :
    (k < req.haltingHeight → s'.fin.votingPower.get k = s.fin.votingPower.get k) ∧
    ((∀ pk, inHexMap req.fpPksHex pk = true → s.fin.isVoter k pk = false) → s.fin.MajorityAt k →
      s'.fin.MajorityAt k) := by
  simp only [resumeFinalityProposal,handleResumeFinalityProposal,ok_iff] at h
  obtain ⟨_,_,_,_,_,t,ht,fin,hf,rfl⟩ := h
  obtain ⟨i,m,hlv⟩ : ∃ i m, t.fin = { s.fin with signingInfo := i, missedBlockBitmap := m } :=
    ⟨_,_,(jailListed_foldlM ht).2⟩
  have hpw : t.fin.votingPower = s.fin.votingPower := by rw [hlv]
  have hvt : t.fin.votes = s.fin.votes := by rw [hlv]
  refine ⟨?_,?_⟩
  · intro hlt
    rw [← hpw]
    refine foldlM_keeps (P := fun u : State => u.votingPower.get k = t.fin.votingPower.get k)
      ?_ rfl hf
    intro height hmm u u' hu hs
    have hh := (mem_range'_1.mp hmm).1
    obtain ⟨dc,_,_,hp⟩ := resumeHeight_power hs
    obtain ⟨vp,hvp,hn⟩ := setVotingPower_foldl (fun _ => 0) height
      (dc.finalityProviders.filter (fun fp => inHexMap req.fpPksHex fp.btcPk)) u
    rw [hp,hvp,← hu]
    exact hn k (by omega)
  · intro hl hm
    have hsr : t.fin.votes = s.fin.votes ∧ t.fin.MajorityAt k :=
      ⟨hvt,hm.congr hpw hvt⟩
    refine (foldlM_keeps (P := fun u : State => u.votes = s.fin.votes ∧ u.MajorityAt k)
      ?_ hsr hf).2
    rintro height _ u u' ⟨hu,hmu⟩ hs
    have hl' : ∀ pk, inHexMap req.fpPksHex pk = true → u.isVoter k pk = false := by
      intro pk hpk
      simpa only [State.isVoter,hu] using hl pk hpk
    obtain ⟨hv,hm'⟩ := resumeHeight_majority hl' hs hmu
    exact ⟨hv.trans hu,hm'⟩

end

/-- An accepted proposal lists no provider that voted for a finalized block it reaches, and the
tables of these blocks add up without overflow. -/
def ResumeSpares (E : Env) (c : Chain) (a : Action) (c' : Chain) : Prop :=
  ∀ m, a = .fin (.resumeFinalityProposal m) → deliver E c a = .ok c' →
    ∀ k, m.haltingHeight ≤ k → c.stores.fin.FinalizedAt k →
      (∀ table, c.stores.fin.getVotingPowerTable k = some table → 3*table.total < 2^64) ∧
      ∀ pk, inHexMap m.fpPksHex pk = true → c.stores.fin.isVoter k pk = false

def QuorumInv (c : Chain) : Prop :=
  ∀ k, c.stores.fin.FinalizedAt k → c.stores.fin.QuorumAt k

section

variable {E : Env} {c : Chain}

theorem QuorumInv.of_frame {c' : Chain} (hi : QuorumInv c)
    (hb : c'.stores.fin.blocks = c.stores.fin.blocks)
    (hp : ∀ k, c.stores.fin.FinalizedAt k →
      c'.stores.fin.votingPower.get k = c.stores.fin.votingPower.get k)
    (hv : ∀ k pk, c.stores.fin.isVoter k pk = true → c'.stores.fin.isVoter k pk = true) :
    QuorumInv c' := by
  intro k hf
  have hold : c.stores.fin.FinalizedAt k :=
    (State.FinalizedAt.congr (by rw [hb])).mp hf
  exact (hi k hold).mono (State.getVotingPowerTable_congr (hp k hold)) (hv k)

theorem QuorumInv.resume {stores : Stores} {m : Finality.MsgResumeFinalityProposal}
    (hi : QuorumInv c) (hs : ∀ k, m.haltingHeight ≤ k → c.stores.fin.FinalizedAt k →
      (∀ table, c.stores.fin.getVotingPowerTable k = some table → 3*table.total < 2^64) ∧
      ∀ pk, inHexMap m.fpPksHex pk = true → c.stores.fin.isVoter k pk = false)
    (run : Finality.resumeFinalityProposal c.stores c.ctx m = .ok stores) :
    QuorumInv ⟨c.ctx,c.inBlock,stores⟩ := by
  have he := resumeFinalityProposal_effect run
  have hb : stores.fin.blocks = c.stores.fin.blocks := by rw [he.fin]
  have hvt : stores.fin.votes = c.stores.fin.votes := by rw [he.fin]
  intro k hf
  have hold : c.stores.fin.FinalizedAt k :=
    (State.FinalizedAt.congr (by rw [hb])).mp hf
  obtain ⟨hbl,ha⟩ := resumeFinalityProposal_tables run k
  rcases Nat.lt_or_ge k m.haltingHeight with hlt | hg
  · refine (hi k hold).mono (State.getVotingPowerTable_congr (hbl hlt)) ?_
    intro pk hv
    simpa only [State.isVoter,hvt] using hv
  · obtain ⟨hft,hl⟩ := hs k hg hold
    obtain ⟨table,ht,hq⟩ := hi k hold
    obtain ⟨table',ht',hq'⟩ := ha hl ⟨table,ht,hq (hft table ht)⟩
    exact ⟨table',ht',fun _ => hq'⟩

theorem QuorumInv.step {a : Action} {c' : Chain} (hi : QuorumInv c) (hb : BaseInv c)
    (h : StepEffect E c a c') (ho : deliver E c a = .ok c') (hs : ResumeSpares E c a c') :
    QuorumInv c' := by
  cases h with
  | @beginBlock _ _ ctx _ _ ctx_eq run =>
    obtain ⟨_,_,_,_,_,_,_,_,_,he⟩ := updatePowerDist_effect run
    have hh : ctx.header.height = c.ctx.header.height+1 := by rw [ctx_eq]
    refine hi.of_frame (by rw [he.fin]) ?_ (by rw [he.fin]; exact fun _ _ hv => hv)
    rintro k ⟨b,hg,_⟩
    have := hb.bounded k b hg
    exact he.tables k (by omega)
  | @endBlock stores _ _ run =>
    have he := endBlocker_effect hb.blocks run
    have hp : stores.fin.votingPower = c.stores.fin.votingPower := by rw [he.fin]
    have hvt : stores.fin.votes = c.stores.fin.votes := by rw [he.fin]
    intro k hf
    have hq : c.stores.fin.QuorumAt k := by
      rcases endBlocker_tally run with ⟨_,rfl⟩ | ⟨_,fin,hfn,hbl,_⟩
      · exact hi k hf
      · have hf' : fin.FinalizedAt k := (State.FinalizedAt.congr (by rw [hbl])).mp hf
        obtain ⟨-,-,_,_,-,-,ht⟩ := tallyBlocks_tallied hb.blocks hfn
        exact (ht.newly k hf').elim (hi k) fun hq => hq.2.2
    refine hq.mono (State.getVotingPowerTable_congr (by rw [hp])) ?_
    intro pk hv
    simpa only [State.isVoter,hvt] using hv
  | @between _ _ _ _ _ effect =>
    have hbl := effect.blocks
    cases effect with
    | quiet fin _ =>
      exact hi.of_frame hbl (fun _ _ => by rw [fin]) (by rw [fin]; exact fun _ _ hv => hv)
    | vote _ effect =>
      exact hi.of_frame hbl (fun _ _ => by rw [effect.frame.2.1]) effect.isVoter
    | commit effect =>
      exact hi.of_frame hbl (fun _ _ => by rw [effect.fin])
        (by rw [effect.fin]; exact fun _ _ hv => hv)
    | params _ fin =>
      exact hi.of_frame hbl (fun _ _ => by rw [fin]) (by rw [fin]; exact fun _ _ hv => hv)
    | resume action run => exact hi.resume (hs _ action ho) run

end

/-- In every run whose resume proposals spare the voters of finalized blocks, every finalized block
keeps more than two thirds of its table. -/
theorem finalized_quorum_of_resumeSpares {E : Finality.Env} {c : Chain}
    (h : ((chain E).restrict (ResumeSpares E)).Reachable c) (k : Nat)
    (hf : c.stores.fin.FinalizedAt k) : c.stores.fin.QuorumAt k := by
  revert k
  refine h.invariant (P := QuorumInv) ?_ ?_
  · rintro c hg k ⟨b,hgt,_⟩
    simp [hg.noBlocks] at hgt
  · rintro c a c' hr hi ⟨ho | ⟨_,_,rfl⟩,hs⟩
    · exact hi.step (baseInv hr.of_restrict) (deliver_effect ho) ho hs
    · exact hi

/-- Three providers with 34, 33 and 33; the first two finalize height 2, the first and the third
height 3. -/
def Regtest.twoQuorums : List Action :=
  [beginBlock 1] ++ join 1 34 ++ join 2 33 ++ join 3 33 ++
    [.endBlock,beginBlock 2,.endBlock,beginBlock 3,vote 1 0 2,vote 2 0 2,.endBlock,
      beginBlock 4,vote 1 0 3,vote 3 0 3,.endBlock,beginBlock 5]

def Regtest.resumeMsg (k haltingHeight : Nat) : Finality.MsgResumeFinalityProposal :=
  ⟨some [7],[⟨bytes k,0⟩],haltingHeight⟩

open Regtest in
/-- Halting height 2 is already finalized; jailing the third provider from there on leaves the
voters of the finalized height 3 with 34 of 67. -/
theorem resume_undoes_quorum : ∃ c c' table, (chain env).Reachable c ∧
    deliver env c (.fin (.resumeFinalityProposal (resumeMsg 3 2))) = .ok c' ∧
    c.stores.fin.FinalizedAt 3 ∧ c'.stores.fin.getVotingPowerTable 3 = some table ∧
    table.total = 67 ∧ table.weight (c'.stores.fin.isVoter 3) = 34 := by
  have hr : holds (deliverAll env (genesis 3) twoQuorums) (fun c =>
      (c.stores.fin.blocks.get 3).any (·.finalized) &&
        holds (deliver env c (.fin (.resumeFinalityProposal (resumeMsg 3 2)))) (fun c' =>
          (c'.stores.fin.getVotingPowerTable 3).any (fun table =>
            table.total == 67 && table.weight (c'.stores.fin.isVoter 3) == 34))) = true := by
    decide +kernel
  obtain ⟨c,hc,hts⟩ := holds_iff.mp hr
  simp only [Bool.and_eq_true,holds_iff,Option.any_eq_true,beq_iff_eq] at hts
  obtain ⟨⟨b,hb,hf⟩,c',hc',table,ht,htt,hw⟩ := hts
  exact ⟨c,c',table,reachable_deliverAll (.init genesis_init) hc,hc',⟨b,hb,hf⟩,ht,
    htt,hw⟩

def Regtest.resumeSpares (c : Chain) (a : Action) (_ : Chain) : Bool :=
  match a with
  | .fin (.resumeFinalityProposal m) => c.stores.fin.blocks.entries.all (fun e =>
    !(decide (m.haltingHeight ≤ e.1) && e.2.finalized) ||
      ((c.stores.fin.getVotingPowerTable e.1).all (fun table => decide (3*table.total < 2^64)) &&
        m.fpPksHex.all (fun x => !c.stores.fin.isVoter e.1 x.bytes)))
  | _ => true

theorem Regtest.resumeSpares_spec (c : Chain) (a : Action) (c' : Chain)
    (h : resumeSpares c a c' = true) : ResumeSpares env c a c' := by
  rintro m rfl _ k hl ⟨b,hb,hf⟩
  simp only [resumeSpares,all_eq_true] at h
  have hk := h (k,b) (mem_entries.mpr hb)
  simp only [hl,hf,decide_true,Bool.and_self,Bool.not_true,Bool.false_or,Bool.and_eq_true,
    Option.all_eq_true,decide_eq_true_eq,all_eq_true,Bool.not_eq_true'] at hk
  refine ⟨hk.1,?_⟩
  intro pk hp
  exact hk.2 ⟨pk,0⟩ (contains_iff_mem.mp hp)

/-- The second provider, which did not vote for height 3, is jailed from there on. -/
def Regtest.sparingResume : List Action :=
  twoQuorums ++ [.fin (.resumeFinalityProposal (resumeMsg 2 3))]

open Regtest in
theorem finalized_quorum_of_resumeSpares_jailed :
    ∃ c, ((chain env).restrict (ResumeSpares env)).Reachable c ∧
    c.stores.fin.getVotingPower (bytes 2) 3 = 0 ∧ c.stores.fin.FinalizedAt 3 ∧
    c.stores.fin.QuorumAt 3 := by
  have hrn : holds (sparingResume.foldlM (deliverChecked env resumeSpares) (genesis 3)) (fun c =>
        (c.stores.fin.getVotingPower (bytes 2) 3 == 0) &&
          (c.stores.fin.blocks.get 3).any (·.finalized)) = true := by decide +kernel
  obtain ⟨c,hr,ht⟩ := reachable_deliverChecked resumeSpares_spec (.init genesis_init) hrn
  simp only [Bool.and_eq_true,beq_iff_eq,Option.any_eq_true] at ht
  obtain ⟨hz,b,hb,hf⟩ := ht
  exact ⟨c,hr,hz,⟨b,hb,hf⟩,finalized_quorum_of_resumeSpares hr 3 ⟨b,hb,hf⟩⟩

end AnonChain
