import AnonChain.App
import AnonChain.Finality.Effects

/-! The steps of the chain sorted by what they do to the two modules, and the base invariants. -/

namespace AnonChain

open Lib Relation BtcStaking
open BtcStaking (Ctx FpSteps State Env)
open Finality (Stores CommitEffect CheckedVote
  VoteEffect)

def ProviderEffect (ctx : Ctx) (s s' : State) : Prop :=
  FpSteps ctx s s' ∨ s'.finalityProviders = s.finalityProviders

section

variable {ctx : Ctx} {s s' : State} {d : BtcStaking.BTCDelegation}

theorem ProviderEffect.keyed (h : ProviderEffect ctx s s') (hk : s.FpKeyed) : s'.FpKeyed := by
  cases h with
  | inl hs => exact hs.keyed hk
  | inr he =>
    intro pk fp hf
    rw [he] at hf
    exact hk pk fp hf

theorem ProviderEffect.slashed (h : ProviderEffect ctx s s') (hk : s.FpKeyed) {pk : BIP340PubKey}
    (hs : s.isSlashedFp pk) : s'.isSlashedFp pk := by
  cases h with
  | inl hst => exact hst.slashed hk hs
  | inr he =>
    obtain ⟨fp,hf,hsl⟩ := hs
    exact ⟨fp,by rw [he]; exact hf,hsl⟩

theorem addBTCDelegation_providers (E : Env) (s : State) (ctx : Ctx)
    (d : BtcStaking.BTCDelegation) :
    (s.addBTCDelegation E ctx d).finalityProviders = s.finalityProviders := by
  simp only [State.addBTCDelegation]
  split <;> rfl

theorem inclusion_providers {E : Env}
    {p : BtcStaking.InclusionProof} (h : s.addBTCDelegationInclusionProof E ctx d p = .ok s') :
    s'.finalityProviders = s.finalityProviders := by
  obtain ⟨_,_,_,_,_,_,_,rfl⟩ := State.addBTCDelegationInclusionProof_spec h
  rfl

theorem undelegate_providers {E : Env} {u : BtcStaking.DelegatorUnbondingInfo}
    (h : s.btcUndelegate E ctx d u = .ok s') : s'.finalityProviders = s.finalityProviders := by
  rcases State.btcUndelegate_spec h with ⟨_,rfl⟩ | ⟨_,_,_,rfl⟩ <;> rfl

theorem handleStk_providers {E : Finality.Env} {msg : StkMsg} (h : handleStk E s ctx msg = .ok s') :
    ProviderEffect ctx s s' := by
  cases msg with
  | createFinalityProvider m => exact .inl (createFinalityProvider_step h).steps
  | editFinalityProvider m => exact .inl (editFinalityProvider_step h).steps
  | selectiveSlashingEvidence m => exact .inl (selectiveSlashingEvidence_step h).steps
  | createBTCDelegation m =>
    obtain ⟨d,_,rfl⟩ := createBTCDelegation_spec h
    exact .inr (addBTCDelegation_providers E.stk s ctx d)
  | btcStakeExpand m =>
    obtain ⟨d,_,rfl⟩ := btcStakeExpand_spec h
    exact .inr (addBTCDelegation_providers E.stk s ctx d)
  | addBTCDelegationInclusionProof m =>
    obtain ⟨d,_,_,h⟩ := addBTCDelegationInclusionProof_spec h
    exact .inr (inclusion_providers h)
  | addCovenantSigs m =>
    obtain ⟨info,tip,_,_,_,_,_,_,rfl⟩ := addCovenantSigs_spec h
    refine .inr ?_
    simp only [State.addCovenantSigsToBTCDelegation]
    split <;> rfl
  | btcUndelegate m =>
    obtain ⟨info,tip,s₁,idx,u,_,_,_,_,hs₁,_,h⟩ := btcUndelegate_spec h
    have h₁ : s₁.finalityProviders = s.finalityProviders := by
      rcases hs₁ with rfl | ⟨exp,_,_,hi⟩
      · rfl
      · exact inclusion_providers hi
    exact .inr ((undelegate_providers h).trans h₁)
  | updateParams m =>
    simp only [handleStk,updateParams,State.setParams,ok_iff] at h
    obtain ⟨_,_,_,_,_,_,_,_,rfl⟩ := h
    exact .inr rfl

end

/-- The chain after an accepted action. -/
inductive Delivered (E : Finality.Env) (c : Chain) : Action → Chain → Prop where
  | beginBlock {time : Nat} {appHash : Bytes} {ctx : Ctx} {stores : Stores}
      (idle : c.inBlock = false) (ctx_eq : ctx = c.nextCtx time appHash)
      (run : c.beginBlocker ctx = .ok stores) :
      Delivered E c (.beginBlock time appHash) ⟨ctx,true,stores⟩
  | endBlock {stores : Stores} (busy : c.inBlock = true)
      (noHalt : c.stores.stk.haltIfBtcReorgLargerThanConfirmationDepth c.ctx = .ok ())
      (run : Finality.endBlocker c.stores c.ctx = .ok stores) :
        Delivered E c .endBlock ⟨c.ctx,false,stores⟩
  | environment {e f d t : Nat} {ctx : Ctx} (header : ctx.header = c.ctx.header)
      (btclc : ctx.btclc = c.ctx.btclc) : Delivered E c (.environment e f d t) { c with ctx := ctx }
  | insertHeaders {msg : BtcLightClient.MsgInsertHeaders} {btclc : BtcLightClient.State}
      {rb : Option BtcLightClient.RollBack}
      {r : Option BtcStaking.LargestBtcReOrg} (busy : c.inBlock = true)
      (run : BtcLightClient.insertHeaders E.stk.btc c.ctx.btclc msg = .ok (btclc,rb)) :
      Delivered E c (.insertHeaders msg)
        ⟨{ c.ctx with btclc := btclc },c.inBlock,
          ⟨{ c.stores.stk with largestBtcReorg := r },c.stores.fin⟩⟩
  | stk {msg : StkMsg} {stk : State} (busy : c.inBlock = true)
      (run : handleStk E c.stores.stk c.ctx msg = .ok stk) :
      Delivered E c (.stk msg) { c with stores := ⟨stk,c.stores.fin⟩ }
  | fin {msg : FinMsg} {stores : Stores} (busy : c.inBlock = true)
      (run : handleFin E c.stores c.ctx msg = .ok stores) :
      Delivered E c (.fin msg) { c with stores := stores }

theorem setLargestBtcReorg_eq (s : State) (rb : BtcLightClient.RollBack) :
    ∃ r, s.setLargestBtcReorg rb = { s with largestBtcReorg := r } := by
  simp only [State.setLargestBtcReorg]
  split
  · exact ⟨_,rfl⟩
  · split <;> exact ⟨_,rfl⟩

theorem deliver_cases {E : Finality.Env} {c c' : Chain} {a : Action} (h : deliver E c a = .ok c') :
    Delivered E c a c' := by
  cases a with
  | beginBlock _ _ =>
    simp only [deliver,beginBlock,Finality.beginBlocker,ok_iff] at h
    obtain ⟨hi,stores,hrn,rfl⟩ := h
    exact .beginBlock hi rfl hrn
  | endBlock =>
    simp only [deliver,endBlock,ok_iff] at h
    obtain ⟨hb,_,hh,stores,hrn,rfl⟩ := h
    exact .endBlock hb hh hrn
  | environment e f d t =>
    cases h
    exact .environment rfl rfl
  | insertHeaders _ =>
    simp only [deliver,insertHeaders,ok_iff] at h
    obtain ⟨hb,⟨btclc,rb⟩,hrn,rfl⟩ := h
    cases rb with
    | none => exact .insertHeaders hb hrn
    | some rb =>
      obtain ⟨r,hr⟩ := setLargestBtcReorg_eq c.stores.stk rb
      simp only [hr]
      exact .insertHeaders hb hrn
  | stk _ =>
    simp only [deliver,ok_iff] at h
    obtain ⟨hb,stk,hs,rfl⟩ := h
    exact .stk hb hs
  | fin _ =>
    simp only [deliver,ok_iff] at h
    obtain ⟨hb,stores,hf,rfl⟩ := h
    exact .fin hb hf

theorem deliver_stk {E : Finality.Env} {c c' : Chain} {msg : StkMsg}
    (h : deliver E c (.stk msg) = .ok c') :
    ∃ stk, handleStk E c.stores.stk c.ctx msg = .ok stk ∧
      { c with stores := ⟨stk,c.stores.fin⟩ } = c' := by
  cases deliver_cases h with
  | stk _ run => exact ⟨_,run,rfl⟩

/-- What an action between the two ends of a block does to the finality module. -/
inductive MsgEffect (E : Finality.Env) (a : Action) (ctx : Ctx) (s s' : Stores) : Prop where
  | quiet (fin : s'.fin = s.fin) (stk : ProviderEffect ctx s.stk s'.stk)
  | vote {v : Finality.FinalityVote} {block : Finality.IndexedBlock} {c : Finality.PubRandCommit}
      (checked : CheckedVote E ctx s v block c) (effect : VoteEffect ctx s v block s')
  | commit {m : Finality.MsgCommitPubRandList} {pk : BIP340PubKey}
      (effect : CommitEffect s s' pk (m.prCommit ctx.currentEpoch))
      (action : a = .fin (.commitPubRandList m)) (provider : m.fpBtcPk = some pk)
  | params {p : Finality.Params} (stk : s'.stk = s.stk) (fin : s'.fin = { s.fin with params := p })
      (valid : p.validate = .ok ())
  | resume {m : Finality.MsgResumeFinalityProposal} (action : a = .fin (.resumeFinalityProposal m))
      (run : Finality.resumeFinalityProposal s ctx m = .ok s')

/-- A step begins a block, ends it, or happens in between. -/
inductive StepEffect (E : Finality.Env) (c : Chain) : Action → Chain → Prop where
  | beginBlock {time : Nat} {appHash : Bytes} {ctx : Ctx} {stores : Stores}
      (idle : c.inBlock = false) (ctx_eq : ctx = c.nextCtx time appHash)
      (run : c.beginBlocker ctx = .ok stores) :
      StepEffect E c (.beginBlock time appHash) ⟨ctx,true,stores⟩
  | endBlock {stores : Stores} (busy : c.inBlock = true)
      (noHalt : c.stores.stk.haltIfBtcReorgLargerThanConfirmationDepth c.ctx = .ok ())
      (run : Finality.endBlocker c.stores c.ctx = .ok stores) :
      StepEffect E c .endBlock ⟨c.ctx,false,stores⟩
  | between {a : Action} {ctx : Ctx} {stores : Stores} (header : ctx.header = c.ctx.header)
      (busy : stores = c.stores ∨ c.inBlock = true)
      (effect : MsgEffect E a c.ctx c.stores stores) : StepEffect E c a ⟨ctx,c.inBlock,stores⟩

section

variable {E : Finality.Env} {c c' : Chain}

theorem handleFin_effect {ctx : Ctx} {s s' : Stores} {msg : FinMsg}
    (h : handleFin E s ctx msg = .ok s') : MsgEffect E (.fin msg) ctx s s' := by
  cases msg with
  | addFinalitySig m =>
    obtain ⟨v,block,c,hc,he⟩ := Finality.addFinalitySig_effect h
    exact .vote hc he
  | commitPubRandList m =>
    obtain ⟨pk,hp,he⟩ := Finality.commitPubRandList_effect h
    exact .commit he rfl hp
  | unjailFinalityProvider m =>
    simp only [handleFin,Finality.unjailFinalityProvider,ok_iff] at h
    obtain ⟨_,_,_,_,_,_,_,stk,hs,rfl⟩ := h
    exact .quiet rfl (.inl (unjailFinalityProvider_step hs).steps)
  | updateParams m =>
    simp only [handleFin,Finality.updateParams,ok_iff] at h
    obtain ⟨fin,⟨_,_,hv,rfl⟩,rfl⟩ := h
    exact .params rfl rfl hv
  | resumeFinalityProposal m => exact .resume rfl h

theorem deliver_effect {a : Action} (h : deliver E c a = .ok c') : StepEffect E c a c' := by
  cases deliver_cases h with
  | beginBlock idle ctx_eq run => exact .beginBlock idle ctx_eq run
  | endBlock busy noHalt run => exact .endBlock busy noHalt run
  | environment header => exact .between header (.inl rfl) (.quiet rfl (.inr rfl))
  | insertHeaders busy => exact .between rfl (.inr busy) (.quiet rfl (.inr rfl))
  | stk busy run => exact .between rfl (.inr busy) (.quiet rfl (handleStk_providers run))
  | fin busy run => exact .between rfl (.inr busy) (handleFin_effect run)

theorem chain_invariant {P : Chain → Prop} (hi : ∀ c, Genesis E c → P c)
    (hs : ∀ c a c', P c → StepEffect E c a c' → P c') {c : Chain} (h : (chain E).Reachable c) :
    P c := by
  refine h.invariant hi ?_
  rintro c a c' _ hp (ho | ⟨_,_,rfl⟩)
  · exact hs c a c' hp (deliver_effect ho)
  · exact hp

end

/-- Providers are keyed, blocks are keyed and not above the current height, and a block being
executed has a positive height. -/
structure BaseInv (c : Chain) : Prop where
  providers : c.stores.stk.FpKeyed
  blocks : c.stores.fin.BlocksKeyed
  bounded : ∀ h b, c.stores.fin.blocks.get h = some b → h ≤ c.ctx.header.height
  positive : c.inBlock = true → 0 < c.ctx.header.height

variable {E : Finality.Env} {c : Chain} {ctx : Ctx} {s s' : Stores} {v : Finality.FinalityVote}
  {block : Finality.IndexedBlock} {a : Action}

theorem indexBTCHeight_providers (s : State) (ctx : Ctx) :
    (s.indexBTCHeight ctx).finalityProviders = s.finalityProviders := by
  unfold State.indexBTCHeight
  split <;> rfl

theorem updatePowerDist_providers (h : Finality.updatePowerDist s ctx = .ok s') :
    s'.stk.finalityProviders = s.stk.finalityProviders := by
  obtain ⟨_,_,_,_,_,_,_,_,_,he⟩ := Finality.updatePowerDist_effect h
  rw [he.stk]

theorem Finality.VoteEffect.providers (h : VoteEffect ctx s v block s') :
    FpSteps ctx s.stk s'.stk := by
  cases h with
  | fork => exact .refl
  | forkSlash _ _ slash => exact (slashFinalityProvider_step slash).1.steps
  | vote _ steps => exact steps
  | voteSlash _ steps _ slash =>
    exact ReflTransGen.tail steps (slashFinalityProvider_step slash).1

theorem Finality.VoteEffect.blocks (h : VoteEffect ctx s v block s') :
    s'.fin.blocks = s.fin.blocks := by
  cases h <;> rfl

theorem Finality.VoteEffect.isVoter (h : VoteEffect ctx s v block s') (k : Nat) (pk : BIP340PubKey)
    (hv : s.fin.isVoter k pk = true) : s'.fin.isVoter k pk = true := by
  cases h with
  | fork => exact hv
  | forkSlash => exact hv
  | vote =>
    simp only [Finality.State.isVoter,Finality.State.setSig,KVStore.get₂_set₂]
    split
    · rfl
    · exact hv
  | voteSlash =>
    simp only [Finality.State.isVoter,Finality.State.setEvidence,Finality.State.setSig,
      KVStore.get₂_set₂]
    split
    · rfl
    · exact hv

theorem Finality.VoteEffect.caches (h : VoteEffect ctx s v block s') :
    s'.fin.votingPowerDistCache = s.fin.votingPowerDistCache := by cases h <;> rfl

theorem Finality.VoteEffect.frame (h : VoteEffect ctx s v block s') :
    s'.fin.params = s.fin.params ∧ s'.fin.votingPower = s.fin.votingPower ∧
      s'.fin.nextHeightToFinalize = s.fin.nextHeightToFinalize ∧
      s'.fin.pubRandCommits = s.fin.pubRandCommits := by cases h <;> exact ⟨rfl,rfl,rfl,rfl⟩

theorem MsgEffect.providers (h : MsgEffect E a ctx s s') :
    ProviderEffect ctx s.stk s'.stk := by
  cases h with
  | quiet _ stk => exact stk
  | vote _ effect => exact .inl effect.providers
  | commit effect => exact .inr (by rw [effect.stk])
  | params stk => exact .inr (by rw [stk])
  | resume _ run => exact .inl (Finality.resumeFinalityProposal_effect run).stk

theorem MsgEffect.blocks (h : MsgEffect E a ctx s s') :
    s'.fin.blocks = s.fin.blocks := by
  cases h with
  | quiet fin => rw [fin]
  | vote _ effect => exact effect.blocks
  | commit effect => rw [effect.fin]
  | params _ fin => rw [fin]
  | resume _ run => rw [(Finality.resumeFinalityProposal_effect run).fin]

theorem baseInv_step {c' : Chain} (hc : BaseInv c) (h : StepEffect E c a c') :
    BaseInv c' := by
  cases h with
  | @beginBlock _ _ ctx stores _ ctx_eq run =>
    obtain ⟨_,_,_,_,_,_,_,_,_,he⟩ := Finality.updatePowerDist_effect run
    have hh : ctx.header.height = c.ctx.header.height+1 := by rw [ctx_eq]
    have hbl : stores.fin.blocks = c.stores.fin.blocks := by rw [he.fin]
    refine ⟨?_,?_,?_,?_⟩
    · intro pk fp hf
      rw [updatePowerDist_providers run,indexBTCHeight_providers] at hf
      exact hc.providers pk fp hf
    · intro h b hb
      rw [hbl] at hb
      exact hc.blocks h b hb
    · intro h b hb
      rw [hbl] at hb
      have := hc.bounded h b hb
      simp only [hh]
      omega
    · simp only [hh]
      omega
  | @endBlock _ _ _ run =>
    have he := Finality.endBlocker_effect hc.blocks run
    refine ⟨he.stk.keyed hc.providers,he.blocks.keyed,?_,by simp⟩
    intro h b hb
    cases he.blocks.news h b hb with
    | inl hold =>
      obtain ⟨b₀,hb₀⟩ := hold
      exact hc.bounded h b₀ hb₀
    | inr heq => exact heq.le
  | @between _ _ _ header _ effect =>
    refine ⟨effect.providers.keyed hc.providers,?_,?_,?_⟩
    · intro h b hb
      rw [effect.blocks] at hb
      exact hc.blocks h b hb
    · intro h b hb
      rw [effect.blocks] at hb
      simp only [header]
      exact hc.bounded h b hb
    · intro hi
      simp only [header]
      exact hc.positive hi

theorem baseInv_genesis (h : Genesis E c) : BaseInv c where
  providers := by simp [BtcStaking.State.FpKeyed,h.noProviders]
  blocks := by simp [Finality.State.BlocksKeyed,h.noBlocks]
  bounded := by simp [h.noBlocks]
  positive := by simp [h.inBlock]

theorem baseInv (h : (chain E).Reachable c) : BaseInv c :=
  chain_invariant (fun _ hg => baseInv_genesis hg) (fun _ _ _ hc hs => baseInv_step hc hs) h

theorem StepEffect.slashed {c' : Chain} (h : StepEffect E c a c') (hb : BaseInv c)
    {pk : BIP340PubKey} (hs : c.stores.stk.isSlashedFp pk) : c'.stores.stk.isSlashedFp pk := by
  cases h with
  | beginBlock _ _ run =>
    obtain ⟨fp,hf,hsl⟩ := hs
    refine ⟨fp,?_,hsl⟩
    rw [updatePowerDist_providers run,indexBTCHeight_providers]
    exact hf
  | endBlock _ _ run => exact (Finality.endBlocker_effect hb.blocks run).stk.slashed hb.providers hs
  | between _ _ effect => exact effect.providers.slashed hb.providers hs

end AnonChain
