import AnonChain.Finality.MsgServer
import AnonChain.Lib.Run

/-! The chain as a transition system: blocks, and in between messages in any order. -/

namespace AnonChain

open Lib
open BtcLightClient (MsgInsertHeaders)
open BtcStaking (Ctx State)
open Finality (Stores Env)

structure Chain where
  ctx : Ctx
  inBlock : Bool
  stores : Stores

inductive StkMsg where
  | createFinalityProvider (msg : BtcStaking.MsgCreateFinalityProvider)
  | editFinalityProvider (msg : BtcStaking.MsgEditFinalityProvider)
  | createBTCDelegation (msg : BtcStaking.MsgCreateBTCDelegation)
  | btcStakeExpand (msg : BtcStaking.MsgBtcStakeExpand)
  | addBTCDelegationInclusionProof (msg : BtcStaking.MsgAddBTCDelegationInclusionProof)
  | addCovenantSigs (msg : BtcStaking.MsgAddCovenantSigs)
  | btcUndelegate (msg : BtcStaking.MsgBTCUndelegate)
  | selectiveSlashingEvidence (msg : BtcStaking.MsgSelectiveSlashingEvidence)
  | updateParams (msg : BtcStaking.MsgUpdateParams)

inductive FinMsg where
  | addFinalitySig (msg : Finality.MsgAddFinalitySig)
  | commitPubRandList (msg : Finality.MsgCommitPubRandList)
  | unjailFinalityProvider (msg : Finality.MsgUnjailFinalityProvider)
  | updateParams (msg : Finality.MsgUpdateParams)
  | resumeFinalityProposal (msg : Finality.MsgResumeFinalityProposal)

/-- `environment` is a change in the modules the handlers only read: epochs, checkpointing and
its parameters. -/
inductive Action where
  | beginBlock (time : Nat) (appHash : Bytes)
  | endBlock
  | environment (currentEpoch lastFinalizedEpoch btcConfirmationDepth
      checkpointFinalizationTimeout : Nat)
  | insertHeaders (msg : MsgInsertHeaders)
  | stk (msg : StkMsg)
  | fin (msg : FinMsg)

section

variable (E : Env)

def handleStk (s : State) (ctx : Ctx) : StkMsg → Result State
  | .createFinalityProvider m => BtcStaking.createFinalityProvider E.stk s ctx m
  | .editFinalityProvider m => BtcStaking.editFinalityProvider s ctx m
  | .createBTCDelegation m => BtcStaking.createBTCDelegation E.stk s ctx m
  | .btcStakeExpand m => BtcStaking.btcStakeExpand E.stk s ctx m
  | .addBTCDelegationInclusionProof m => BtcStaking.addBTCDelegationInclusionProof E.stk s ctx m
  | .addCovenantSigs m => BtcStaking.addCovenantSigs E.stk s ctx m
  | .btcUndelegate m => BtcStaking.btcUndelegate E.stk s ctx m
  | .selectiveSlashingEvidence m => BtcStaking.selectiveSlashingEvidence E.stk s ctx m
  | .updateParams m => BtcStaking.updateParams E.stk s ctx m

def handleFin (s : Stores) (ctx : Ctx) : FinMsg → Result Stores
  | .addFinalitySig m => Finality.addFinalitySig E s ctx m
  | .commitPubRandList m => Finality.commitPubRandList E s ctx m
  | .unjailFinalityProvider m => Finality.unjailFinalityProvider s ctx m
  | .updateParams m => do
    let fin ← Finality.updateParams s.fin ctx m
    pure ⟨s.stk,fin⟩
  | .resumeFinalityProposal m => Finality.resumeFinalityProposal s ctx m

abbrev Chain.nextCtx (c : Chain) (time : Nat) (appHash : Bytes) : Ctx :=
  { c.ctx with header := ⟨c.ctx.header.height+1,time,appHash⟩ }

/-- The staking module begins before the finality module: the Bitcoin tip is indexed first. -/
abbrev Chain.beginBlocker (c : Chain) (ctx : Ctx) : Result Stores :=
  Finality.beginBlocker ⟨c.stores.stk.indexBTCHeight ctx,c.stores.fin⟩ ctx

def beginBlock (c : Chain) (time : Nat) (appHash : Bytes) : Result Chain := do
  ensure (c.inBlock = false) (.errorf "a block is being executed")
  let ctx := c.nextCtx time appHash
  let stores ← c.beginBlocker ctx
  pure ⟨ctx,true,stores⟩

def endBlock (c : Chain) : Result Chain := do
  ensure (c.inBlock = true) (.errorf "no block is being executed")
  c.stores.stk.haltIfBtcReorgLargerThanConfirmationDepth c.ctx
  let stores ← Finality.endBlocker c.stores c.ctx
  pure ⟨c.ctx,false,stores⟩

/-- The rollback hook of the staking module runs with the insertion. -/
def insertHeaders (c : Chain) (msg : MsgInsertHeaders) : Result Chain := do
  let (btclc,rollback) ← BtcLightClient.insertHeaders E.stk.btc c.ctx.btclc msg
  let stk := match rollback with
    | none => c.stores.stk
    | some rb => c.stores.stk.setLargestBtcReorg rb
  pure { c with ctx := { c.ctx with btclc := btclc }, stores := ⟨stk,c.stores.fin⟩ }

def deliver (c : Chain) : Action → Result Chain
  | .beginBlock time appHash => beginBlock c time appHash
  | .endBlock => endBlock c
  | .environment currentEpoch lastFinalizedEpoch depth timeout =>
    .ok { c with ctx := { c.ctx with
      currentEpoch := currentEpoch, lastFinalizedEpoch := lastFinalizedEpoch,
      btcConfirmationDepth := depth, checkpointFinalizationTimeout := timeout } }
  | .insertHeaders msg => do
    ensure (c.inBlock = true) (.errorf "no block is being executed")
    insertHeaders E c msg
  | .stk msg => do
    ensure (c.inBlock = true) (.errorf "no block is being executed")
    let stk ← handleStk E c.stores.stk c.ctx msg
    pure { c with stores := ⟨stk,c.stores.fin⟩ }
  | .fin msg => do
    ensure (c.inBlock = true) (.errorf "no block is being executed")
    let stores ← handleFin E c.stores c.ctx msg
    pure { c with stores := stores }

/-- Messages; a rejected one leaves no trace, while a block that fails halts the chain. -/
def Action.isMsg : Action → Bool
  | .insertHeaders _ => true
  | .stk _ => true
  | .fin _ => true
  | _ => false

/-- The chain before its first block: a light client with its base header, valid parameters,
and no record of the staking and finality modules yet. -/
structure Genesis (c : Chain) : Prop where
  inBlock : c.inBlock = false
  height : c.ctx.header.height = 0
  btclc : c.ctx.btclc.WF
  stkParams : ∀ v p, c.stores.stk.params.get v = some p →
    BtcStaking.Params.validate E.stk p = .ok ()
  noProviders : c.stores.stk.finalityProviders = .empty
  noDelegations : c.stores.stk.btcDelegations = .empty
  noEvents : c.stores.stk.powerDistUpdateEvents = .empty
  noHeights : c.stores.stk.btcHeights = .empty
  noLog : c.stores.stk.eventLog = []
  finParams : c.stores.fin.params.validate = .ok ()
  noBlocks : c.stores.fin.blocks = .empty
  noNext : c.stores.fin.nextHeightToFinalize = 0
  noReward : c.stores.fin.nextHeightToReward = 0
  noVotes : c.stores.fin.votes = .empty
  noEvidence : c.stores.fin.evidences = .empty
  noPower : c.stores.fin.votingPower = .empty
  noCache : c.stores.fin.votingPowerDistCache = .empty
  noCommits : c.stores.fin.pubRandCommits = .empty
  noIndex : c.stores.fin.pubRandCommitIndex = .empty

def chain : System Chain Action where
  init := Genesis E
  step c a c' := deliver E c a = .ok c' ∨
    (a.isMsg = true ∧ (∃ e, deliver E c a = .error e) ∧ c' = c)

def deliverAll (c : Chain) (as : List Action) : Result Chain := as.foldlM (deliver E) c

def deliverChecked (test : Chain → Action → Chain → Bool) (c : Chain) (a : Action) :
    Result Chain := do
  let c' ← deliver E c a
  ensure (test c a c' = true) (.errorf "the step does not meet the test")
  pure c'

end

theorem reachable_deliverAll {E : Env} {c c' : Chain} {as : List Action}
    (hc : (chain E).Reachable c) (h : deliverAll E c as = .ok c') : (chain E).Reachable c' :=
  foldlM_keeps (P := (chain E).Reachable) (fun _ _ _ _ ht hd => ht.step (.inl hd)) hc h

theorem reachable_deliverChecked {E : Env} {G : Chain → Action → Chain → Prop}
    {check : Chain → Action → Chain → Bool} (hG : ∀ c a c', check c a c' = true → G c a c')
    {c : Chain} {as : List Action} {test : Chain → Bool} (hc : ((chain E).restrict G).Reachable c)
    (h : holds (as.foldlM (deliverChecked E check) c) test = true) :
    ∃ c', ((chain E).restrict G).Reachable c' ∧ test c' = true := by
  obtain ⟨c',hc',hts⟩ := holds_iff.mp h
  refine ⟨c',foldlM_keeps (P := ((chain E).restrict G).Reachable) ?_ hc hc',hts⟩
  intro a _ t t' ht hs
  simp only [deliverChecked,ok_iff] at hs
  obtain ⟨u,hu,hch,rfl⟩ := hs
  exact ht.step ⟨.inl hu,hG t a u hch⟩

end AnonChain
