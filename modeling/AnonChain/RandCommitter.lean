import AnonChain.Finality.Types
import AnonChain.FinalitySubmitter

/-! The finality provider daemon commits its public randomness ahead of the blocks. -/

namespace AnonChain.RandCommitter

open Lib EotsManager FinalitySubmitter
open Finality (MerkleProof)

structure PubRandCommit where
  startHeight : Uint64
  numPubRand : Nat
  commitment : Bytes
  deriving DecidableEq

def PubRandCommit.getEndHeight (c : PubRandCommit) : Uint64 :=
  c.startHeight+Fin.ofNat _ c.numPubRand-1

def pubRandBytes (pubRand : Nat) : Bytes := writeBE SchnorrPubRandLen pubRand

/-- The Merkle trees of the consensus library. Of a list that fits the configuration every proof
names its place and verifies its leaf. -/
structure Merkle where
  proofsFromByteSlices : List Bytes → Bytes × List MerkleProof
  marshal : MerkleProof → Bytes
  unmarshal : Bytes → Option MerkleProof
  verify : MerkleProof → Bytes → Bytes → Bool
  length_proofs : ∀ items, (proofsFromByteSlices items).2.length = items.length
  unmarshal_marshal : ∀ items, items.length < 2^32 → ∀ p ∈ (proofsFromByteSlices items).2,
    unmarshal (marshal p) = some p
  proof_index : ∀ items : List Bytes, items.length < 2^32 → ∀ (i : Nat) (p : MerkleProof),
    (proofsFromByteSlices items).2[i]? = some p → p.index.toUInt64.toNat = i ∧
    p.total.toUInt64.toNat = items.length
  proof_verifies : ∀ items : List Bytes, items.length < 2^32 →
    (∀ b ∈ items, b.length = SchnorrPubRandLen) →
    ∀ (i : Nat) (p : MerkleProof) (leaf : Bytes), (proofsFromByteSlices items).2[i]? = some p →
    items[i]? = some leaf →
      verify p (proofsFromByteSlices items).1 leaf = true

structure Config where
  btcPk : Bytes
  chainID : Bytes
  numPubRand : Nat
  numPubRand_lt : numPubRand < 2^32
  timestampingDelayBlocks : Int

section

variable {E : Env} (M : Merkle) (cfg : Config)

/-- The start height of the commitment that should be made, if any. The arguments are the answers of
the chain to the three queries. -/
def shouldCommit (last : Result (Option PubRandCommit)) (tip activation : Result Uint64) :
    Result (Option Uint64) := do
  let pubRandCommit ← last.wrap (.errorf "failed to get last committed height: %w")
  let lastCommittedHeight : Uint64 := (pubRandCommit.map PubRandCommit.getEndHeight).getD 0
  let tipHeight ← tip.wrap (.errorf "failed to get the last block: %w")
  ensure (0 ≤ cfg.timestampingDelayBlocks)
    (.errorf "TimestampingDelayBlocks cannot be negative: %d")
  let tipHeightWithDelay := tipHeight+Fin.ofNat _ cfg.timestampingDelayBlocks.toNat
  let startHeight :=
    -- the randomness is only usable after the timestamping delay
    if lastCommittedHeight < tipHeightWithDelay then some tipHeightWithDelay
    else if lastCommittedHeight < tipHeightWithDelay+Fin.ofNat _ cfg.numPubRand then some
      (lastCommittedHeight+1)
    else none
  match startHeight with
  | none => pure none
  | some startHeight => do
    let activationBlkHeight ← activation.wrap
        (.errorf "failed to query finality activation block height: %w")
    pure (some (max startHeight activationBlkHeight))

def getPubRandCommitAndProofs (pubRandList : List Nat) : Bytes × List MerkleProof :=
  M.proofsFromByteSlices (pubRandList.map pubRandBytes)

def addPubRandProofList (bucket : KVStore Bytes Bytes) (height : Uint64)
    (proofList : List MerkleProof) : Result (KVStore Bytes Bytes) := do
  let keys := buildKeys cfg.chainID cfg.btcPk 1 cfg.numPubRand height
  ensure (keys.length = proofList.length)
    (.errorf "the number of public randomness is not same as the number of proofs")
  pure ((keys.zip (proofList.map M.marshal)).foldl (fun b e => b.set e.1 e.2) bucket)

def commit (disk : Disk E) (bucket : KVStore Bytes Bytes) (startHeight : Uint64) :
    Rpc (KVStore Bytes Bytes × PubRandCommit) := do
  let pubRandList ← (ask (createRandomnessPairList cfg.btcPk cfg.chainID startHeight
      cfg.numPubRand) disk).mapError
    fun _ => .errorf "failed to generate randomness: %w"
  let (commitment,proofList) := getPubRandCommitAndProofs M pubRandList
  let bucket ← answer ((addPubRandProofList M cfg bucket startHeight proofList).wrap
    (.errorf "failed to save public randomness to DB: %w"))
  pure (bucket,⟨startHeight,pubRandList.length,commitment⟩)

end

/-- What an attempt meets: the answers of the chain, the EOTS manager, and whether the commitment
was signed and handed to the network. -/
structure Attempt (E : Env) where
  last : Result (Option PubRandCommit)
  tip : Result Uint64
  activation : Result Uint64
  disk : Disk E
  sent : Bool

structure State where
  proofs : KVStore Bytes Bytes
  pending : List PubRandCommit
  accepted : List PubRandCommit

inductive Action (E : Env) where
  | attempt (a : Attempt E)
  /-- The chain executes a transaction; whether the client sees the result changes nothing in its
  database. -/
  | accept (i : Nat)
  | reject (i : Nat)

/-- The chain accepts only ranges that start after the last accepted end. -/
def Acceptable (accepted : List PubRandCommit) (c : PubRandCommit) : Prop :=
  0 < c.numPubRand ∧ c.startHeight.val+c.numPubRand < 2^64 ∧
    ∀ last ∈ accepted.getLast?, last.getEndHeight < c.startHeight

instance (accepted : List PubRandCommit) (c : PubRandCommit) :
    Decidable (Acceptable accepted c) := by
  unfold Acceptable
  infer_instance

variable {E : Env} (M : Merkle) (cfg : Config)

def State.next (s : State) : Action E → Option State
  | .attempt a =>
    match shouldCommit cfg a.last a.tip a.activation with
    | .ok (some startHeight) =>
      match commit M cfg a.disk s.proofs startHeight with
      | some (.ok (proofs,c)) =>
        some { s with proofs := proofs, pending := if a.sent then s.pending ++ [c] else s.pending }
      | _ => some s
    | _ => some s
  | .accept i =>
    match s.pending[i]? with
    | some c =>
      if Acceptable s.accepted c then
        some { s with pending := s.pending.eraseIdx i, accepted := s.accepted ++ [c] }
      else none
    | none => none
  | .reject i => some { s with pending := s.pending.eraseIdx i }

/-- The last commitment the chain reports is one it had at some time. The EOTS manager holds one key
for the provider. -/
def Answers (key : ZMod E.curve.n) (s : State) : Action E → Prop
  | .attempt a =>
    (∀ c, a.last = .ok (some c) → c ∈ s.accepted) ∧
      ∀ d t, Call.run (eotsPrivKey cfg.btcPk) a.disk = some (.ok d,t) → d = key
  | _ => True

def system (key : ZMod E.curve.n) : System State (Action E) where
  init s := s = ⟨.empty,[],[]⟩
  step s a s' := Answers cfg key s a ∧ s.next M cfg a = some s'

end AnonChain.RandCommitter
