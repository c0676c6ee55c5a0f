import AnonChain.EotsManager

/-! The finality provider daemon submits its votes in batches. -/

namespace AnonChain.FinalitySubmitter

open Lib EotsManager

structure BlockDescription where
  height : Uint64
  hash : Bytes

def BlockDescription.msgToSign (b : BlockDescription) : Bytes :=
  uint64ToBigEndian b.height ++ b.hash

inductive FinalityProviderStatus where
  | registered | active | inactive | slashed | jailed
  deriving DecidableEq

structure FinalityProviderState where
  lastVotedHeight : Uint64
  status : FinalityProviderStatus

def getKey (chainID pk : Bytes) (height : Uint64) : Bytes :=
  chainID ++ pk ++ uint64ToBigEndian height

def buildKeys (chainID pk : Bytes) (interval : Uint64) : Nat → Uint64 → List Bytes
  | 0, _ => []
  | num+1, height => getKey chainID pk height :: buildKeys chainID pk interval num (height+interval)

def readProofs (bucket : KVStore Bytes Bytes) : List Bytes → Result (List Bytes)
  | [] => pure []
  | key :: keys => do
    let proofBytes ← orFail (bucket.get key) (.errorf "failed to get pub rand proof list: %w")
    let proofBytesList ← readProofs bucket keys
    pure (proofBytes :: proofBytesList)

def getPubRandProofList (bucket : KVStore Bytes Bytes) (chainID pk : Bytes) (height : Uint64)
    (numPubRand : Nat) : Result (List Bytes) := do
  let proofList ← readProofs bucket (buildKeys chainID pk 1 numPubRand height)
  ensure (proofList ≠ []) (.errorf "no public randomness proof found for height %d and num %d")
  pure proofList

structure SubmitBatchFinalitySigsRequest (E : Env) where
  blocks : List BlockDescription
  pubRandList : List Nat
  proofList : List Bytes
  sigs : List (ZMod E.curve.n)

inductive SubmitError where
  | jailed
  | slashed
  | other (e : Failure)

/-- What one attempt meets: the disk of the EOTS manager at its two requests, the proofs in the
database, and the answers of the consumer chain. -/
structure Attempt (E : Env) where
  randDisk : Disk E
  proofs : KVStore Bytes Bytes
  signDisk : Disk E
  submit : SubmitBatchFinalitySigsRequest E → Except SubmitError String
  finalized : Result Bool
  shutDown : Bool

structure Submitter (E : Env) where
  btcPk : Bytes
  chainID : Bytes
  maxSubmissionRetries : Nat
  hasPower : Uint64 → Result Bool
  isFailedPrecondition : Failure → Bool
  isUnrecoverable : Failure → Bool
  isExpected : Failure → Bool
  attempts : Nat → Attempt E

variable {E : Env}

/-- The blocks to vote for; the flag is the answer for the last block that was asked about. -/
def filterLoop (hasPower : Uint64 → Result Bool) (lastVotedHeight : Uint64) :
    List BlockDescription → Bool → Result (List BlockDescription × Bool)
  | [], flag => pure ([],flag)
  | blk :: blocks, flag =>
    if blk.height ≤ lastVotedHeight then filterLoop hasPower lastVotedHeight blocks flag
    else do
      let power ← (hasPower blk.height).wrap
          (.errorf "failed to get voting power for height %d: %w")
      let (processedBlocks,flag) ← filterLoop hasPower lastVotedHeight blocks power
      pure (if power then blk :: processedBlocks else processedBlocks,flag)

def statusAfter (hasPower : Bool) (status : FinalityProviderStatus) : FinalityProviderStatus :=
  if hasPower then .active else if status = .active then .inactive else status

def filterBlocksForVoting (ds : Submitter E) (st : FinalityProviderState)
    (blocks : List BlockDescription) : Result (List BlockDescription × FinalityProviderState) := do
  let (processedBlocks,hasPower) ← filterLoop ds.hasPower st.lastVotedHeight blocks false
  pure (processedBlocks,{ st with status := statusAfter hasPower st.status })

/-- A call to the EOTS manager, absent while it has not answered. -/
abbrev Rpc := ExceptT Failure Option

def ask {α : Type} (call : Manager E α) (disk : Disk E) : Rpc α := (Call.run call disk).map Prod.fst

def Rpc.mapError {α : Type} (x : Rpc α) (f : Failure → Failure) : Rpc α :=
  Option.map (fun
    | .ok a => .ok a
    | .error e => .error (f e)) x

def answer {α : Type} (x : Result α) : Rpc α := some x

def getPubRandList (ds : Submitter E) (a : Attempt E) (startHeight : Uint64) (numPubRand : Nat) :
    Rpc (List Nat) :=
  (ask (createRandomnessPairList ds.btcPk ds.chainID startHeight numPubRand) a.randDisk).mapError
    fun _ => .errorf "failed to create public randomness list: %w"

/-- The signatures by height; a height that was skipped as a double sign is absent. -/
def signFinalitySigBatch (ds : Submitter E) (a : Attempt E) (blocks : List BlockDescription) :
    Rpc (KVStore Uint64 (ZMod E.curve.n)) := do
  let signDataReq := blocks.map fun b => ⟨b.msgToSign,b.height⟩
  let resp ← (ask (signBatchEOTS ⟨ds.btcPk,ds.chainID,signDataReq⟩) a.signDisk).mapError
    fun e => if ds.isFailedPrecondition e then .errorf "FailedPrecondition error"
      else .errorf "failed to sign EOTS: %w"
  pure (resp.foldl (fun sigMap sig => sigMap.set sig.height sig.signature) .empty)

def selectVotes (sigMap : KVStore Uint64 (ZMod E.curve.n)) :
    List BlockDescription → List Nat → List Bytes → Result (SubmitBatchFinalitySigsRequest E)
  | [], _, _ => pure ⟨[],[],[],[]⟩
  | block :: blocks, prList, proofList => do
    let req ← selectVotes sigMap blocks prList.tail proofList.tail
    match sigMap.get block.height with
    | some sig => do
      let pubRand ← orFail prList.head? .outOfRange
      let proof ← orFail proofList.head? .outOfRange
      pure ⟨block :: req.blocks,pubRand :: req.pubRandList,proof :: req.proofList,
        sig :: req.sigs⟩
    | none => pure req

def buildRequest (ds : Submitter E) (a : Attempt E) (blocks : List BlockDescription) :
    Rpc (SubmitBatchFinalitySigsRequest E) := do
  let startHeight ← answer (orFail (blocks.head?.map (·.height))
    (.errorf "should not submit batch finality signature with zero block"))
  if blocks.length < 2^32 then do
    let prList ← getPubRandList ds a startHeight blocks.length
    let proofBytesList ←
      answer (getPubRandProofList a.proofs ds.chainID ds.btcPk startHeight blocks.length)
    let batchSigMap ← signFinalitySigBatch ds a blocks
    answer (selectVotes batchSigMap blocks prList proofBytesList)
  else throw (.errorf "should not submit batch finality signature with too many blocks")

/-- How a submission ends: it never does, with an error, or with the hash of the transaction, if
one was sent. -/
inductive Outcome where
  | hangs
  | fails (e : Failure)
  | ends (txHash : Option String)

/-- What a submission leaves behind, with every request it has handed to the consumer chain. -/
structure Trace (E : Env) where
  outcome : Outcome
  state : FinalityProviderState
  handed : List (Attempt E × SubmitBatchFinalitySigsRequest E)

def submitBatchFinalitySignaturesOnce (ds : Submitter E) (a : Attempt E)
    (st : FinalityProviderState) (blocks : List BlockDescription) : Trace E :=
  match buildRequest ds a blocks with
  | none => ⟨.hangs,st,[]⟩
  | some (.error e) => ⟨.fails e,st,[]⟩
  | some (.ok req) =>
    -- all blocks were skipped
    if req.blocks.isEmpty then ⟨.ends none,st,[]⟩
    else
      match a.submit req with
      | .error .jailed => ⟨.fails (.errorf "the finality provider instance is jailed"),st,[(a,req)]⟩
      | .error .slashed =>
        ⟨.fails (.errorf "the finality provider instance is slashed"),st,[(a,req)]⟩
      | .error (.other _) =>
        ⟨.fails (.errorf "failed to submit finality signature to the consumer chain: %w"),st,
          [(a,req)]⟩
      | .ok txHash =>
        if txHash = "" then ⟨.ends (some txHash),st,[(a,req)]⟩
        else
          match blocks.getLast? with
          | some highBlock =>
            ⟨.ends (some txHash),{ st with lastVotedHeight := highBlock.height },[(a,req)]⟩
          | none => ⟨.ends (some txHash),st,[(a,req)]⟩

/-- What the loop makes of an attempt with `left` failures to spare; nothing when it tries
again. -/
def verdict (ds : Submitter E) (left : Nat) (a : Attempt E) : Outcome → Option Outcome
  | .hangs => some .hangs
  | .ends txHash => some (.ends txHash)
  | .fails e =>
    if ds.isUnrecoverable e then some (.fails e)
    else if ds.isExpected e then some (.ends none)
    else if left = 0 then some (.fails (.errorf "reached max failed cycles with err: %w"))
    else
      match a.finalized with
      | .error _ => some (.fails (.errorf "failed to query block finalization at height %v: %w"))
      | .ok true => some (.ends none)
      | .ok false =>
        if a.shutDown then some (.fails (.errorf "the finality provider instance is shutting down"))
        else none

def retryLoop (ds : Submitter E) (blocks : List BlockDescription) :
    Nat → Nat → FinalityProviderState → Trace E
  | 0, cycle, st =>
    let once := submitBatchFinalitySignaturesOnce ds (ds.attempts cycle) st blocks
    { once with outcome := (verdict ds 0 (ds.attempts cycle) once.outcome).getD once.outcome }
  | left+1, cycle, st =>
    let once := submitBatchFinalitySignaturesOnce ds (ds.attempts cycle) st blocks
    match verdict ds (left+1) (ds.attempts cycle) once.outcome with
    | some outcome => { once with outcome := outcome }
    | none =>
      let rest := retryLoop ds blocks left (cycle+1) once.state
      { rest with handed := once.handed ++ rest.handed }

def submitBatchFinalitySignatures (ds : Submitter E) (st : FinalityProviderState)
    (blocks : List BlockDescription) : Trace E :=
  if blocks.isEmpty then ⟨.fails (.errorf "cannot send signatures for empty blocks"),st,[]⟩
  else
    match filterBlocksForVoting ds st blocks with
    | .error _ => ⟨.fails (.errorf "failed to filter blocks for voting: %w"),st,[]⟩
    | .ok (blocks,st) =>
      if blocks.isEmpty then ⟨.ends none,st,[]⟩
      else retryLoop ds blocks ds.maxSubmissionRetries 0 st

end AnonChain.FinalitySubmitter
