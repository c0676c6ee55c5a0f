import AnonChain.Crypto.Eots
import AnonChain.Lib.Transactions

/-! The EOTS manager: deterministic nonces, signing records, and the two signing calls. -/

namespace AnonChain.EotsManager

open Lib Eots

abbrev Uint64 := Fin (2^64)

instance neZeroUint64 : NeZero (2^64) := ⟨by decide⟩

/-- The curve and the hash functions the manager signs with. -/
structure Env where
  curve : Curve
  hashes : Hashes
  /-- HMAC-SHA256 of a key and a message. -/
  hmac : Bytes → Bytes → Bytes

def uint64ToBigEndian (u : Uint64) : Bytes := writeBE 8 u.val

section

variable (E : Env)

def randomnessInput (chainID : Bytes) (height iteration : Uint64) : Bytes :=
  uint64ToBigEndian height ++ chainID ++ uint64ToBigEndian iteration

def sample (key chainID : Bytes) (height iteration : Uint64) : Option (ZMod E.curve.n) :=
  let randPre := E.hmac key (randomnessInput chainID height iteration)
  if readBE randPre < E.curve.n ∧ toModNScalar E.curve randPre ≠ 0 then
    some (toModNScalar E.curve randPre)
  else none

def sampleFrom (key chainID : Bytes) (height : Uint64) : Nat → Uint64 → Option (ZMod E.curve.n)
  | 0, _ => none
  | rounds+1, iteration =>
    match sample E key chainID height iteration with
    | some k => some k
    | none => sampleFrom key chainID height rounds (iteration+1)

/-- The counter wraps around, so a loop of `2 ^ 64` rounds without a result never ends. -/
def generateRandomness (key chainID : Bytes) (height : Uint64) : Option (ZMod E.curve.n) :=
  sampleFrom E key chainID height (2^64) 0

def serialize (privKey : ZMod E.curve.n) : Bytes := writeBE 32 privKey.val

def derivedPubKey (privKey : ZMod E.curve.n) : Bytes :=
  serializePubKey E.curve (privKey • E.curve.G)

/-- The public randomness is the x coordinate of the nonce's point. -/
def pubRandOf (privRand : ZMod E.curve.n) : Nat := E.curve.xCoord (privRand • E.curve.G)

end

structure SigningRecord where
  msg : Bytes
  signature : Bytes

structure BatchSignRecord where
  height : Uint64
  chainID : Bytes
  msg : Bytes
  eotsPk : Bytes
  sig : Bytes

/-- What survives a crash: the two buckets of the database and the keyring. -/
structure Disk (E : Env) where
  keyNames : KVStore Bytes String
  signRecords : KVStore Bytes SigningRecord
  keyring : String → Result (ZMod E.curve.n)

def getSignRecordKey (chainID pk : Bytes) (height : Uint64) : Bytes :=
  chainID ++ pk ++ uint64ToBigEndian height

abbrev Manager (E : Env) := ExceptT Failure (Call (Disk E))

section

variable {E : Env}

def getSignRecord (eotsPk chainID : Bytes) (height : Uint64) : Manager E (Option SigningRecord) :=
  Call.view fun disk => .ok (disk.signRecords.get (getSignRecordKey chainID eotsPk height))

def collectSignRecord (disk : Disk E) (eotsPk chainID : Bytes)
    (results : KVStore Uint64 SigningRecord) (height : Uint64) : KVStore Uint64 SigningRecord :=
  match disk.signRecords.get (getSignRecordKey chainID eotsPk height) with
  | some record => results.set height record
  | none => results

def getSignRecordsBatch (eotsPk chainID : Bytes) (heights : List Uint64) :
    Manager E (KVStore Uint64 SigningRecord) :=
  Call.view fun disk => .ok (heights.foldl (collectSignRecord disk eotsPk chainID) .empty)

def putSignRecord (disk : Disk E) (record : BatchSignRecord) : Result (Disk E) := do
  let key := getSignRecordKey record.chainID record.eotsPk record.height
  ensure (disk.signRecords.get key = none)
    (.errorf "sign record for given height already exists")
  pure { disk with signRecords := disk.signRecords.set key ⟨record.msg,record.sig⟩ }

def saveSignRecord (height : Uint64) (chainID msg publicKey signature : Bytes) : Manager E Unit :=
  Call.transact fun disk => do
    let disk ← putSignRecord disk ⟨height,chainID,msg,publicKey,signature⟩
    pure ((),disk)

def saveSignRecordsBatch (records : List BatchSignRecord) : Manager E Unit :=
  if records = [] then pure ()
  else Call.transact fun disk => do
    let disk ← records.foldlM putSignRecord disk
    pure ((),disk)

def getEOTSKeyName (pk : Bytes) : Manager E String :=
  Call.view fun disk => orFail (disk.keyNames.get pk) (.errorf "EOTS key name not found")

def eotsPrivKeyFromKeyName (keyName : String) : Manager E (ZMod E.curve.n) :=
  Call.view fun disk => disk.keyring keyName

def eotsPrivKey (eotsPk : Bytes) : Manager E (ZMod E.curve.n) := do
  let keyName ← getEOTSKeyName eotsPk
  let privKey ← eotsPrivKeyFromKeyName keyName
  if derivedPubKey E privKey = eotsPk then pure privKey
  else throw (.errorf "public key mismatch: requested key does not match stored key")

def getRandomnessPair (privKey : ZMod E.curve.n) (chainID : Bytes) (height : Uint64) :
    Manager E (ZMod E.curve.n × Nat) :=
  match generateRandomness E (serialize E privKey) chainID height with
  | some privRand => pure (privRand,pubRandOf E privRand)
  | none => Call.stuck

def randomnessFrom (privKey : ZMod E.curve.n) (chainID : Bytes) :
    Nat → Uint64 → Manager E (List Nat)
  | 0, _ => pure []
  | num+1, height => do
    let (_,pubRand) ← getRandomnessPair privKey chainID height
    let prList ← randomnessFrom privKey chainID num (height+1)
    pure (pubRand :: prList)

def createRandomnessPairList (fpPk chainID : Bytes) (startHeight : Uint64) (num : Nat) :
    Manager E (List Nat) := do
  let privKey ← eotsPrivKey fpPk
  randomnessFrom privKey chainID num startHeight

def signEOTS (eotsPk chainID msg : Bytes) (height : Uint64) : Manager E (ZMod E.curve.n) := do
  match ← getSignRecord eotsPk chainID height with
  | some record =>
    if msg = record.msg then pure (toModNScalar E.curve record.signature)
    else throw (.errorf "double sign")
  | none =>
    let privKey ← eotsPrivKey eotsPk
    let (privRand,_) ← getRandomnessPair privKey chainID height
    let signedBytes ← Call.compute (sign E.curve E.hashes privKey privRand msg)
    saveSignRecord height chainID msg eotsPk (serialize E signedBytes)
    pure signedBytes

structure SignDataRequest where
  msg : Bytes
  height : Uint64

structure SignBatchEOTSRequest where
  uid : Bytes
  chainID : Bytes
  signRequest : List SignDataRequest

structure SignDataResponse (E : Env) where
  signature : ZMod E.curve.n
  height : Uint64

def hasDuplicateHeights (seen : List Uint64) : List Uint64 → Option Uint64
  | [] => none
  | height :: heights =>
    if height ∈ seen then some height else hasDuplicateHeights (height :: seen) heights

theorem hasDuplicateHeights_eq_none {seen heights : List Uint64} :
    hasDuplicateHeights seen heights = none ↔ heights.Nodup ∧ ∀ x ∈ heights, x ∉ seen := by
  induction heights generalizing seen with
  | nil => simp [hasDuplicateHeights]
  | cons a _ ih =>
    simp only [hasDuplicateHeights]
    split
    case isTrue ha =>
      constructor
      · intro h
        cases h
      · intro h
        exact absurd ha (h.2 a List.mem_cons_self)
    case isFalse ha =>
      grind

def signBatchRound (privKey : ZMod E.curve.n) (eotsPk chainID : Bytes)
    (existingRecords : KVStore Uint64 SigningRecord)
    (acc : List (SignDataResponse E) × List BatchSignRecord) (request : SignDataRequest) :
    Manager E (List (SignDataResponse E) × List BatchSignRecord) := do
  match existingRecords.get request.height with
  | some existingRecord =>
    if request.msg = existingRecord.msg then
      pure (acc.1 ++ [⟨toModNScalar E.curve existingRecord.signature,request.height⟩],acc.2)
    else
      -- a double sign is logged and left out of the answer
      pure acc
  | none =>
    let (privRand,_) ← getRandomnessPair privKey chainID request.height
    let signedBytes ← Call.compute (sign E.curve E.hashes privKey privRand request.msg)
    pure (acc.1 ++ [⟨signedBytes,request.height⟩],
      acc.2 ++ [⟨request.height,chainID,request.msg,eotsPk,serialize E signedBytes⟩])

def signBatchEOTS (req : SignBatchEOTSRequest) : Manager E (List (SignDataResponse E)) :=
  let eotsPk := req.uid
  let chainID := req.chainID
  let heights := req.signRequest.map (·.height)
  if hasDuplicateHeights [] heights = none then do
    let privKey ← eotsPrivKey eotsPk
    let existingRecords ← getSignRecordsBatch eotsPk chainID heights
    let (response,recordsToSave) ←
      req.signRequest.foldlM (signBatchRound privKey eotsPk chainID existingRecords) ([],[])
    saveSignRecordsBatch recordsToSave
    pure response
  else throw (.errorf "duplicate height in batch request")

end

inductive Request where
  | signEOTS (eotsPk chainID msg : Bytes) (height : Uint64)
  | signBatchEOTS (req : SignBatchEOTSRequest)

inductive Response (E : Env) where
  | signature (sig : ZMod E.curve.n)
  | batch (sigs : List (SignDataResponse E))

def Request.eotsPk : Request → Bytes
  | .signEOTS eotsPk _ _ _ => eotsPk
  | .signBatchEOTS req => req.uid

def serve (E : Env) : Request → Manager E (Response E)
  | .signEOTS eotsPk chainID msg height => do
    let sig ← EotsManager.signEOTS eotsPk chainID msg height
    pure (.signature sig)
  | .signBatchEOTS req => do
    let sigs ← EotsManager.signBatchEOTS req
    pure (.batch sigs)

/-- Keys may be created, imported and unlocked at any time; only the signing calls touch the
signing records. -/
def keysChanged {E : Env} (disk disk' : Disk E) : Prop := disk'.signRecords = disk.signRecords

/-- The manager under any number of concurrent calls, started with no signing records. -/
def system (E : Env) (ι : Type) [DecidableEq ι] :
    System (Server ι Request (Disk E) (Result (Response E))) (Server.Action ι Request) :=
  Server.system (serve E) (fun r => r.eotsPk.length = BIP340PubKeyLen) keysChanged
    (fun disk => disk.signRecords = .empty)

/-- A signature that left the manager, with the request it answers. -/
structure Signed (E : Env) where
  eotsPk : Bytes
  chainID : Bytes
  height : Uint64
  msg : Bytes
  sig : ZMod E.curve.n

/-- The signatures in an answer; one of a batch counts for every message the request has at
its height. -/
def signaturesOf {E : Env} : Request → Result (Response E) → List (Signed E)
  | .signEOTS eotsPk chainID msg height, .ok (.signature sig) => [⟨eotsPk,chainID,height,msg,sig⟩]
  | .signBatchEOTS req, .ok (.batch sigs) =>
    sigs.flatMap fun r => (req.signRequest.filter (·.height = r.height)).map fun q =>
      ⟨req.uid,req.chainID,r.height,q.msg,r.signature⟩
  | _, _ => []

def signatures {E : Env} {ι : Type} (s : Server ι Request (Disk E) (Result (Response E))) :
    List (Signed E) :=
  s.returned.flatMap fun p => signaturesOf p.1 p.2

end AnonChain.EotsManager
