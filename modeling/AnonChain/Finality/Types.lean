import AnonChain.BtcStaking.MsgServer
import AnonChain.Crypto.Eots
import AnonChain.Lib.Pagination

/-! Data of the finality module. -/

namespace AnonChain.Finality

open Lib
open BtcStaking (decOne)

structure Params where
  maxActiveFinalityProviders : Nat
  signedBlocksWindow : Int
  finalitySigTimeout : Int
  minSignedPerWindow : Int
  minPubRand : Nat
  jailDuration : Nat
  finalityActivationHeight : Nat

def Params.validate (p : Params) : Result Unit := do
  ensure (p.maxActiveFinalityProviders ≠ 0) (.errorf "max finality providers must be positive")
  ensure (0 < p.signedBlocksWindow) (.errorf "signed blocks window must be positive: %d")
  ensure (0 < p.finalitySigTimeout) (.errorf "finality vote delay must be positive: %d")
  ensure (0 ≤ p.minSignedPerWindow) (.errorf "min signed per window cannot be negative: %s")
  ensure (p.minSignedPerWindow ≤ decOne) (.errorf "min signed per window too large: %s")
  ensure (p.minPubRand ≠ 0) (.errorf "min Pub Rand cannot be 0")

/-- `LegacyDec.RoundInt`: to the nearest integer, a half to the even one. -/
def roundHalfEven (d : Int) : Int :=
  let q := d/decOne
  let r := d%decOne
  if 2*r < decOne then q
  else if decOne < 2*r then q+1
  else if q%2 = 0 then q else q+1

def Params.minSignedPerWindowInt (p : Params) : Int :=
  roundHalfEven (p.minSignedPerWindow*p.signedBlocksWindow)

structure IndexedBlock where
  height : Nat
  appHash : Bytes
  finalized : Bool

structure Evidence where
  fpBtcPk : BIP340PubKey
  blockHeight : Nat
  pubRand : Bytes
  canonicalAppHash : Bytes
  forkAppHash : Bytes
  canonicalFinalitySig : Option Bytes
  forkFinalitySig : Bytes

structure PubRandCommit where
  startHeight : Nat
  numPubRand : Nat
  commitment : Bytes
  epochNum : Nat

/-- The last height of the commitment; both fields are `uint64`. -/
def PubRandCommit.endHeight (c : PubRandCommit) : Nat := c.startHeight+c.numPubRand-1

def PubRandCommit.isInRange (c : PubRandCommit) (height : Nat) : Bool :=
  c.startHeight ≤ height ∧ height ≤ c.endHeight

structure FinalityProviderSigningInfo where
  startHeight : Int
  missedBlocksCounter : Int
  jailedUntil : Nat

structure FinalityProviderDistInfo where
  btcPk : BIP340PubKey
  addr : AccAddress
  commission : Int
  totalBondedSat : Nat
  isTimestamped : Bool
  isJailed : Bool
  isSlashed : Bool

structure VotingPowerDistCache where
  totalVotingPower : Nat
  finalityProviders : List FinalityProviderDistInfo
  numActiveFps : Nat

/-- A call of a hook: the provider it is about, by its key, and the address it passes. -/
inductive FpHook where
  | afterAncFpEntersActiveSet (fp : BIP340PubKey) (fpAddr : AccAddress)
  | afterAncFpRemovedFromActiveSet (fp : BIP340PubKey) (fpAddr : AccAddress)

structure State where
  params : Params
  blocks : KVStore Nat IndexedBlock
  nextHeightToFinalize : Nat
  nextHeightToReward : Nat
  votes : KVStore Nat (KVStore BIP340PubKey Bytes)
  evidences : KVStore BIP340PubKey (KVStore Nat Evidence)
  votingPower : KVStore Nat (KVStore BIP340PubKey Nat)
  votingPowerDistCache : KVStore Nat VotingPowerDistCache
  pubRandCommits : KVStore BIP340PubKey (KVStore Nat PubRandCommit)
  pubRandCommitIndex : KVStore BIP340PubKey (List Nat)
  pubRand : KVStore BIP340PubKey (KVStore Nat Bytes)
  signingInfo : KVStore BIP340PubKey FinalityProviderSigningInfo
  missedBlockBitmap : KVStore BIP340PubKey (List Nat)
  /-- The calls of the hooks so far; not in the module's store. -/
  hookCalls : List FpHook

/-- A Merkle proof; `index` and `total` are the `int64` fields of the message. -/
structure MerkleProof where
  total : Int64
  index : Int64
  leafHash : Bytes
  aunts : List Bytes

/-- What the module takes from the libraries and from the checkpointing module. -/
structure Env where
  stk : BtcStaking.Env
  curve : Eots.Curve
  hashes : Eots.Hashes
  /-- `ProofFromProto` followed by `Proof.Verify` against a root and a leaf. -/
  merkleVerify : MerkleProof → Bytes → Bytes → Bool
  /-- `FilteredPaginate` of the SDK over the evidences, which are keyed by provider and height. -/
  filteredPaginate : Paginator (BIP340PubKey ×ₗ Nat) Evidence
  commitSigValid : BIP340PubKey → UInt64 → UInt64 → Bytes → Option Bytes → Bool
  epochByHeight : Nat → Nat

def msgToSignForVote (blockHeight : Nat) (blockHash : Bytes) : Bytes :=
  writeBE 8 blockHeight ++ blockHash

namespace Evidence

variable (E : Env)

def validateBasic (e : Evidence) : Result Unit := do
  ensure (e.fpBtcPk ≠ []) (.errorf "empty FpBtcPk")
  ensure ((Eots.parsePubKey E.curve e.fpBtcPk).isSome = true) (.errorf "malformed pubkey")
  ensure (e.pubRand ≠ []) (.errorf "empty PubRand")
  ensure (e.canonicalAppHash.length = 32) (.errorf "malformed CanonicalAppHash")
  ensure (e.forkAppHash.length = 32) (.errorf "malformed ForkAppHash")
  ensure (e.forkFinalitySig ≠ []) (.errorf "empty ForkFinalitySig")
  ensure (e.forkFinalitySig.length = SchnorrEOTSSigLen) (.errorf "malformed ForkFinalitySig")

def isSlashable (e : Evidence) : Bool :=
  match e.validateBasic E with
  | .error _ => false
  | .ok _ => e.canonicalFinalitySig.isSome

def extractBTCSK (e : Evidence) : Result (ZMod E.curve.n) := do
  ensure (e.isSlashable E = true)
    (.errorf "the evidence lacks some fields so does not allow extracting BTC SK")
  let btcPK ← orFail (Eots.parsePubKey E.curve e.fpBtcPk) (.errorf "malformed pubkey")
  let canonicalFinalitySig ← orFail e.canonicalFinalitySig .nilPointer
  Eots.extract E.curve E.hashes btcPK (Eots.toFieldValNormalized E.curve e.pubRand)
    (msgToSignForVote e.blockHeight e.canonicalAppHash)
    (Eots.toModNScalar E.curve canonicalFinalitySig)
    (msgToSignForVote e.blockHeight e.forkAppHash)
    (Eots.toModNScalar E.curve e.forkFinalitySig)

end Evidence

namespace FinalityProviderDistInfo

def shouldBeZeroed (fp : FinalityProviderDistInfo) : Bool :=
  fp.isJailed || !fp.isTimestamped || fp.isSlashed

/-- The order of `SortFinalityProvidersWithZeroedVotingPower`: `i` comes before `j`. -/
def sortsBefore (i j : FinalityProviderDistInfo) : Bool :=
  if i.shouldBeZeroed && !j.shouldBeZeroed then false
  else if !i.shouldBeZeroed && j.shouldBeZeroed then true
  else if i.shouldBeZeroed && j.shouldBeZeroed then decide (i.btcPk < j.btcPk)
  else if i.totalBondedSat = j.totalBondedSat then decide (i.btcPk < j.btcPk)
  else decide (j.totalBondedSat < i.totalBondedSat)

def new (fp : BtcStaking.FinalityProvider) : FinalityProviderDistInfo :=
  { btcPk := fp.btcPk, addr := fp.addr, commission := fp.commission, totalBondedSat := 0,
    isJailed := fp.jailed, isSlashed := fp.isSlashed, isTimestamped := false }

def removeBondedSats (fp : FinalityProviderDistInfo) (sats : Nat) :
    Result FinalityProviderDistInfo := do
  ensure (sats ≤ fp.totalBondedSat)
    (.err .ErrInvalidSats "removed amount: %d is bigger than the current total bonded: %d")
  pure { fp with totalBondedSat := fp.totalBondedSat-sats }

def changeDeltaSats (fp : FinalityProviderDistInfo) (fpDeltaSats : Int) :
    Result FinalityProviderDistInfo :=
  if 0 < fpDeltaSats then .ok { fp with totalBondedSat := fp.totalBondedSat+fpDeltaSats.toNat }
  else if fpDeltaSats < 0 then fp.removeBondedSats fpDeltaSats.natAbs
  else .ok fp

end FinalityProviderDistInfo

namespace VotingPowerDistCache

def new : VotingPowerDistCache := ⟨0,[],0⟩

def addFinalityProviderDistInfo (dc : VotingPowerDistCache) (fp : FinalityProviderDistInfo) :
    VotingPowerDistCache :=
  { dc with finalityProviders := dc.finalityProviders ++ [fp] }

/-- A stable sort, as the source's. -/
def sortFinalityProvidersWithZeroedVotingPower (fps : List FinalityProviderDistInfo) :
    List FinalityProviderDistInfo :=
  fps.insertionSort (fun i j => j.sortsBefore i = false)

def countActive (maxActiveFPs : Nat) : List FinalityProviderDistInfo → Nat × Nat
  | [] => (0,0)
  | fp :: fps =>
    match maxActiveFPs with
    | 0 => (0,0)
    | m+1 =>
      if fp.totalBondedSat = 0 ∨ fp.isTimestamped = false ∨ fp.isJailed = true ∨
          fp.isSlashed = true then (0,0)
      else
        let (n,power) := countActive m fps
        (n+1,fp.totalBondedSat+power)

def applyActiveFinalityProviders (dc : VotingPowerDistCache) (maxActiveFPs : Nat) :
    VotingPowerDistCache :=
  let fps := sortFinalityProvidersWithZeroedVotingPower dc.finalityProviders
  let (numActiveFPs,totalVotingPower) := countActive maxActiveFPs fps
  ⟨totalVotingPower,fps,numActiveFPs⟩

def getActiveFinalityProviderSet (dc : VotingPowerDistCache) : List FinalityProviderDistInfo :=
  dc.finalityProviders.take dc.numActiveFps

def getInactiveFinalityProviderSet (dc : VotingPowerDistCache) : List FinalityProviderDistInfo :=
  dc.finalityProviders.drop dc.numActiveFps

def sortByPk (fps : List FinalityProviderDistInfo) : List FinalityProviderDistInfo :=
  fps.insertionSort (fun i j => i.btcPk ≤ j.btcPk)

def hasPk (fps : List FinalityProviderDistInfo) (pk : BIP340PubKey) : Bool :=
  fps.any (fun fp => fp.btcPk = pk)

def findNewActiveFinalityProviders (dc prevDc : VotingPowerDistCache) :
    List FinalityProviderDistInfo :=
  sortByPk (dc.getActiveFinalityProviderSet.filter
    (fun fp => !hasPk prevDc.getActiveFinalityProviderSet fp.btcPk))

/-- Also the providers that were active and have left the cache by a full unbonding. -/
def findNewInactiveFinalityProviders (dc prevDc : VotingPowerDistCache) :
    List FinalityProviderDistInfo :=
  sortByPk (dc.getInactiveFinalityProviderSet.filter
      (fun fp => !hasPk prevDc.getInactiveFinalityProviderSet fp.btcPk) ++
    prevDc.getActiveFinalityProviderSet.filter (fun fp => !hasPk dc.finalityProviders fp.btcPk))

end VotingPowerDistCache

inductive FinalityProviderState where
  | UNKNOWN
  | UNJAILED
  | JAILED
  | SLASHED
  deriving DecidableEq

structure DelegationInfo where
  delegator : AccAddress
  fpBtcPk : BIP340PubKey
  totalSat : Nat

structure ProcessingState where
  prevActiveFpByBtcPk : KVStore BIP340PubKey Unit
  fpStatesByBtcPk : KVStore BIP340PubKey FinalityProviderState
  deltaSatsByFpBtcPk : KVStore BIP340PubKey Int
  expiredEvents : List Hash
  slashedEvents : List BIP340PubKey
  activeDelegations : List DelegationInfo
  unbondingDelegations : List DelegationInfo

namespace ProcessingState

def new : ProcessingState := ⟨.empty,.empty,.empty,[],[],[],[]⟩

def fpState (ps : ProcessingState) (pk : BIP340PubKey) : FinalityProviderState :=
  ps.fpStatesByBtcPk.getD pk .UNKNOWN

def deltaSats (ps : ProcessingState) (pk : BIP340PubKey) : Int := ps.deltaSatsByFpBtcPk.getD pk 0

def setFpState (ps : ProcessingState) (pk : BIP340PubKey) (st : FinalityProviderState) :
    ProcessingState :=
  { ps with fpStatesByBtcPk := ps.fpStatesByBtcPk.set pk st }

def addStateForFp (ps : ProcessingState) (fp : FinalityProviderDistInfo) : ProcessingState :=
  let ps₁ := if fp.isSlashed then ps.setFpState fp.btcPk .SLASHED else ps
  if fp.isJailed then ps₁.setFpState fp.btcPk .JAILED else ps₁

def setPrevActive (ps : ProcessingState) (isActive : Bool) (pk : BIP340PubKey) : ProcessingState :=
  if isActive then { ps with prevActiveFpByBtcPk := ps.prevActiveFpByBtcPk.set pk () } else ps

def fillByPrevVpDstCache (ps : ProcessingState) (dc : VotingPowerDistCache) : ProcessingState :=
  dc.finalityProviders.zipIdx.foldl (fun ps e =>
    (ps.setPrevActive (e.2 < dc.numActiveFps) e.1.btcPk).addStateForFp e.1) ps

def isFpInPrevActiveSet (ps : ProcessingState) (fpBtcPk : BIP340PubKey) : Bool :=
  ps.prevActiveFpByBtcPk.has fpBtcPk

end ProcessingState

end AnonChain.Finality
