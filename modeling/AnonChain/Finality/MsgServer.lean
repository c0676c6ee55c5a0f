import AnonChain.Finality.Keeper

/-! The messages of the finality module and its resume proposal. -/

namespace AnonChain.Finality

open Lib
open BtcStaking (Ctx FinalityProvider)

structure MsgAddFinalitySig where
  signer : Option AccAddress
  fpBtcPk : Option BIP340PubKey
  blockHeight : UInt64
  pubRand : Option Bytes
  proof : Option MerkleProof
  blockAppHash : Bytes
  finalitySig : Option Bytes

structure FinalityVote where
  fpBtcPk : BIP340PubKey
  blockHeight : Nat
  pubRand : Bytes
  proof : MerkleProof
  blockAppHash : Bytes
  finalitySig : Bytes

def MsgAddFinalitySig.validateBasic (m : MsgAddFinalitySig) : Result FinalityVote := do
  let _ ← orFail m.signer (.err .ErrInvalidAddress "invalid signer address: got %s")
  let fpBtcPk ← orFail m.fpBtcPk (.err .ErrInvalidFinalitySig "empty Finality Provider BTC PubKey")
  ensure (fpBtcPk.length = BIP340PubKeyLen) (.err .ErrInvalidFinalitySig
    "invalid finality provider BTC public key length: got %d, want %d")
  let pubRand ← orFail m.pubRand (.err .ErrInvalidFinalitySig "empty Public Randomness")
  ensure (pubRand.length = SchnorrPubRandLen) (.err .ErrInvalidFinalitySig
    "invalind public randomness length: got %d, want %d")
  let proof ← orFail m.proof (.err .ErrInvalidFinalitySig "empty inclusion proof")
  let finalitySig ← orFail m.finalitySig (.err .ErrInvalidFinalitySig "empty finality signature")
  ensure (finalitySig.length = SchnorrEOTSSigLen) (.err .ErrInvalidFinalitySig
    "invalid finality signature length: got %d, want %d")
  ensure (m.blockAppHash.length = 32) (.err .ErrInvalidFinalitySig
    "invalid block app hash length: got %d, want %d")
  pure ⟨fpBtcPk,m.blockHeight.toNat,pubRand,proof,m.blockAppHash,finalitySig⟩

section

variable (E : Env)

def verifyFinalitySig (v : FinalityVote) (prCommit : PubRandCommit) : Result Unit := do
  let heightOfProof := uint64 (prCommit.startHeight+v.proof.index.toUInt64.toNat)
  ensure (v.blockHeight = heightOfProof) (.err .ErrInvalidFinalitySig
    "the inclusion proof (for height %d) does not correspond to the given height (%d) in the message")
  ensure (v.proof.total.toUInt64.toNat = prCommit.numPubRand) (.err .ErrInvalidFinalitySig
    "the total number of public randomnesses in the proof (%d) does not match the number of public randomnesses committed (%d)")
  ensure (E.merkleVerify v.proof prCommit.commitment v.pubRand = true) (.err .ErrInvalidFinalitySig
    "the inclusion proof of the public randomness is invalid: %v")
  let pk ← orFail (Eots.parsePubKey E.curve v.fpBtcPk) (.errorf "malformed pubkey")
  Eots.verify E.curve E.hashes pk (Eots.toFieldValNormalized E.curve v.pubRand)
    (msgToSignForVote v.blockHeight v.blockAppHash) (Eots.toModNScalar E.curve v.finalitySig)

def shouldAcceptSigForHeight (ctx : Ctx) (block : IndexedBlock) : Bool :=
  !(block.finalized && decide (E.epochByHeight block.height ≤ ctx.lastFinalizedEpoch))

def slashFinalityProvider (s : Stores) (ctx : Ctx) (fpBtcPk : BIP340PubKey) : Result Stores := do
  let stk ← Result.orPanic (s.stk.slashFinalityProvider ctx fpBtcPk)
  pure ⟨stk,s.fin⟩

/-- A vote for another app hash than the indexed one: the evidence is saved, and slashes when a
canonical vote is stored. -/
def addForkSig (s : Stores) (ctx : Ctx) (v : FinalityVote) (indexedBlock : IndexedBlock) :
    Result Stores :=
  let evidence : Evidence :=
    { fpBtcPk := v.fpBtcPk, blockHeight := v.blockHeight, pubRand := v.pubRand,
      canonicalAppHash := indexedBlock.appHash, canonicalFinalitySig := none,
      forkAppHash := v.blockAppHash, forkFinalitySig := v.finalitySig }
  match s.fin.getSig ctx.header v.blockHeight v.fpBtcPk with
  | .ok canonicalSig => do
    let s' ← slashFinalityProvider s ctx v.fpBtcPk
    pure ⟨s'.stk,s'.fin.setEvidence { evidence with canonicalFinalitySig := some canonicalSig }⟩
  | .error _ => .ok ⟨s.stk,s.fin.setEvidence evidence⟩

/-- `HighestVotedHeight` is a `uint32`. -/
def updateHighestVotedHeight (stk : BtcStaking.State) (fp : FinalityProvider)
    (blockHeight : Nat) : Result BtcStaking.State :=
  let height32 := blockHeight%2^32
  if fp.highestVotedHeight < height32 then
    stk.updateFinalityProvider { fp with highestVotedHeight := height32 }
  else .ok stk

/-- A vote for the indexed app hash: the vote is saved, and slashes when evidence of a fork vote
is stored. -/
def addCanonicalSig (s : Stores) (ctx : Ctx) (v : FinalityVote) (fp : FinalityProvider) :
    Result Stores := do
  let fin := s.fin.setSig v.blockHeight v.fpBtcPk v.finalitySig
  let stk ← updateHighestVotedHeight s.stk fp v.blockHeight
  if fin.hasEvidence v.fpBtcPk v.blockHeight then do
    let evidence ← Result.orPanic (fin.getEvidence ctx.header v.fpBtcPk v.blockHeight)
    slashFinalityProvider
      ⟨stk,fin.setEvidence { evidence with canonicalFinalitySig := some v.finalitySig }⟩
      ctx v.fpBtcPk
  else pure ⟨stk,fin⟩

/-- The checks of `AddFinalitySig` before it writes; the result is the block, the provider and
the commitment the vote was verified against. -/
def checkFinalitySig (s : Stores) (ctx : Ctx) (v : FinalityVote) :
    Result (IndexedBlock × FinalityProvider × PubRandCommit) := do
  ensure (s.fin.params.finalityActivationHeight ≤ v.blockHeight) (.err .ErrFinalityNotActivated
    "finality block height: %d is lower than activation height %d")
  let indexedBlock ← s.fin.getBlock v.blockHeight
  ensure (shouldAcceptSigForHeight E ctx indexedBlock = true)
    (.err .ErrSigHeightOutdated "height: %d")
  ensure (s.stk.isFinalityProviderDeleted v.fpBtcPk = false)
    (.err .ErrFinalityProviderIsDeleted "fp_btc_pk_hex: %s")
  let fp ← s.stk.getFinalityProvider v.fpBtcPk
  ensure (fp.isSlashed = false) (.err .ErrFpAlreadySlashed "finality provider public key: %s")
  ensure (fp.isJailed = false) (.err .ErrFpAlreadyJailed "finality provider public key: %s")
  ensure (s.fin.getVotingPower v.fpBtcPk v.blockHeight ≠ 0) (.err .ErrInvalidFinalitySig
    "the finality provider %s does not have voting power at height %d")
  ensure (∀ sig, s.fin.votes.get₂ v.blockHeight v.fpBtcPk = some sig →
    v.blockHeight ≤ ctx.header.height → sig ≠ v.finalitySig) (.err .ErrDuplicatedFinalitySig "")
  let prCommit ← s.fin.getTimestampedPubRandCommitForHeight ctx.lastFinalizedEpoch v.fpBtcPk
    v.blockHeight
  verifyFinalitySig E v prCommit
  pure (indexedBlock,fp,prCommit)

def addFinalitySig (s : Stores) (ctx : Ctx) (req : MsgAddFinalitySig) : Result Stores := do
  let v ← req.validateBasic
  let (indexedBlock,fp,_) ← checkFinalitySig E s ctx v
  let s' : Stores := ⟨s.stk,s.fin.setPubRand v.fpBtcPk v.blockHeight v.pubRand⟩
  if indexedBlock.appHash ≠ v.blockAppHash then addForkSig s' ctx v indexedBlock
  else addCanonicalSig s' ctx v fp

structure MsgCommitPubRandList where
  signer : Option AccAddress
  fpBtcPk : Option BIP340PubKey
  startHeight : UInt64
  numPubRand : UInt64
  commitment : Bytes
  sig : Option Bytes

def maxPubRandCommitOffset : Nat := 160000

def MsgCommitPubRandList.validateBasic (m : MsgCommitPubRandList) : Result Unit := do
  let _ ← orFail m.signer (.err .ErrInvalidAddress "invalid signer address (%s)")
  ensure (m.commitment.length = 32) (.err .ErrInvalidPubRand "commitment must be %d bytes, got %d")
  ensure (m.startHeight < m.startHeight+m.numPubRand) (.err .ErrOverflowInBlockHeight
    "public rand commit start block height: %d is equal or higher than (start height + num pub rand) %d")

def commitPubRandList (s : Stores) (ctx : Ctx) (req : MsgCommitPubRandList) : Result Stores := do
  req.validateBasic
  let startHeight := req.startHeight.toNat
  ensure (startHeight < ctx.header.height+maxPubRandCommitOffset) (.err .ErrInvalidPubRand
    "start height %d is too far into the future. Current height is %d and max offset is %d")
  ensure (s.fin.params.finalityActivationHeight ≤ startHeight) (.err .ErrFinalityNotActivated
    "public rand commit start block height: %d is lower than activation height %d")
  ensure (s.fin.params.minPubRand ≤ req.numPubRand.toNat) (.err .ErrTooFewPubRand
    "required minimum: %d, actual: %d")
  let fpBtcPk ← orFail req.fpBtcPk (.err .ErrInvalidPubRand "empty finality provider public key")
  ensure (s.stk.finalityProviders.has fpBtcPk = true) (.err .ErrFpNotFound
    "the finality provider with BTC PK %v is not registered")
  ensure (s.stk.isFinalityProviderDeleted fpBtcPk = false)
    (.err .ErrFinalityProviderIsDeleted "fp_btc_pk_hex: %s")
  ensure (E.commitSigValid fpBtcPk req.startHeight req.numPubRand req.commitment req.sig = true)
    (.err .ErrInvalidPubRand "invalid signature over the public randomness list: %v")
  let prCommit : PubRandCommit :=
    ⟨startHeight,req.numPubRand.toNat,req.commitment,ctx.currentEpoch⟩
  ensure (∀ last ∈ s.fin.getLastPubRandCommit fpBtcPk, last.endHeight < startHeight)
    (.err .ErrInvalidPubRand
      "the start height (%d) has overlap with the height of the highest public randomness committed (%d)")
  let fin ← s.fin.setPubRandCommit fpBtcPk prCommit
  pure ⟨s.stk,fin⟩

end

structure MsgUnjailFinalityProvider where
  signer : AccAddress
  fpBtcPk : BIP340PubKey

def unjailFinalityProvider (s : Stores) (ctx : Ctx) (req : MsgUnjailFinalityProvider) :
    Result Stores := do
  let fp ← s.stk.getFinalityProvider req.fpBtcPk
  ensure (fp.addr = req.signer)
    (.errorf "the fp's address %s does not match the signer %s of the requestion")
  ensure (fp.isJailed = true) (.err .ErrFpNotJailed "")
  let info ← orFail (s.fin.signingInfo.get req.fpBtcPk)
    (.errorf "failed to get the signing info of finality provider %s: %w")
  ensure (info.jailedUntil < ctx.header.time)
    (.err .ErrJailingPeriodNotPassed "current block time: %v, required %v")
  let stk ← s.stk.unjailFinalityProvider ctx req.fpBtcPk
  pure ⟨stk,s.fin⟩

structure MsgUpdateParams where
  authority : AccAddress
  params : Params

def updateParams (s : State) (ctx : Ctx) (req : MsgUpdateParams) : Result State := do
  ensure (req.authority = ctx.authority) .notAuthority
  Result.wrap req.params.validate (.err .ErrInvalidProposalMsg "invalid parameter: %v")
  pure { s with params := req.params }

/-- A hex text: the bytes it decodes to and which of their spellings it is. What `MarshalHex`
writes has spelling zero. -/
structure PkHex where
  bytes : BIP340PubKey
  spelling : Nat
  deriving DecidableEq

structure MsgResumeFinalityProposal where
  authority : Option AccAddress
  fpPksHex : List PkHex
  haltingHeight : Nat

def MsgResumeFinalityProposal.validateBasic (m : MsgResumeFinalityProposal) : Result Unit := do
  let _ ← orFail m.authority (.err .ErrInvalidAddress "invalid authority address (%s)")
  ensure (m.haltingHeight ≠ 0) (.errorf "halting height is zero")
  ensure (m.fpPksHex ≠ []) (.errorf "no fp pk hex set")
  ensure (∀ x ∈ m.fpPksHex, x.bytes.length = BIP340PubKeyLen)
    (.errorf "failed to parse FP BTC PK Hex (%s) into BIP-340")
  ensure m.fpPksHex.Nodup (.errorf "duplicated FP BTC PK Hex (%s)")

/-- Maps of hex texts are looked up with the text of `MarshalHex`. -/
def inHexMap (fpPksHex : List PkHex) (pk : BIP340PubKey) : Bool := fpPksHex.contains ⟨pk,0⟩

def jailListed (ctx : Ctx) (haltingHeight : Nat) (s : Stores) (fpPkHex : PkHex) :
    Result Stores := do
  ensure (fpPkHex.bytes.length = BIP340PubKeyLen)
    (.errorf "invalid finality provider public key %s: %w")
  ensure ((fpPkHex.spelling = 0 && s.fin.isVoter haltingHeight fpPkHex.bytes) = false)
    (.errorf "the finality provider %s has voted for height %d")
  let fp ← s.stk.getFinalityProvider fpPkHex.bytes
  if fp.isSlashed || fp.isJailed then pure s
  else do
    let stk ← s.stk.jailFinalityProvider ctx fpPkHex.bytes
    let signInfo ← orFail (s.fin.signingInfo.get fpPkHex.bytes)
      (.errorf "the signing info of finality provider %s is not created: %w")
    pure ⟨stk,s.fin.resetSigningInfo ctx.header fpPkHex.bytes signInfo⟩

def jailInCache (fpPksHex : List PkHex) (dc : VotingPowerDistCache) : VotingPowerDistCache :=
  let fps := dc.finalityProviders.map (fun fp =>
    if inHexMap fpPksHex fp.btcPk && !fp.isSlashed then { fp with isJailed := true } else fp)
  { VotingPowerDistCache.new with finalityProviders := fps }.applyActiveFinalityProviders
      dc.numActiveFps

def resumeProcessingState (fpPksHex : List PkHex) (dc : VotingPowerDistCache) : ProcessingState :=
  dc.finalityProviders.foldl (fun ps fp =>
    if inHexMap fpPksHex fp.btcPk && !fp.isSlashed then ps.setFpState fp.btcPk .JAILED else ps)
    (ProcessingState.new.fillByPrevVpDstCache dc)

def resumeHeight (ctx : Ctx) (fpPksHex : List PkHex) (s : State) (blkHeight : Nat) :
    Result State := do
  let dc ← orFail (s.getVotingPowerDistCache blkHeight) .nilPointer
  let s₁ := (dc.finalityProviders.filter (fun fp => inHexMap fpPksHex fp.btcPk)).foldl
    (fun s fp => s.setVotingPower fp.btcPk blkHeight 0) s
  let newDc := jailInCache fpPksHex dc
  let s₂ := s₁.setVotingPowerDistCache blkHeight newDc
  let isCurrHeight : Bool := blkHeight = ctx.header.height
  let state := if isCurrHeight then some (resumeProcessingState fpPksHex dc) else none
  s₂.handleFPStateUpdates ctx.header state dc newDc isCurrHeight

def handleResumeFinalityProposal (s : Stores) (ctx : Ctx) (fpPksHex : List PkHex)
    (haltingHeight : Nat) : Result Stores := do
  ensure (s.fin.params.finalityActivationHeight ≤ haltingHeight)
    (.errorf "finality halting height %d cannot be lower than finality activation height %d")
  ensure (haltingHeight ≤ ctx.header.height)
    (.errorf "finality halting height %d is in the future, current height %d")
  let s₁ ← fpPksHex.foldlM (jailListed ctx haltingHeight) s
  let fin ← (List.range' haltingHeight (ctx.header.height+1-haltingHeight)).foldlM
    (resumeHeight ctx fpPksHex) s₁.fin
  pure ⟨s₁.stk,fin⟩

def resumeFinalityProposal (s : Stores) (ctx : Ctx) (req : MsgResumeFinalityProposal) :
    Result Stores := do
  req.validateBasic
  ensure (req.authority = some ctx.authority) .notAuthority
  Result.wrap (handleResumeFinalityProposal s ctx req.fpPksHex req.haltingHeight)
    (.err .ErrInvalidProposalMsg "failed to handle resume finality proposal: %v")

end AnonChain.Finality
