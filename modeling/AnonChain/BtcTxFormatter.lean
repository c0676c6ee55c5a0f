import AnonChain.Lib.BigEndian
import AnonChain.Types

/-! The format of a checkpoint on Bitcoin: two payloads, the second with a checksum of the first. -/

namespace AnonChain.BtcTxFormatter

open Lib

structure RawBtcCheckpoint where
  epoch : Nat
  blockHash : Bytes
  bitMap : Bytes
  submitterAddress : Bytes
  blsSig : Bytes
  deriving DecidableEq

def tagLength : Nat := 4
def currentVersion : Nat := 0
def headerLength : Nat := tagLength+1
def blockHashLength : Nat := 32
def bitMapLength : Nat := 13
def addressLength : Nat := 20
def firstPartHashLength : Nat := 10
def blsSigLength : Nat := 48
def epochLength : Nat := 8
def firstPartLength : Nat :=
  headerLength+blockHashLength+addressLength+epochLength+bitMapLength
def secondPartLength : Nat := headerLength+blsSigLength+firstPartHashLength
def rawBTCCheckpointLength : Nat :=
  epochLength+blockHashLength+bitMapLength+blsSigLength+addressLength

def getVerHalf (version halfNumber : Nat) : Byte :=
  let verHalf := version &&& 0xf
  Fin.ofNat 256 ((verHalf &&& 0xf) ||| (halfNumber <<< 4))

def encodeHeader (tag : Bytes) (version halfNumber : Nat) : Bytes :=
  tag ++ [getVerHalf version halfNumber]

def u64ToBEBytes (u : Nat) : Bytes := writeBE epochLength u

def encodeFirstOpRetrun (tag : Bytes) (version epoch : Nat)
    (appHash bitMap submitterAddress : Bytes) : Bytes :=
  encodeHeader tag version 0 ++ u64ToBEBytes epoch ++ appHash ++ bitMap ++ submitterAddress

def getCheckSum (sha256 : Bytes → Bytes) (firstTxBytes : Bytes) : Bytes :=
  (sha256 firstTxBytes).take firstPartHashLength

-- The checksum covers the data of the first part without its header.
def encodeSecondOpReturn (sha256 : Bytes → Bytes) (tag : Bytes) (version : Nat)
    (firstOpReturnBytes blsSig : Bytes) : Bytes :=
  encodeHeader tag version 1 ++ blsSig ++ getCheckSum sha256 (firstOpReturnBytes.drop headerLength)

def encodeCheckpointData (sha256 : Bytes → Bytes) (tag : Bytes) (version : Nat)
    (rawBTCCheckpoint : RawBtcCheckpoint) : Result (Bytes × Bytes) := do
  ensure (tag.length = tagLength) (.errorf "tag should have 4 bytes")
  ensure (version ≤ currentVersion) (.errorf "invalid format version")
  ensure (rawBTCCheckpoint.blockHash.length = blockHashLength)
    (.errorf "appHash should have 32 bytes")
  ensure (rawBTCCheckpoint.bitMap.length = bitMapLength) (.errorf "bitmap should have 13 bytes")
  ensure (rawBTCCheckpoint.blsSig.length = blsSigLength) (.errorf "BlsSig should have 48 bytes")
  ensure (rawBTCCheckpoint.submitterAddress.length = addressLength)
    (.errorf "address should have 20 bytes")
  let firstHalf := encodeFirstOpRetrun tag version rawBTCCheckpoint.epoch
    rawBTCCheckpoint.blockHash rawBTCCheckpoint.bitMap rawBTCCheckpoint.submitterAddress
  pure (firstHalf,encodeSecondOpReturn sha256 tag version firstHalf rawBTCCheckpoint.blsSig)

structure FormatHeader where
  tag : Bytes
  version : Nat
  part : Nat

/-- The version is in the lower half of the fifth byte, the part in the upper one. -/
def parseHeader (data : Bytes) : FormatHeader :=
  let verHalf := (data.getD tagLength 0).val
  ⟨data.take tagLength,verHalf%16,verHalf/16⟩

def FormatHeader.validateHeader (header : FormatHeader) (expectedTag : Bytes) (expectedPart : Nat) :
    Result Unit := do
  ensure (header.tag = expectedTag)
    (.errorf "data does not have expected tag, expected tag: %v, got tag: %v")
  ensure (header.version ≤ currentVersion) (.errorf "header have invalid version")
  ensure (header.part = expectedPart) (.errorf "header have invalid part number")

def getCheckpointData (tag : Bytes) (version partIndex : Nat) (data : Bytes) : Result Bytes := do
  ensure (partIndex ≤ 1) (.errorf "invalid part index")
  ensure (version ≤ currentVersion) (.errorf "not supported version")
  ensure (partIndex = 0 → data.length = firstPartLength)
    (.errorf "invalid length. First part should have 77 bytes")
  ensure (partIndex = 1 → data.length = secondPartLength)
    (.errorf "invalid length. First part should have 62 bytes")
  (parseHeader data).validateHeader tag partIndex
  pure (data.drop headerLength)

def decodeRawCheckpoint (version : Nat) (btcCkptBytes : Bytes) : Result RawBtcCheckpoint := do
  ensure (version ≤ currentVersion) (.errorf "not supported version")
  ensure (btcCkptBytes.length = rawBTCCheckpointLength)
    (.errorf "invalid raw checkpoint data length")
  let (epochBytes,b) := btcCkptBytes.splitAt epochLength
  let (blockHashBytes,b) := b.splitAt blockHashLength
  let (bitmapBytes,b) := b.splitAt bitMapLength
  let (addressBytes,b) := b.splitAt addressLength
  let blsSigBytes := b.take blsSigLength
  pure ⟨readBE epochBytes,blockHashBytes,bitmapBytes,addressBytes,blsSigBytes⟩

def connectParts (sha256 : Bytes → Bytes) (version : Nat) (f s : Bytes) : Result Bytes := do
  ensure (version ≤ currentVersion) (.errorf "not supported version")
  ensure (f.length = firstPartLength-headerLength) (.errorf "not valid first part")
  ensure (s.length = secondPartLength-headerLength) (.errorf "not valid second part")
  let hashStartIdx := s.length-firstPartHashLength
  ensure ((sha256 f).take firstPartHashLength = s.drop hashStartIdx)
    (.errorf "parts do not connect")
  pure (f ++ s.take hashStartIdx)

end AnonChain.BtcTxFormatter
