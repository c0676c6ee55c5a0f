import AnonChain.Lib.LinkedChain
import AnonChain.Lib.Run
import AnonChain.Types

/-! The scanner emits the blocks that are `k` deep and keeps the rest in a cache. -/

namespace AnonChain.Monitor

open Lib

/-- The headers of Bitcoin blocks. A header determines the transactions of its block. -/
structure Network where
  Header : Type
  blockHash : Header → Hash
  prevBlock : Header → Hash
  blockHash_inj : Function.Injective blockHash

variable {N : Network}

structure IndexedBlock (N : Network) where
  height : Nat
  header : N.Header

structure BTCCache (N : Network) where
  maxEntries : Nat
  blocks : List (IndexedBlock N)
  maxEntries_pos : 0 < maxEntries
  bounded : blocks.length ≤ maxEntries

namespace BTCCache

def add (b : BTCCache N) (ib : IndexedBlock N) : BTCCache N :=
  if h : b.blocks.length = b.maxEntries then
    { b with
      blocks := b.blocks.tail ++ [ib]
      bounded := by
        have hpos := b.maxEntries_pos
        rw [List.length_append,List.length_tail,List.length_singleton]
        omega }
  else
    { b with
      blocks := b.blocks ++ [ib]
      bounded := by
        have hle := b.bounded
        rw [List.length_append,List.length_singleton]
        omega }

def removeAll (b : BTCCache N) : BTCCache N :=
  { b with blocks := [], bounded := Nat.zero_le _ }

def tip (b : BTCCache N) : Option (IndexedBlock N) := b.blocks.getLast?

def trimConfirmedBlocks (b : BTCCache N) (k : Nat) : List (IndexedBlock N) × BTCCache N :=
  (b.blocks.take (b.blocks.length-k),
    { b with
      blocks := b.blocks.drop (b.blocks.length-k)
      bounded := by
        have hle := b.bounded
        rw [List.length_drop]
        omega })

end BTCCache

structure BtcScanner (N : Network) where
  baseHeight : Nat
  k : Nat
  confirmedTipBlock : Option (IndexedBlock N)
  unconfirmedBlockCache : BTCCache N
  confirmedBlocks : List (IndexedBlock N)

/-- The answers of the Bitcoin node; an answer is absent when the request fails. -/
structure Node (N : Network) where
  bestBlock : Option Nat
  blockByHeight : Nat → Option N.Header
  blockByHash : Hash → Option (IndexedBlock N)

namespace BtcScanner

def sendConfirmedBlocksToChan (bs : BtcScanner N) (blocks : List (IndexedBlock N)) : BtcScanner N :=
  { bs with
    confirmedBlocks := bs.confirmedBlocks ++ blocks
    confirmedTipBlock := blocks.getLast?.or bs.confirmedTipBlock }

def confirmAt (node : Node N) (bs : BtcScanner N) (i : Nat) : Result (BtcScanner N) := do
  let header ← orFail (node.blockByHeight i) (.panic "failed to get block by height")
  ensure (∀ tip ∈ bs.confirmedTipBlock, N.blockHash tip.header = N.prevBlock header)
    (.panic "invalid canonical chain")
  pure (bs.sendConfirmedBlocksToChan [⟨i,header⟩])

def cacheAt (node : Node N) (bs : BtcScanner N) (i : Nat) : Result (BtcScanner N) := do
  let header ← orFail (node.blockByHeight i) (.panic "failed to get block by height")
  ensure (∀ tip ∈ bs.unconfirmedBlockCache.tip, N.blockHash tip.header = N.prevBlock header)
    (.panic "invalid canonical chain")
  pure { bs with unconfirmedBlockCache := bs.unconfirmedBlockCache.add ⟨i,header⟩ }

def loop (round : BtcScanner N → Nat → Result (BtcScanner N)) :
    Nat → Nat → BtcScanner N → Result (BtcScanner N)
  | 0, _, bs => pure bs
  | count+1, i, bs => do
    let bs ← round bs i
    loop round count (i+1) bs

def firstUnconfirmedHeight (bs : BtcScanner N) : Nat :=
  match bs.confirmedTipBlock with
  | some tip => tip.height+1
  | none => bs.baseHeight

def subUint32 (a b : Nat) : Nat := (a+2^32-b)%2^32

def addUint32 (a b : Nat) : Nat := (a+b)%2^32

def bootstrap (bs : BtcScanner N) (node : Node N) : Result (BtcScanner N) := do
  let first := bs.firstUnconfirmedHeight
  let bestHeight ← orFail node.bestBlock (.panic "cannot get the best BTC block %w")
  let bestConfirmedHeight := subUint32 bestHeight bs.k
  let bs := { bs with unconfirmedBlockCache := bs.unconfirmedBlockCache.removeAll }
  let bs ← loop (confirmAt node) (bestConfirmedHeight+1-first) first bs
  let firstCached := addUint32 bestConfirmedHeight 1
  loop (cacheAt node) (bestHeight+1-firstCached) firstCached bs

/-- The bootstrap at the start, before the scanner registers for notifications. -/
def start (bs : BtcScanner N) (node : Node N) : Result (BtcScanner N) := do
  let bs ← bs.bootstrap node
  ensure (∀ tip ∈ bs.unconfirmedBlockCache.tip, tip.height < 2^31)
    (.panic "block height exceeds int32 range: %d")
  pure bs

def handleNewBlock (bs : BtcScanner N) (node : Node N) (height : Nat) (header : N.Header) :
    Result (BtcScanner N) := do
  let cacheTip ← orFail bs.unconfirmedBlockCache.tip (.errorf "no unconfirmed blocks found")
  -- a block that comes too early is skipped
  if height ≤ cacheTip.height then pure bs
  else do
    ensure (height ≤ cacheTip.height+1)
      (.errorf "missing blocks, expected block height: %d, got: %d")
    ensure (N.prevBlock header = N.blockHash cacheTip.header) (.errorf "cache is not up-to-date")
    let ib ← orFail (node.blockByHash (N.blockHash header))
        (.panic "failed to request block by hash: %s")
    let cache := bs.unconfirmedBlockCache.add ib
    let bs := { bs with unconfirmedBlockCache := cache }
    ensure (cache.blocks.length < 2^31) (.panic "unconfirmedBlockCache exceeds uint32")
    if cache.blocks.length ≤ bs.k then pure bs
    else do
      let (confirmedBlocks,cache) := cache.trimConfirmedBlocks bs.k
      let bs := { bs with unconfirmedBlockCache := cache }
      let first ← orFail confirmedBlocks.head? .outOfRange
      let confirmedTip ← orFail bs.confirmedTipBlock .nilPointer
      ensure (N.blockHash confirmedTip.header = N.prevBlock first.header)
        (.panic "invalid canonical chain")
      pure (bs.sendConfirmedBlocksToChan confirmedBlocks)

/-- A notification; one that cannot be handled restarts the bootstrap. -/
def onBlockEpoch (bs : BtcScanner N) (node : Node N) (height : Nat) (header : N.Header) :
    Result (BtcScanner N) := do
  match ← (bs.handleNewBlock node height header).attempt with
  | some bs => pure bs
  | none => bs.bootstrap node

end BtcScanner

inductive Phase where
  | created | running | panicked
  deriving DecidableEq

structure State (N : Network) where
  chain : List N.Header
  past : List (List N.Header)
  scanner : BtcScanner N
  phase : Phase

inductive Action (N : Network) where
  /-- The best chain grows or is reorganised. -/
  | reorganise (chain : List N.Header)
  | start (node : Node N)
  /-- The notification of a block that is or was in the best chain. -/
  | notify (node : Node N) (height : Nat) (header : N.Header)

namespace State

def run (s : State N) (result : Result (BtcScanner N)) : State N :=
  match result with
  | .ok scanner => { s with scanner := scanner, phase := .running }
  | .error _ => { s with phase := .panicked }

def next (s : State N) : Action N → Option (State N)
  | .reorganise chain => some { s with chain := chain, past := s.past ++ [s.chain] }
  | .start node => if s.phase = .created then some (s.run (s.scanner.start node)) else none
  | .notify node height header =>
    if s.phase = .running then some (s.run (s.scanner.onBlockEpoch node height header)) else none

end State

/-- A reorganisation removes fewer than `k` blocks. -/
def Shallow (k : Nat) (chain chain' : List N.Header) : Prop :=
  ∃ d new, (d = 0 ∨ d < k) ∧ chain' = chain.take (chain.length-d) ++ new

/-- What the network does: its chains are linked, are reorganised near their end only, and the
notified blocks are or were in one of them. -/
def Honest (s : State N) : Action N → Prop
  | .reorganise chain =>
    chain ≠ [] ∧ Linked N.blockHash N.prevBlock chain ∧ Shallow s.scanner.k s.chain chain
  | .start _ => True
  | .notify _ height header => ∃ ch ∈ s.chain :: s.past, ch[height]? = some header

/-- The answers are those of the best chain, which stays as it is while they are given. -/
def Node.Serves (node : Node N) (chain : List N.Header) : Prop :=
  node.bestBlock = some (chain.length-1) ∧ ∀ i, node.blockByHeight i = chain[i]?

structure Config where
  baseHeight : Nat
  k : Nat
  btcCacheSize : Nat
  k_lt : k < 2^32
  btcCacheSize_pos : 0 < btcCacheSize

def BtcScanner.new (N : Network) (cfg : Config) : BtcScanner N where
  baseHeight := cfg.baseHeight
  k := cfg.k
  confirmedTipBlock := none
  unconfirmedBlockCache := ⟨cfg.btcCacheSize,[],cfg.btcCacheSize_pos,Nat.zero_le _⟩
  confirmedBlocks := []

/-- A scanner over a linked chain that reaches the base height. -/
def system (N : Network) (cfg : Config) : System (State N) (Action N) where
  init s := s.scanner = .new N cfg ∧ s.phase = .created ∧ s.past = [] ∧
    Linked N.blockHash N.prevBlock s.chain ∧ cfg.baseHeight < s.chain.length
  step s a s' := Honest s a ∧ s.next a = some s'

end AnonChain.Monitor
