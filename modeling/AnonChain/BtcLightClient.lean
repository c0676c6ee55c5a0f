import AnonChain.Types

/-! The Bitcoin light client: header store, fork choice by total work, inclusion proofs. -/

namespace AnonChain.BtcLightClient

open Lib List KVStore

structure OutPoint where
  hash : Hash
  index : Nat
  deriving DecidableEq

structure TxOut where
  value : Int
  pkScript : Bytes
  deriving DecidableEq

structure TxIn where
  previousOutPoint : OutPoint
  witness : List Bytes
  deriving DecidableEq

structure MsgTx where
  txIn : List TxIn
  txOut : List TxOut
  lockTime : Nat
  deriving DecidableEq

structure BlockHeader where
  version : Int
  prevBlock : Hash
  merkleRoot : Hash
  timestamp : Nat
  bits : Nat
  nonce : Nat
  deriving DecidableEq

structure BTCHeaderInfo where
  header : BlockHeader
  hash : Hash
  height : Nat
  work : Nat

structure LocalHeaderInfo where
  header : BlockHeader
  height : Nat
  totalWork : Nat

/-- What the chain takes from the Bitcoin library: the hash functions, the work of a header
and the sanity and context checks of a header, which may read the chain it extends. -/
structure BtcLib where
  txHash : MsgTx → Hash
  doubleHash : Bytes → Hash
  blockHash : BlockHeader → Hash
  calcHeaderWork : BlockHeader → Nat
  checkHeader : (Nat → Option LocalHeaderInfo) → LocalHeaderInfo → BlockHeader → Bool

structure State where
  headers : KVStore Nat BTCHeaderInfo
  hashToHeight : KVStore Hash Nat
  insertHeadersAllowList : List AccAddress

namespace State

def getHeaderByHeight (s : State) (height : Nat) : Option BTCHeaderInfo :=
  s.headers.get height

def getHeaderByHash (s : State) (hash : Hash) : Result BTCHeaderInfo :=
  match s.hashToHeight.get hash with
  | none => .error (.err .ErrHeaderDoesNotExist "no header with provided hash")
  | some height =>
    match s.headers.get height with
    | none => .error (.panic "header height exists but header does not")
    | some info => .ok info

def getTip (s : State) : Option BTCHeaderInfo := s.headers.last.map Prod.snd

def baseHeader (s : State) : Option BTCHeaderInfo := s.headers.first.map Prod.snd

def mainChainDepth (s : State) (hash : Hash) : Result Nat := do
  let headerInfo ← s.getHeaderByHash hash
  let tipInfo ← orFail s.getTip .nilPointer
  ensure (headerInfo.height ≤ tipInfo.height) (.panic "tip height is less than header height")
  pure (tipInfo.height-headerInfo.height)

def insertHeader (s : State) (h : BTCHeaderInfo) : State :=
  { s with headers := s.headers.set h.height h, hashToHeight := s.hashToHeight.set h.hash h.height }

def deleteHeader (s : State) (h : BTCHeaderInfo) : State :=
  { s with headers := s.headers.delete h.height, hashToHeight := s.hashToHeight.delete h.hash }

def headersAbove (height : Nat) (first : Bool) : List BTCHeaderInfo → List BTCHeaderInfo
  | [] => []
  | h :: l =>
    if first ∧ h.height ≤ height then []
    else if h.height = height then []
    else h :: headersAbove height false l

def rollBackHeadersUpTo (s : State) (height : Nat) : State :=
  (headersAbove height true ((s.headers.entries.map Prod.snd).reverse)).foldl deleteHeader s

end State

section

variable (L : BtcLib)

def BTCHeaderInfo.toLocalInfo (i : BTCHeaderInfo) : LocalHeaderInfo :=
  ⟨i.header,i.height,i.work⟩

def LocalHeaderInfo.toBTCHeaderInfo (i : LocalHeaderInfo) : BTCHeaderInfo :=
  ⟨i.header,L.blockHash i.header,i.height,i.totalWork⟩

/-- The all-zero hash a fresh variable of the source holds. -/
def emptyHash : Hash := List.replicate 32 0

def headersFormChainFrom (lastHeader : Hash) : List BlockHeader → Bool
  | [] => true
  | h :: l =>
    if lastHeader = emptyHash then headersFormChainFrom (L.blockHash h) l
    else if h.prevBlock ≠ lastHeader then false
    else headersFormChainFrom (L.blockHash h) l

def headersFormChain (headers : List BlockHeader) : Bool := headersFormChainFrom L emptyHash headers

def getHeaderAtHeight (s : State) (ext : List LocalHeaderInfo) (height : Nat) :
    Option LocalHeaderInfo :=
  match ext with
  | [] => (s.getHeaderByHeight height).map (fun h => ⟨h.header,height,h.work⟩)
  | e :: _ =>
    if height < e.height then (s.getHeaderByHeight height).map (fun h => ⟨h.header,height,h.work⟩)
    else ext[height-e.height]?

def processNewHeadersChain (s : State) (ext : List LocalHeaderInfo) (parent : LocalHeaderInfo) :
    List BlockHeader → Result (List LocalHeaderInfo)
  | [] => .ok ext
  | h :: l => do
    ensure (L.checkHeader (getHeaderAtHeight s ext) parent h = true)
      (.err .ErrInvalidHeader "provided header contains invalid header")
    let child : LocalHeaderInfo :=
      ⟨h,parent.height+1,parent.totalWork+L.calcHeaderWork h⟩
    processNewHeadersChain s (ext ++ [child]) child l

structure InsertResult where
  headersToInsert : List BTCHeaderInfo
  rollbackTo : Option BTCHeaderInfo

def computeInsertion (s : State) (headers : List BlockHeader) : Result InsertResult :=
  match headers with
  | [] => .error (.errorf "cannot insert empty headers")
  | first :: _ => do
    ensure (headersFormChain L headers = true) (.errorf "headers do not form a chain")
    let currentTip ← orFail s.getTip (.errorf "cannot insert headers when tip is nil")
    if first.prevBlock = L.blockHash currentTip.header then do
      let ext ← processNewHeadersChain L s [] currentTip.toLocalInfo headers
      pure ⟨ext.map (LocalHeaderInfo.toBTCHeaderInfo L),none⟩
    else
      match s.getHeaderByHash (L.blockHash first) with
      | .ok _ =>
        .error (.err .ErrForkStartWithKnownHeader "first header of extension chain is known header")
      | .error (.panic t) => .error (.panic t)
      | .error _ => do
        let forkParent ← Result.wrap (s.getHeaderByHash first.prevBlock)
          (.err .ErrHeaderParentDoesNotExist
            "cannot find parent header with hash %s for provided chain")
        let ext ← processNewHeadersChain L s [] forkParent.toLocalInfo headers
        let tipOfNewChain ← orFail ext.getLast? .outOfRange
        ensure (currentTip.work < tipOfNewChain.totalWork)
          (.err .ErrChainWithNotEnoughWork
            "new chain work %s, is not better than current tip work %s")
        pure ⟨ext.map (LocalHeaderInfo.toBTCHeaderInfo L),some forkParent⟩

structure RollBack where
  rollbackFrom : BTCHeaderInfo
  rollbackTo : BTCHeaderInfo

def triggerRollBack (lastTip : Option BTCHeaderInfo) (rollbackTo : BTCHeaderInfo) :
    Result RollBack := do
  let rollbackFrom ← orFail lastTip (.panic "Call BTC rollback without tip")
  ensure (rollbackTo.height < rollbackFrom.height)
    (.panic "BTC rollback with rollback 'To' higher or equal than 'From'")
  pure ⟨rollbackFrom,rollbackTo⟩

def insertHeadersWithHookAndEvents (s : State) (headers : List BlockHeader) :
    Result (State × Option RollBack) := do
  let result ← computeInsertion L s headers
  match result.rollbackTo with
  | none => pure (result.headersToInsert.foldl State.insertHeader s,none)
  | some target => do
    let rb ← triggerRollBack s.getTip target
    pure (result.headersToInsert.foldl State.insertHeader (s.rollBackHeadersUpTo target.height),
      some rb)

structure MsgInsertHeaders where
  signer : Option AccAddress
  headers : List BlockHeader

def insertHeaders (s : State) (msg : MsgInsertHeaders) : Result (State × Option RollBack) := do
  let reporter ← orFail msg.signer (.err .ErrInvalidAddress "invalid insert header message")
  ensure (msg.headers ≠ []) (.err .ErrEmptyMessage "invalid insert header message")
  ensure (s.insertHeadersAllowList = [] ∨ reporter ∈ s.insertHeadersAllowList)
    (.errorf "reporter is not authorized to insert headers")
  insertHeadersWithHookAndEvents L s msg.headers

/-- One level of the Merkle path: the sibling goes left or right by the lowest index bit. -/
def merkleStep (proof : Bytes) (cur : Hash × Nat) (i : Nat) : Hash × Nat :=
  let next := (proof.drop (i*32)).take 32
  (if cur.2%2 = 1 then L.doubleHash (next ++ cur.1) else L.doubleHash (cur.1 ++ next),cur.2/2)

def verifyInclusionProof (tx : MsgTx) (merkleRoot : Hash) (intermediateNodes : Bytes)
    (index : Nat) : Bool :=
  let txHash := L.txHash tx
  if txHash = merkleRoot ∧ index = 0 ∧ intermediateNodes = [] then true
  else
    let proof := txHash ++ intermediateNodes ++ merkleRoot
    if proof.length%32 ≠ 0 then false
    else if proof.length = 64 then false
    else
      let numSteps := proof.length/32-1
      ((List.range' 1 (numSteps-1)).foldl (merkleStep L proof) (proof.take 32,index)).1 =
        proof.drop (proof.length-32)

end

variable {s : State} {i : BTCHeaderInfo} {l : List BTCHeaderInfo} {L : BtcLib}

structure State.WF (s : State) : Prop where
  height_eq : ∀ {h : Nat} {i : BTCHeaderInfo}, s.headers.get h = some i → i.height = h
  nonempty : ∃ h i, s.headers.get h = some i

theorem State.WF.getTip_spec (hs : s.WF) :
    ∃ t, s.getTip = some t ∧ s.headers.get t.height = some t ∧
      ∀ h i, s.headers.get h = some i → h ≤ t.height := by
  obtain ⟨h₀,i₀,h0⟩ := hs.nonempty
  cases hl : s.headers.last with
  | none =>
    have : s.headers.entries = [] := getLast?_eq_none_iff.mp hl
    simp [KVStore.get,this] at h0
  | some e =>
    obtain ⟨k,t⟩ := e
    obtain ⟨hk,hm⟩ := last_spec hl
    have ht := hs.height_eq hk
    refine ⟨t,by simp [State.getTip,hl],by rw [ht]; exact hk,?_⟩
    intro h i hi
    rw [ht]
    exact hm h i hi

theorem State.WF.getHeaderByHash_height (hs : s.WF) {hash : Hash}
    (h : s.getHeaderByHash hash = .ok i) : s.headers.get i.height = some i := by
  unfold State.getHeaderByHash at h
  split at h
  · simp at h
  · split at h
    · simp at h
    · rename_i height _ info hi
      rw [Except.ok.injEq] at h
      subst h
      rw [hs.height_eq hi]
      exact hi

theorem get_insertHeader (s : State) (h : BTCHeaderInfo) (k : Nat) :
    (s.insertHeader h).headers.get k = if k = h.height then some h else s.headers.get k :=
  get_set _ _ _ _

theorem get_foldl_insertHeader {k : Nat}
    (h : (l.foldl State.insertHeader s).headers.get k = some i) :
    (i ∈ l ∧ i.height = k) ∨ s.headers.get k = some i := by
  induction l generalizing s with
  | nil => exact .inr h
  | cons a l ih =>
    rcases ih h with ⟨hm,hk⟩ | h
    · exact .inl ⟨mem_cons_of_mem a hm,hk⟩
    · rw [get_insertHeader] at h
      split at h
      · rename_i hk
        rw [Option.some.injEq] at h
        subst h
        exact .inl ⟨mem_cons_self,hk.symm⟩
      · exact .inr h

theorem isSome_foldl_insertHeader {k : Nat} (h : (s.headers.get k).isSome) :
    ((l.foldl State.insertHeader s).headers.get k).isSome := by
  induction l generalizing s with
  | nil => exact h
  | cons a l ih =>
    refine ih ?_
    rw [get_insertHeader]
    split
    · rfl
    · exact h

theorem get_foldl_deleteHeader {k : Nat}
    (h : (l.foldl State.deleteHeader s).headers.get k = some i) : s.headers.get k = some i := by
  induction l generalizing s with
  | nil => exact h
  | cons a l ih =>
    have := ih h
    simp only [State.deleteHeader,get_delete] at this
    split at this
    · simp at this
    · exact this

theorem processNewHeadersChain_heights {ext r : List LocalHeaderInfo} {parent : LocalHeaderInfo}
    {l : List BlockHeader} (het : ∀ e ∈ ext, 0 < e.height) (hne : ext ≠ [] ∨ l ≠ [])
    (h : processNewHeadersChain L s ext parent l = .ok r) : r ≠ [] ∧ ∀ e ∈ r, 0 < e.height := by
  induction l generalizing ext parent with
  | nil =>
    rw [processNewHeadersChain,Except.ok.injEq] at h
    subst h
    exact ⟨hne.resolve_right (fun hn => hn rfl),het⟩
  | cons a l ih =>
    simp only [processNewHeadersChain,ok_iff] at h
    refine ih ?_ (.inl (by simp)) h.2
    intro e he
    rcases mem_append.mp he with he | he
    · exact het e he
    · rw [mem_singleton.mp he]
      exact Nat.succ_pos _

theorem computeInsertion_heights {headers : List BlockHeader}
    {r : InsertResult} (h : computeInsertion L s headers = .ok r) :
    r.headersToInsert ≠ [] ∧ ∀ i ∈ r.headersToInsert, 0 < i.height := by
  have key : ∀ parent ext, processNewHeadersChain L s [] parent headers = .ok ext → headers ≠ [] →
      ext.map (LocalHeaderInfo.toBTCHeaderInfo L) ≠ [] ∧
        ∀ i ∈ ext.map (LocalHeaderInfo.toBTCHeaderInfo L), 0 < i.height := by
    intro parent ext he hn
    obtain ⟨h1,h2⟩ := processNewHeadersChain_heights (by simp) (.inr hn) he
    refine ⟨by simpa using h1,?_⟩
    intro i hi
    obtain ⟨e,hm,rfl⟩ := mem_map.mp hi
    exact h2 e hm
  cases headers with
  | nil => simp [computeInsertion] at h
  | cons _ _ =>
    simp only [computeInsertion,ok_iff] at h
    obtain ⟨_,tip,_,h⟩ := h
    split at h
    · obtain ⟨ext,he,hr⟩ := bind_eq_ok.mp h
      rw [pure_eq_ok] at hr
      subst hr
      exact key _ _ he (by simp)
    · split at h
      · simp at h
      · simp at h
      · simp only [ok_iff] at h
        obtain ⟨_,_,ext,he,_,_,_,hr⟩ := h
        subst hr
        exact key _ _ he (by simp)

theorem insertHeaders_cases {s s' : State} {msg : MsgInsertHeaders}
    {rb : Option RollBack} (h : insertHeaders L s msg = .ok (s',rb)) :
    ∃ base l, s' = l.foldl State.insertHeader base ∧ l ≠ [] ∧ (∀ i ∈ l, 0 < i.height) ∧
      ∀ k i, base.headers.get k = some i → s.headers.get k = some i := by
  simp only [insertHeaders,insertHeadersWithHookAndEvents,ok_iff] at h
  obtain ⟨_,_,_,_,result,hr,h⟩ := h
  obtain ⟨hn,hp⟩ := computeInsertion_heights hr
  split at h
  · rw [pure_eq_ok,Prod.mk.injEq] at h
    exact ⟨s,_,h.1.symm,hn,hp,fun _ _ hk => hk⟩
  · obtain ⟨_,_,h⟩ := bind_eq_ok.mp h
    rw [pure_eq_ok,Prod.mk.injEq] at h
    exact ⟨_,_,h.1.symm,hn,hp,fun _ _ hk => get_foldl_deleteHeader hk⟩

theorem insertHeaders_wf {s s' : State} {msg : MsgInsertHeaders}
    {rb : Option RollBack} (hs : s.WF) (h : insertHeaders L s msg = .ok (s',rb)) : s'.WF := by
  obtain ⟨base,l,rfl,hn, -,hb⟩ := insertHeaders_cases h
  constructor
  · intro k i hi
    rcases get_foldl_insertHeader hi with ⟨_,hk⟩ | hi
    · exact hk
    · exact hs.height_eq (hb k i hi)
  · obtain ⟨a,l,rfl⟩ := exists_cons_of_ne_nil hn
    have hsm := isSome_foldl_insertHeader (l := l) (s := base.insertHeader a) (k := a.height)
      (by simp [get_insertHeader])
    obtain ⟨i,hi⟩ := Option.isSome_iff_exists.mp hsm
    exact ⟨a.height,i,hi⟩

end AnonChain.BtcLightClient
