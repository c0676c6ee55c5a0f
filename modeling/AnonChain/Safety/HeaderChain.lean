import AnonChain.BtcLightClient
import AnonChain.Lib.BigEndian
import AnonChain.Lib.Listed
import AnonChain.Lib.Run

/-! The header store over whole runs, whatever headers are offered. -/

namespace AnonChain.BtcLightClient

open Lib List State Result
open KVStore (empty)
open BTCHeaderInfo (height hash toLocalInfo)
open LocalHeaderInfo (toBTCHeaderInfo)

def Links (L : BtcLib) (a b : BlockHeader) : Prop := b.prevBlock = L.blockHash a

/-- The hash gives none of the headers `H` the all-zero value, and no two of them that stand in one
chain the same value. -/
structure DistinctHashes (L : BtcLib) (H : Set BlockHeader) : Prop where
  nonzero : ∀ h ∈ H, L.blockHash h ≠ emptyHash
  acyclic : ∀ a l, (∀ b ∈ a :: l, b ∈ H) → (a :: l).IsChain (Links L) →
    ∀ b ∈ l, L.blockHash b ≠ L.blockHash a

structure Follows (L : BtcLib) (i j : BTCHeaderInfo) : Prop where
  prevBlock : j.header.prevBlock = i.hash
  hash : j.hash = L.blockHash j.header
  height : j.height = i.height+1
  work : j.work = i.work+L.calcHeaderWork j.header

section

variable {L : BtcLib} {H : Set BlockHeader} {i j base : BTCHeaderInfo} {l m : List BTCHeaderInfo}

theorem heights_increase (h : l.IsChain (Follows L)) :
    l.Pairwise (fun i j => i.height < j.height) := by
  have hl : (l.map height).IsChain (· < ·) := by
    rw [isChain_map]
    exact h.imp (fun i j hi => by rw [hi.height]; omega)
  exact pairwise_map.mp (isChain_iff_pairwise.mp hl)

theorem heights_nodup (h : l.IsChain (Follows L)) : (l.map height).Nodup :=
  pairwise_map.mpr ((heights_increase h).imp Nat.ne_of_lt)

theorem headers_link (hi : i.hash = L.blockHash i.header) (h : (i :: l).IsChain (Follows L)) :
    ((i :: l).map BTCHeaderInfo.header).IsChain (Links L) ∧
      ∀ j ∈ i :: l, j.hash = L.blockHash j.header := by
  induction l generalizing i with
  | nil => simp [hi]
  | cons j l ih =>
    obtain ⟨hij,hl⟩ := isChain_cons_cons.mp h
    obtain ⟨hln,hh⟩ := ih hij.hash hl
    constructor
    · rw [map_cons,map_cons,isChain_cons_cons]
      exact ⟨hij.prevBlock.trans hi,hln⟩
    · intro k hk
      cases hk with
      | head => exact hi
      | tail _ hk => exact hh k hk

theorem hashes_nodup (hL : DistinctHashes L H) (hi : i.hash = L.blockHash i.header)
    (hH : ∀ j ∈ i :: l, j.header ∈ H) (h : (i :: l).IsChain (Follows L)) :
    ((i :: l).map hash).Nodup := by
  induction l generalizing i with
  | nil => simp
  | cons j l ih =>
    obtain ⟨hij,hl⟩ := isChain_cons_cons.mp h
    obtain ⟨hln,hh⟩ := headers_link hi h
    rw [map_cons,nodup_cons]
    constructor
    · intro hm
      obtain ⟨k,hk,hki⟩ := mem_map.mp hm
      have hin : ∀ b ∈ i.header :: (j :: l).map BTCHeaderInfo.header, b ∈ H := by
        intro b hb
        rw [← map_cons] at hb
        obtain ⟨x,hx,rfl⟩ := mem_map.mp hb
        exact hH x hx
      apply hL.acyclic _ _ hin hln k.header (mem_map_of_mem hk)
      rw [← hi,← hki,hh k (mem_cons_of_mem i hk)]
    · exact ih hij.hash (fun k hk => hH k (mem_cons_of_mem i hk)) hl

theorem height_getElem {n : Nat} (h : (base :: l).IsChain (Follows L))
    (hn : (base :: l)[n]? = some i) : i.height = base.height+n := by
  induction n generalizing base l with
  | zero =>
    rw [getElem?_cons_zero,Option.some.injEq] at hn
    simp [hn]
  | succ n ih =>
    cases l with
    | nil => simp at hn
    | cons j l =>
      obtain ⟨hj,hl⟩ := isChain_cons_cons.mp h
      have := ih hl hn
      have := hj.height
      omega

theorem work_eq (h : (i :: l).IsChain (Follows L)) (hj : (i :: l).getLast? = some j) :
    j.work = i.work+((l.map BTCHeaderInfo.header).map L.calcHeaderWork).sum := by
  induction l generalizing i with
  | nil =>
    rw [getLast?_singleton,Option.some.injEq] at hj
    simp [hj]
  | cons k l ih =>
    obtain ⟨hi,hl⟩ := isChain_cons_cons.mp h
    rw [getLast?_cons_cons] at hj
    have hw := hi.work
    have hk := ih hl hj
    simp only [map_cons,sum_cons]
    omega

end

section

variable {L : BtcLib} {H : Set BlockHeader} {l : List BlockHeader}

theorem headersFormChainFrom_isChain (hL : DistinctHashes L H) {a : BlockHeader}
    (hH : ∀ b ∈ a :: l, b ∈ H) (h : headersFormChainFrom L (L.blockHash a) l = true) :
    (a :: l).IsChain (Links L) := by
  induction l generalizing a with
  | nil => simp
  | cons b l ih =>
    rw [headersFormChainFrom,if_neg (hL.nonzero a (hH a mem_cons_self))] at h
    split at h
    · simp at h
    · rename_i hp
      rw [isChain_cons_cons]
      exact ⟨not_not.mp hp,ih (fun d hd => hH d (mem_cons_of_mem a hd)) h⟩

theorem processNewHeadersChain_follows {s : State} {ext r : List LocalHeaderInfo}
    {parent : LocalHeaderInfo} (hln : (parent.header :: l).IsChain (Links L))
    (h : processNewHeadersChain L s ext parent l = .ok r) :
    ∃ new, r = ext ++ new ∧ new.map LocalHeaderInfo.header = l ∧
      ((parent :: new).map (toBTCHeaderInfo L)).IsChain (Follows L) := by
  induction l generalizing ext parent with
  | nil =>
    rw [processNewHeadersChain,Except.ok.injEq] at h
    exact ⟨[],by simp [h]⟩
  | cons b l ih =>
    simp only [processNewHeadersChain,ok_iff] at h
    obtain ⟨hp,hl⟩ := isChain_cons_cons.mp hln
    obtain ⟨new,hr,hle,hc⟩ := ih hl h.2
    refine ⟨_ :: new,by rw [hr,append_assoc,singleton_append],by rw [map_cons,hle],?_⟩
    rw [map_cons,map_cons,isChain_cons_cons]
    exact ⟨⟨hp,rfl,rfl,rfl⟩,hc⟩

theorem processNewHeadersChain_noPanic {s : State} {ext : List LocalHeaderInfo}
    {parent : LocalHeaderInfo} : (processNewHeadersChain L s ext parent l).NoPanic := by
  induction l generalizing ext parent with
  | nil => exact noPanic_pure _
  | cons b l ih => exact (noPanic_ensure (.inr (by simp))).bind (fun _ _ => ih)

end

section

variable {L : BtcLib} {s : State} {l m : List BTCHeaderInfo} {i t : BTCHeaderInfo}

/-- Both stores hold exactly the headers of `l`. -/
structure State.Tracks (s : State) (l : List BTCHeaderInfo) : Prop where
  headers : s.headers.Lists height id l
  hashToHeight : s.hashToHeight.Lists hash height l

structure Distinct (l : List BTCHeaderInfo) : Prop where
  heights : (l.map height).Nodup
  hashes : (l.map hash).Nodup

theorem Distinct.left (h : Distinct (l ++ m)) : Distinct l := by
  obtain ⟨h1,h2⟩ := h
  rw [map_append] at h1 h2
  exact ⟨h1.of_append_left,h2.of_append_left⟩

theorem State.Tracks.insertHeaders (h : s.Tracks l) (hd : Distinct (l ++ m)) :
    (m.foldl State.insertHeader s).Tracks (l ++ m) := by
  induction m generalizing s l with
  | nil => simpa using h
  | cons i m ih =>
    rw [append_cons] at hd ⊢
    have hi := hd.left
    exact ih ⟨h.headers.snoc hi.heights,h.hashToHeight.snoc hi.hashes⟩ hd

theorem State.Tracks.deleteHeaders (h : s.Tracks (l ++ m)) (hd : Distinct (l ++ m)) :
    (m.reverse.foldl State.deleteHeader s).Tracks l := by
  induction m using reverseRecOn generalizing s with
  | nil => simpa using h
  | append_singleton m i ih =>
    rw [← append_assoc] at h hd
    rw [reverse_append]
    exact ih ⟨h.headers.unsnoc hd.heights,h.hashToHeight.unsnoc hd.hashes⟩ hd.left

theorem headersAbove_eq {b : Bool} {r : List BTCHeaderInfo} (h : ∀ i ∈ m, t.height < i.height) :
    State.headersAbove t.height b (m ++ t :: r) = m := by
  induction m generalizing b with
  | nil => cases b <;> simp [headersAbove]
  | cons i m ih =>
    have hi := h i mem_cons_self
    rw [cons_append,headersAbove,if_neg (by omega),if_neg (by omega),
      ih (fun j hj => h j (mem_cons_of_mem i hj))]

theorem State.Tracks.values (h : s.Tracks l) (hl : l.IsChain (Follows L)) :
    s.headers.entries.map Prod.snd = l := by
  rw [h.headers.entries_eq (heights_increase hl),map_map]
  exact map_id l

theorem State.Tracks.rollBack (h : s.Tracks (l ++ t :: m)) (hl : (l ++ t :: m).IsChain (Follows L))
    (hd : Distinct (l ++ t :: m)) : (s.rollBackHeadersUpTo t.height).Tracks (l ++ [t]) := by
  have ha : ∀ i ∈ m.reverse, t.height < i.height := by
    have hin := (pairwise_append.mp (heights_increase hl)).2.1
    intro i hi
    exact (pairwise_cons.mp hin).1 i (mem_reverse.mp hi)
  rw [rollBackHeadersUpTo,h.values hl,reverse_append,reverse_cons,
    append_assoc,singleton_append,headersAbove_eq ha]
  rw [append_cons] at h hd
  exact h.deleteHeaders hd

theorem State.Tracks.getTip (h : s.Tracks l) (hl : l.IsChain (Follows L)) :
    s.getTip = l.getLast? := by rw [State.getTip,KVStore.last,← getLast?_map,h.values hl]

theorem State.Tracks.baseHeader (h : s.Tracks l) (hl : l.IsChain (Follows L)) :
    s.baseHeader = l.head? := by rw [State.baseHeader,KVStore.first,← head?_map,h.values hl]

theorem State.Tracks.getHeaderByHeight (h : s.Tracks l) {n : Nat} :
    s.headers.get n = some i ↔ i ∈ l ∧ i.height = n := by
  rw [h.headers n i]
  constructor
  · rintro ⟨j,hj,hn,rfl⟩
    exact ⟨hj,hn⟩
  · intro hi
    exact ⟨i,hi.1,hi.2,rfl⟩

theorem State.Tracks.getHeaderByHash (h : s.Tracks l) (x : Hash) :
    (∃ i ∈ l, i.hash = x ∧ s.getHeaderByHash x = .ok i) ∨
      s.getHeaderByHash x = .error (.err .ErrHeaderDoesNotExist
        "no header with provided hash") := by
  unfold State.getHeaderByHash
  cases hx : s.hashToHeight.get x with
  | none => exact .inr rfl
  | some n =>
    obtain ⟨i,hi,hix,rfl⟩ := (h.hashToHeight x n).mp hx
    have hg := h.getHeaderByHeight.mpr ⟨hi,rfl⟩
    exact .inl ⟨i,hi,hix,by simp [hg]⟩

end

section

variable {L : BtcLib} {H : Set BlockHeader} {base : BTCHeaderInfo} {s s' : State}
variable {l : List BTCHeaderInfo} {headers : List BlockHeader}

/-- The store is the chain `l` of headers in `H`, which starts at the base header. -/
structure State.OnChain (L : BtcLib) (H : Set BlockHeader) (base : BTCHeaderInfo) (s : State)
    (l : List BTCHeaderInfo) : Prop where
  tracks : s.Tracks l
  chain : l.IsChain (Follows L)
  head : l.head? = some base
  base_hash : base.hash = L.blockHash base.header
  within : ∀ i ∈ l, i.header ∈ H

theorem State.OnChain.hash_eq (h : s.OnChain L H base l) {i : BTCHeaderInfo} (hi : i ∈ l) :
    i.hash = L.blockHash i.header := by
  obtain ⟨m,rfl⟩ := head?_eq_some_iff.mp h.head
  exact (headers_link h.base_hash h.chain).2 i hi

theorem State.OnChain.height_getElem (h : s.OnChain L H base l) {k : Nat} {i : BTCHeaderInfo}
    (hk : l[k]? = some i) : i.height = base.height+k := by
  obtain ⟨m,rfl⟩ := head?_eq_some_iff.mp h.head
  exact BtcLightClient.height_getElem h.chain hk

theorem State.OnChain.distinct (hL : DistinctHashes L H) (h : s.OnChain L H base l) :
    Distinct l := by
  obtain ⟨m,rfl⟩ := head?_eq_some_iff.mp h.head
  exact ⟨heights_nodup h.chain,hashes_nodup hL h.base_hash h.within h.chain⟩

theorem State.OnChain.getTip (h : s.OnChain L H base l) :
    ∃ m tip, l = m ++ [tip] ∧ s.getTip = some tip := by
  obtain ⟨m,rfl⟩ := head?_eq_some_iff.mp h.head
  obtain ⟨tip,ht⟩ := Option.ne_none_iff_exists'.mp
    (mt getLast?_eq_none_iff.mp (cons_ne_nil base m))
  obtain ⟨k,hk⟩ := getLast?_eq_some_iff.mp ht
  exact ⟨k,tip,hk,(h.tracks.getTip h.chain).trans ht⟩

/-- The work of the tip before and after headers are inserted: it grows exactly if there was a
rollback or some header has done some work. -/
structure TipWork (L : BtcLib) (headers : List BlockHeader) (rolledBack : Prop)
    (tip top : BTCHeaderInfo) : Prop where
  le : tip.work ≤ top.work
  lt_iff : tip.work < top.work ↔ rolledBack ∨ ∃ h ∈ headers, 0 < L.calcHeaderWork h

theorem TipWork.of_follows {tip top : BTCHeaderInfo} (h : (tip :: l).IsChain (Follows L))
    (ht : (tip :: l).getLast? = some top) :
    TipWork L (l.map BTCHeaderInfo.header) False tip top := by
  have hw := work_eq h ht
  refine ⟨by omega,?_⟩
  rw [false_or,hw,Nat.lt_add_right_iff_pos,Nat.pos_iff_ne_zero,ne_eq,sum_eq_zero_iff]
  simp [Nat.pos_iff_ne_zero]

/-- Headers that form a chain and pass the checks against the stored header `p` follow it. -/
theorem State.OnChain.extension_follows (hL : DistinctHashes L H) (h : s.OnChain L H base l)
    {first : BlockHeader} {p : BTCHeaderInfo} {ext : List LocalHeaderInfo} (hp : p ∈ l)
    (hH : ∀ h ∈ first :: headers, h ∈ H) (hf : headersFormChain L (first :: headers) = true)
    (hpr : first.prevBlock = p.hash)
    (he : processNewHeadersChain L s [] p.toLocalInfo (first :: headers) = .ok ext) :
    ext ≠ [] ∧ (p :: ext.map (toBTCHeaderInfo L)).IsChain (Follows L) ∧
      (ext.map (toBTCHeaderInfo L)).map BTCHeaderInfo.header = first :: headers := by
  have hln : (p.header :: first :: headers).IsChain (Links L) := by
    rw [isChain_cons_cons]
    exact ⟨hpr.trans (h.hash_eq hp),headersFormChainFrom_isChain hL hH hf⟩
  obtain ⟨new,rfl,hle,hch⟩ := processNewHeadersChain_follows hln he
  have hsl : p.toLocalInfo.toBTCHeaderInfo L = p := by
    simp [toLocalInfo,toBTCHeaderInfo,← h.hash_eq hp]
  rw [map_cons,hsl] at hch
  refine ⟨?_,hch,by rw [map_map]; exact hle⟩
  intro hn
  simp [hn] at hle

/-- Headers that pass every check continue a stored header `p`, and the headers above `p` are rolled
back. -/
theorem computeInsertion_follows (hL : DistinctHashes L H) (h : s.OnChain L H base l)
    {r : InsertResult} (hH : ∀ h ∈ headers, h ∈ H) (hc : computeInsertion L s headers = .ok r) :
    ∃ l₁ p l₂, l = l₁ ++ p :: l₂ ∧ (p :: r.headersToInsert).IsChain (Follows L) ∧
      r.headersToInsert.map BTCHeaderInfo.header = headers ∧
      (r.rollbackTo = none ∧ l₂ = [] ∨ r.rollbackTo = some p ∧ l₂ ≠ []) ∧
      ∃ tip top, s.getTip = some tip ∧ r.headersToInsert.getLast? = some top ∧
        TipWork L headers (r.rollbackTo ≠ none) tip top := by
  obtain ⟨m,tip,hl,hti⟩ := h.getTip
  cases headers with
  | nil => simp [computeInsertion] at hc
  | cons first _ =>
    simp only [computeInsertion,ok_iff,hti,Option.some.injEq,exists_eq_left'] at hc
    obtain ⟨hf,hc⟩ := hc
    split at hc
    · rename_i hpr
      obtain ⟨ext,he,hr⟩ := bind_eq_ok.mp hc
      rw [pure_eq_ok] at hr
      subst hr
      have hm : tip ∈ l := by simp [hl]
      obtain ⟨hne,hch,hhs⟩ := h.extension_follows hL hm hH hf (hpr.trans (h.hash_eq hm).symm) he
      obtain ⟨top,htp⟩ := Option.ne_none_iff_exists'.mp (mt getLast?_eq_none_iff.mp hne)
      have hlt : (ext.map (toBTCHeaderInfo L)).getLast? =
          some (top.toBTCHeaderInfo L) := by rw [getLast?_map,htp,Option.map_some]
      have hw := TipWork.of_follows hch (by rw [getLast?_cons,hlt,Option.getD_some])
      rw [hhs] at hw
      exact ⟨m,tip,[],hl,hch,hhs,.inl ⟨rfl,rfl⟩,tip,top.toBTCHeaderInfo L,hti,hlt,hw.le,
        by simpa using hw.lt_iff⟩
    · rename_i hfr
      split at hc
      · simp at hc
      · simp at hc
      · simp only [ok_iff] at hc
        obtain ⟨p,hp,ext,he,top,htp,hw,hr⟩ := hc
        subst hr
        rcases h.tracks.getHeaderByHash first.prevBlock with ⟨i,hi,hpr,hg⟩ | hg
        · rw [hg,Except.ok.injEq] at hp
          subst hp
          obtain ⟨-,hch,hhs⟩ := h.extension_follows hL hi hH hf hpr.symm he
          obtain ⟨l₁,l₂,hs⟩ := append_of_mem hi
          -- the parent is below the tip, since the headers do not extend the tip
          have hb : l₂ ≠ [] := by
            intro hn
            subst hn
            obtain ⟨-,ht⟩ := append_inj' (hl.symm.trans hs) rfl
            rw [singleton_inj.mp ht,← h.hash_eq hi] at hfr
            exact hfr hpr.symm
          refine ⟨l₁,i,l₂,hs,hch,hhs,.inr ⟨rfl,hb⟩,tip,top.toBTCHeaderInfo L,hti,?_,
            le_of_lt hw,iff_of_true hw (.inl (by simp))⟩
          rw [getLast?_map,htp,Option.map_some]
        · simp [hg] at hp

theorem insertHeaders_onChain (hL : DistinctHashes L H) (h : s.OnChain L H base l)
    {msg : MsgInsertHeaders} {rb : Option RollBack} (hH : ∀ h ∈ msg.headers, h ∈ H)
    (hm : insertHeaders L s msg = .ok (s',rb)) :
    ∃ l', s'.OnChain L H base l' ∧ ∃ tip top, s.getTip = some tip ∧ s'.getTip = some top ∧
      TipWork L msg.headers (rb ≠ none) tip top := by
  simp only [insertHeaders,insertHeadersWithHookAndEvents,ok_iff] at hm
  obtain ⟨_,_,_,_,r,hr,hm⟩ := hm
  obtain ⟨l₁,p,l₂,hl,hn,hhs,hb,tip,top,hti,htp,hw⟩ := computeInsertion_follows hL h hH hr
  subst hl
  obtain ⟨s₁,ht,hs',hrb⟩ : ∃ s₁ : State, s₁.Tracks (l₁ ++ [p]) ∧
      s' = r.headersToInsert.foldl insertHeader s₁ ∧ (rb ≠ none ↔ r.rollbackTo ≠ none) := by
    rcases hb with ⟨hnn,hl₂⟩ | ⟨hsm, -⟩
    · simp only [hnn,pure_eq_ok,Prod.mk.injEq] at hm
      subst hl₂
      exact ⟨s,h.tracks,hm.1.symm,by simp [← hm.2,hnn]⟩
    · simp only [hsm,ok_iff,Prod.mk.injEq] at hm
      obtain ⟨_,_,hm,hrb⟩ := hm
      exact ⟨_,h.tracks.rollBack h.chain (h.distinct hL),hm.symm,by simp [← hrb,hsm]⟩
  have hc : (l₁ ++ p :: r.headersToInsert).IsChain (Follows L) :=
    isChain_split.mpr ⟨(isChain_split.mp h.chain).1,hn⟩
  have hh : (l₁ ++ p :: r.headersToInsert).head? = some base := by
    have := h.head
    rw [head?_append] at this ⊢
    exact this
  have hin : ∀ i ∈ l₁ ++ p :: r.headersToInsert, i.header ∈ H := by
    intro i hi
    rw [append_cons,mem_append] at hi
    rcases hi with hold | hnew
    · refine h.within i ?_
      simp only [mem_append,mem_cons] at hold ⊢
      grind
    · exact hH _ (hhs ▸ mem_map_of_mem hnew)
  have hd : Distinct (l₁ ++ p :: r.headersToInsert) := by
    obtain ⟨k,hk⟩ := head?_eq_some_iff.mp hh
    rw [hk] at hc hin ⊢
    exact ⟨heights_nodup hc,hashes_nodup hL h.base_hash hin hc⟩
  have ho : s'.OnChain L H base (l₁ ++ p :: r.headersToInsert) := by
    refine ⟨?_,hc,hh,h.base_hash,hin⟩
    rw [append_cons] at hd ⊢
    rw [hs']
    exact ht.insertHeaders hd
  refine ⟨_,ho,tip,top,hti,?_,hw.le,by rw [hrb]; exact hw.lt_iff⟩
  rw [ho.tracks.getTip hc,getLast?_append,getLast?_cons,htp]
  rfl

theorem computeInsertion_noPanic (h : s.OnChain L H base l) :
    (computeInsertion L s headers).NoPanic := by
  have hf : ∀ x t, s.getHeaderByHash x ≠ .error (.panic t) := by
    intro x t ht
    rcases h.tracks.getHeaderByHash x with ⟨i,_,_,hg⟩ | hg <;> simp [hg] at ht
  cases headers with
  | nil => simp [computeInsertion,Result.NoPanic]
  | cons _ _ =>
    refine (noPanic_ensure (.inr (by simp))).bind (fun _ _ => ?_)
    refine (noPanic_orFail (.inr (by simp))).bind (fun tip _ => ?_)
    split
    · exact processNewHeadersChain_noPanic.bind (fun _ _ => noPanic_pure _)
    · split
      · simp [Result.NoPanic]
      · rename_i t ht
        exact absurd ht (hf _ t)
      · refine (Result.NoPanic.wrap (hf _) (by simp)).bind (fun p _ => ?_)
        refine processNewHeadersChain_noPanic.bind (fun ext he => ?_)
        -- the extension is as long as the message, so its last header exists
        have hn := (processNewHeadersChain_heights (by simp) (.inr (by simp)) he).1
        have hl := Option.ne_none_iff_exists'.mp (mt getLast?_eq_none_iff.mp hn)
        refine (noPanic_orFail (.inl hl)).bind (fun _ _ => ?_)
        exact (noPanic_ensure (.inr (by simp))).bind (fun _ _ => noPanic_pure _)

theorem insertHeaders_noPanic (hL : DistinctHashes L H) (h : s.OnChain L H base l)
    {msg : MsgInsertHeaders} (hH : ∀ h ∈ msg.headers, h ∈ H) : (insertHeaders L s msg).NoPanic := by
  refine (noPanic_orFail (.inr (by simp))).bind (fun _ _ => ?_)
  refine (noPanic_ensure (.inr (by simp))).bind (fun _ _ => ?_)
  refine (noPanic_ensure (.inr (by simp))).bind (fun _ _ => ?_)
  refine (computeInsertion_noPanic h).bind (fun r hr => ?_)
  obtain ⟨l₁,p,l₂,rfl, -, -,hbc,tip, -,htp, -⟩ := computeInsertion_follows hL h hH hr
  rcases hbc with ⟨hn, -⟩ | ⟨hs,hb⟩
  · simp only [hn]
    exact noPanic_pure _
  · have hl : p.height < tip.height := by
      rw [h.tracks.getTip h.chain,getLast?_append,getLast?_cons,getLast?_eq_some_getLast hb] at htp
      have hi := (pairwise_append.mp (heights_increase h.chain)).2.1
      apply (pairwise_cons.mp hi).1
      rw [← Option.some.inj htp]
      exact getLast_mem hb
    simp only [hs]
    refine Result.NoPanic.bind ?_ (fun _ _ => noPanic_pure _)
    refine (noPanic_orFail (.inl ⟨tip,htp⟩)).bind (fun t ht => ?_)
    rw [orFail_eq_ok,htp,Option.some.injEq] at ht
    subst ht
    exact (noPanic_ensure (.inl hl)).bind (fun _ _ => noPanic_pure _)

end

section

variable {L : BtcLib} {H : Set BlockHeader} {base : BTCHeaderInfo} {s : State}

def baseState (base : BTCHeaderInfo) (allowList : List AccAddress) : State :=
  State.insertHeader ⟨KVStore.empty,KVStore.empty,allowList⟩ base

/-- The light client under any sequence of messages that insert headers of `H`; a failed one leaves
no trace. -/
def lightClient (L : BtcLib) (H : Set BlockHeader) (base : BTCHeaderInfo) :
    System State MsgInsertHeaders where
  init s := base.header ∈ H ∧ base.hash = L.blockHash base.header ∧
    ∃ allowList, s = baseState base allowList
  step s msg s' := (∀ h ∈ msg.headers, h ∈ H) ∧
    ((∃ rb, insertHeaders L s msg = .ok (s',rb)) ∨ (∃ e, insertHeaders L s msg = .error e) ∧ s' = s)

theorem baseState_onChain (hin : base.header ∈ H) (hb : base.hash = L.blockHash base.header)
    (allowList : List AccAddress) : (baseState base allowList).OnChain L H base [base] := by
  have he : (mk empty empty allowList).Tracks [] :=
    ⟨by simp [KVStore.Lists],by simp [KVStore.Lists]⟩
  exact ⟨he.insertHeaders (m := [base]) ⟨by simp,by simp⟩,.singleton base,rfl,hb,by simpa using hin⟩

theorem reachable_onChain (hL : DistinctHashes L H) (h : (lightClient L H base).Reachable s) :
    ∃ l, s.OnChain L H base l := by
  induction h with
  | init h0 =>
    obtain ⟨hin,hb,allowList,rfl⟩ := h0
    exact ⟨[base],baseState_onChain hin hb allowList⟩
  | step _ hs ih =>
    obtain ⟨l,hl⟩ := ih
    rcases hs with ⟨hH,⟨rb,ho⟩ | ⟨-,rfl⟩⟩
    · obtain ⟨l',hl', -⟩ := insertHeaders_onChain hL hl hH ho
      exact ⟨l',hl'⟩
    · exact ⟨l,hl⟩

/-- The stored headers are one chain from the base header to the tip, and the hash index is the
inverse of the header store. -/
structure State.HeaderChain (L : BtcLib) (base : BTCHeaderInfo) (s : State) : Prop where
  base_eq : s.baseHeader = some base
  contiguous : ∃ tip, s.getTip = some tip ∧
    ∀ n, (∃ i, s.headers.get n = some i) ↔ base.height ≤ n ∧ n ≤ tip.height
  own : ∀ n i, s.headers.get n = some i → i.height = n ∧ i.hash = L.blockHash i.header
  parent : ∀ n i j, s.headers.get n = some i → s.headers.get (n+1) = some j →
    j.header.prevBlock = i.hash ∧ j.work = i.work+L.calcHeaderWork j.header
  index : ∀ x n, s.hashToHeight.get x = some n ↔ ∃ i, s.headers.get n = some i ∧ i.hash = x

theorem State.OnChain.headerChain {l : List BTCHeaderInfo} (h : s.OnChain L H base l) :
    s.HeaderChain L base := by
  -- the header at height `base.height + n` is the `n`-th of the list
  have hp : ∀ {n i}, s.headers.get n = some i → ∃ k, l[k]? = some i ∧ n = base.height+k := by
    intro n i hi
    obtain ⟨hmm,rfl⟩ := h.tracks.getHeaderByHeight.mp hi
    obtain ⟨k,hk⟩ := mem_iff_getElem?.mp hmm
    exact ⟨k,hk,h.height_getElem hk⟩
  constructor
  · rw [h.tracks.baseHeader h.chain,h.head]
  · obtain ⟨k,tip,hk,htp⟩ := h.getTip
    have hl : l[k.length]? = some tip := by simp [hk]
    have ht := h.height_getElem hl
    refine ⟨tip,htp,?_⟩
    intro n
    constructor
    · rintro ⟨i,hi⟩
      obtain ⟨q,hq,rfl⟩ := hp hi
      have := (List.getElem?_eq_some_iff.mp hq).1
      simp only [hk,List.length_append,List.length_singleton] at this
      omega
    · intro hn
      have hlt : n-base.height < l.length := by
        simp only [hk,List.length_append,List.length_singleton]
        omega
      have hi := h.height_getElem (getElem?_eq_getElem hlt)
      rw [Nat.add_sub_cancel' hn.1] at hi
      exact ⟨_,h.tracks.getHeaderByHeight.mpr ⟨getElem_mem hlt,hi⟩⟩
  · intro n i hi
    obtain ⟨hmm,hn⟩ := h.tracks.getHeaderByHeight.mp hi
    exact ⟨hn,h.hash_eq hmm⟩
  · intro n i j hi hj
    obtain ⟨k,hk,rfl⟩ := hp hi
    obtain ⟨q,hq,hkq⟩ := hp hj
    obtain rfl : q = k+1 := by omega
    obtain ⟨hlt,rfl⟩ := List.getElem?_eq_some_iff.mp hk
    obtain ⟨hlt',rfl⟩ := List.getElem?_eq_some_iff.mp hq
    have hf := isChain_iff_getElem.mp h.chain k hlt'
    exact ⟨hf.prevBlock,hf.work⟩
  · intro x n
    rw [h.tracks.hashToHeight x n]
    constructor
    · rintro ⟨i,hi,hx,hn⟩
      exact ⟨i,h.tracks.getHeaderByHeight.mpr ⟨hi,hn⟩,hx⟩
    · rintro ⟨i,hi,hx⟩
      obtain ⟨hmm,hn⟩ := h.tracks.getHeaderByHeight.mp hi
      exact ⟨i,hmm,hx,hn⟩

/-- With hashes apart on the headers of the run, the store is one chain from the unchanged base
header; a message that succeeds never lowers the work of the tip, and raises it exactly if it rolls
back or brings a header with some work; one that fails does not panic and changes nothing. -/
theorem headerChain_reachable (hL : DistinctHashes L H) (h : (lightClient L H base).Reachable s) :
    s.HeaderChain L base ∧
      ∀ msg s', (lightClient L H base).step s msg s' →
        (∀ rb, insertHeaders L s msg = .ok (s',rb) → ∃ tip top, s.getTip = some tip ∧
          s'.getTip = some top ∧ TipWork L msg.headers (rb ≠ none) tip top) ∧
        (∀ e, insertHeaders L s msg = .error e → s' = s ∧ ∀ t, e ≠ .panic t) := by
  obtain ⟨l,hl⟩ := reachable_onChain hL h
  refine ⟨hl.headerChain,?_⟩
  rintro msg s' ⟨hH,hst⟩
  constructor
  · intro rb ho
    obtain ⟨_, -,hw⟩ := insertHeaders_onChain hL hl hH ho
    exact hw
  · intro e he
    refine ⟨?_,fun t ht => insertHeaders_noPanic hL hl hH t (ht ▸ he)⟩
    rcases hst with ⟨rb,ho⟩ | ⟨-,hs⟩
    · simp [he] at ho
    · exact hs

end

namespace Numbered

def lib : BtcLib where
  txHash _ := emptyHash
  doubleHash _ := emptyHash
  blockHash h := writeBE 32 h.nonce
  calcHeaderWork h := h.bits
  checkHeader _ _ _ := true

/-- Each header links to a smaller number. -/
def headers : Set BlockHeader :=
  { h | h.nonce < 256^32 ∧ ∃ n < h.nonce, h.prevBlock = writeBE 32 n }

theorem nonce_lt {a b : BlockHeader} {l : List BlockHeader} (hin : ∀ x ∈ a :: l, x ∈ headers)
    (hl : (a :: l).IsChain (Links lib)) (hb : b ∈ l) : a.nonce < b.nonce := by
  induction l generalizing a with
  | nil => simp at hb
  | cons d l ih =>
    obtain ⟨ha,hl'⟩ := isChain_cons_cons.mp hl
    have hd : a.nonce < d.nonce := by
      obtain ⟨hn,n,hlt,hp⟩ := hin d (by simp)
      have he := congrArg readBE (hp.symm.trans ha)
      rw [readBE_writeBE (hlt.trans hn),lib,readBE_writeBE (hin a mem_cons_self).1] at he
      rwa [← he]
    cases hb with
    | head => exact hd
    | tail _ hb => exact hd.trans (ih (fun x hx => hin x (mem_cons_of_mem a hx)) hl' hb)

theorem distinctHashes : DistinctHashes lib headers where
  nonzero h hh he := by
    obtain ⟨hn,n,hlt, -⟩ := hh
    have hz := congrArg readBE (he.trans (show emptyHash = writeBE 32 0 by decide))
    rw [lib,readBE_writeBE hn,readBE_writeBE (by decide)] at hz
    omega
  acyclic a l hin hl b hb he := by
    have hlt := nonce_lt hin hl hb
    have hn := congrArg readBE he
    rw [lib,readBE_writeBE (hin a mem_cons_self).1,
      readBE_writeBE (hin b (mem_cons_of_mem a hb)).1] at hn
    omega

def header (number parent bits : Nat) : BlockHeader := ⟨1,writeBE 32 parent,[],0,bits,number⟩

theorem header_mem {number parent bits : Nat} (hn : number < 256^32) (hp : parent < number) :
    header number parent bits ∈ headers := ⟨hn,parent,hp,rfl⟩

def base : BTCHeaderInfo := ⟨header 1 0 2,writeBE 32 1,2016,2⟩

/-- Two headers, and then a fork of three from the base. -/
def fork : Result State := do
  let (s,_) ← insertHeaders lib (baseState base []) ⟨some [1],[header 2 1 2,header 3 2 2]⟩
  let (s,_) ← insertHeaders lib s ⟨some [1],[header 4 1 2,header 5 4 2,header 6 5 2]⟩
  pure s

theorem fork_reachable {s : State} (h : fork = .ok s) :
    (lightClient lib headers base).Reachable s := by
  simp only [fork,ok_iff] at h
  obtain ⟨⟨s₁,rb₁⟩,h1,⟨s₂,rb₂⟩,h2,rfl⟩ := h
  have hm : ∀ h ∈ [header 2 1 2,header 3 2 2] ++ [header 4 1 2,header 5 4 2,header 6 5 2],
      h ∈ headers := by
    simp only [cons_append,nil_append,forall_mem_cons]
    exact ⟨header_mem (by decide) (by decide),header_mem (by decide) (by decide),
      header_mem (by decide) (by decide),header_mem (by decide) (by decide),
      header_mem (by decide) (by decide),by simp⟩
  have hi : (lightClient lib headers base).Reachable (baseState base []) :=
    .init ⟨header_mem (by decide) (by decide),rfl,[],rfl⟩
  exact (hi.step ⟨fun h hh => hm h (mem_append_left _ hh),.inl ⟨rb₁,h1⟩⟩).step
    ⟨fun h hh => hm h (mem_append_right _ hh),.inl ⟨rb₂,h2⟩⟩

end Numbered

open Numbered in
theorem headerChain_reachable_fork :
    ∃ s tip, fork = .ok s ∧ s.getTip = some tip ∧ tip.height = 2019 ∧ tip.work = 8 ∧
      s.HeaderChain lib base := by
  have hr : holds fork (fun s => s.getTip.any (fun tip => tip.height == 2019 && tip.work == 8)) =
      true := by decide +kernel
  obtain ⟨s,hs,ht⟩ := holds_iff.mp hr
  simp only [Option.any_eq_true,Bool.and_eq_true,beq_iff_eq] at ht
  obtain ⟨tip,htp,hh,hw⟩ := ht
  exact ⟨s,tip,hs,htp,hh,hw,(headerChain_reachable distinctHashes (fork_reachable hs)).1⟩

open Numbered in
/-- A header without work that the checks let pass extends the tip, whose work stays the same. -/
theorem workless_header_accepted : ∃ s' tip top, (baseState base []).getTip = some tip ∧
    (lightClient lib headers base).Reachable (baseState base []) ∧
    insertHeaders lib (baseState base []) ⟨some [1],[header 2 1 0]⟩ = .ok (s',none) ∧
    s'.getTip = some top ∧ top.height = tip.height+1 ∧ top.work = tip.work :=
  ⟨_,base,_,rfl,.init ⟨header_mem (by decide) (by decide),rfl,[],rfl⟩,rfl,rfl,rfl,rfl⟩

end AnonChain.BtcLightClient
