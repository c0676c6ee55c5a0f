import AnonChain.Monitor.Scanner

/-! The confirmed blocks of the scanner are the chain from the base height on, each emitted once. -/

namespace AnonChain.Monitor

open Lib List Option
open BtcScanner (sendConfirmedBlocksToChan loop confirmAt cacheAt subUint32 addUint32 new)

variable {N : Network} {bs bs' : BtcScanner N} {node : Node N}
  {chain ch : List N.Header} {i a : Nat}

abbrev OnChain (ch : List N.Header) (a : Nat) (blocks : List (IndexedBlock N)) : Prop :=
  Along IndexedBlock.height IndexedBlock.header ch a blocks

theorem BTCCache.add_spec {b : BTCCache N} {h : N.Header} (hb : OnChain ch a b.blocks)
    (hi : a+b.blocks.length = i) (hc : ch[i]? = some h) :
    ∃ a', OnChain ch a' (b.add ⟨i,h⟩).blocks ∧ a'+(b.add ⟨i,h⟩).blocks.length = i+1 ∧
      (b.add ⟨i,h⟩).blocks.length = min (b.blocks.length+1) b.maxEntries ∧
      (b.add ⟨i,h⟩).maxEntries = b.maxEntries ∧ (b.blocks.length < b.maxEntries → a' = a) := by
  have hl := b.bounded
  have hp := b.maxEntries_pos
  have hg : OnChain ch a (b.blocks ++ [⟨i,h⟩]) :=
    along_append.mpr ⟨hb,by rw [hi],by rw [hi]; exact hc,trivial⟩
  unfold add
  split
  case isTrue hf =>
    -- the first block is dropped
    obtain ⟨x,blocks,hbl⟩ := exists_cons_of_ne_nil
      (ne_nil_of_length_pos (by omega : 0 < b.blocks.length))
    have ht : b.blocks.tail = blocks := by rw [hbl,tail_cons]
    rw [hbl] at hg
    refine ⟨a+1,?_,?_,?_,rfl,by omega⟩
    · change OnChain ch (a+1) (b.blocks.tail ++ [⟨i,h⟩])
      rw [ht]
      exact hg.2.2
    · simp only [length_append,length_singleton,length_tail]
      omega
    · simp only [length_append,length_singleton,length_tail]
      omega
  case isFalse hr =>
    refine ⟨a,hg,?_,?_,rfl,fun _ => rfl⟩
    · simp only [length_append,length_singleton]
      omega
    · simp only [length_append,length_singleton]
      omega

theorem send_nil (bs : BtcScanner N) : bs.sendConfirmedBlocksToChan [] = bs := by
  simp [sendConfirmedBlocksToChan]

theorem send_send (bs : BtcScanner N) (l l' : List (IndexedBlock N)) :
    (bs.sendConfirmedBlocksToChan l).sendConfirmedBlocksToChan l' =
      bs.sendConfirmedBlocksToChan (l ++ l') := by
  simp [sendConfirmedBlocksToChan,getLast?_append,Option.or_assoc]

/-- The confirmed blocks reach up to a height of the chain. -/
def TipAt (chain : List N.Header) (bs : BtcScanner N) (i : Nat) : Prop :=
  ∀ tip ∈ bs.confirmedTipBlock, tip.height+1 = i ∧ chain[tip.height]? = some tip.header

theorem loop_confirmAt {count : Nat} (hs : ∀ i, node.blockByHeight i = chain[i]?)
    (hl : Linked N.blockHash N.prevBlock chain) (ht : TipAt chain bs i)
    (hi : i+count ≤ chain.length) :
    ∃ blocks, loop (confirmAt node) count i bs = .ok (bs.sendConfirmedBlocksToChan blocks) ∧
      blocks.length = count ∧ OnChain chain i blocks := by
  induction count generalizing i bs with
  | zero =>
    refine ⟨[],?_,rfl,trivial⟩
    rw [send_nil]
    rfl
  | succ _ ih =>
    obtain ⟨h,hg⟩ : ∃ h, chain[i]? = some h := ⟨_,List.getElem?_eq_getElem (by omega)⟩
    have hln : ∀ tip ∈ bs.confirmedTipBlock, N.blockHash tip.header = N.prevBlock h := by
      intro tip hm
      obtain ⟨hhg,hh⟩ := ht tip hm
      rw [← hhg] at hg
      exact (hl tip.height _ _ hh hg).symm
    have hr : confirmAt node bs i = .ok (bs.sendConfirmedBlocksToChan [⟨i,h⟩]) := by
      simp only [confirmAt,hs,hg,orFail,ensure,if_pos hln,ok_bind]
      rfl
    have ht' : TipAt chain (bs.sendConfirmedBlocksToChan [⟨i,h⟩]) (i+1) := by
      intro tip hm
      cases hm
      exact ⟨rfl,hg⟩
    obtain ⟨blocks,hlp,hle,hb⟩ := ih ht' (by omega)
    refine ⟨⟨i,h⟩ :: blocks,?_,by rw [length_cons,hle],rfl,hg,hb⟩
    rw [loop,hr,ok_bind,hlp,send_send]
    rfl

theorem loop_cacheAt {count : Nat} (hs : ∀ i, node.blockByHeight i = chain[i]?)
    (hl : Linked N.blockHash N.prevBlock chain)
    (hc : OnChain chain a bs.unconfirmedBlockCache.blocks)
    (ha : a+bs.unconfirmedBlockCache.blocks.length = i) (hi : i+count ≤ chain.length) :
    ∃ cache a', loop (cacheAt node) count i bs = .ok { bs with unconfirmedBlockCache := cache } ∧
      cache.maxEntries = bs.unconfirmedBlockCache.maxEntries ∧
      cache.blocks.length =
        min (bs.unconfirmedBlockCache.blocks.length+count) bs.unconfirmedBlockCache.maxEntries ∧
      OnChain chain a' cache.blocks ∧ a'+cache.blocks.length = i+count := by
  induction count generalizing i a bs with
  | zero =>
    have hle := bs.unconfirmedBlockCache.bounded
    exact ⟨bs.unconfirmedBlockCache,a,rfl,rfl,by omega,hc,ha⟩
  | succ _ ih =>
    obtain ⟨h,hg⟩ : ∃ h, chain[i]? = some h := ⟨_,List.getElem?_eq_getElem (by omega)⟩
    have hln : ∀ tip ∈ bs.unconfirmedBlockCache.tip, N.blockHash tip.header = N.prevBlock h := by
      intro tip hmm
      obtain ⟨hhg,hh⟩ := hc.getLast hmm
      rw [← ha,← hhg] at hg
      exact (hl tip.height _ _ hh hg).symm
    have hr : cacheAt node bs i =
        .ok { bs with unconfirmedBlockCache := bs.unconfirmedBlockCache.add ⟨i,h⟩ } := by
      simp only [cacheAt,hs,hg,orFail,ensure,if_pos hln,ok_bind]
      rfl
    obtain ⟨a',hc',ha',hlen',hm', -⟩ := BTCCache.add_spec hc ha hg
    obtain ⟨cache,a'',hlp,hm,hlen,ho,he⟩ :=
      @ih { bs with unconfirmedBlockCache := bs.unconfirmedBlockCache.add ⟨i,h⟩ } _ _
        hc' ha' (by omega)
    refine ⟨cache,a'',?_,hm.trans hm',?_,ho,by omega⟩
    · rw [loop,hr,ok_bind,hlp]
    · rw [hlen,hlen',hm']
      omega

theorem bootstrap_eq {best : Nat} (hb : node.bestBlock = some best) :
    bs.bootstrap node = (loop (confirmAt node)
      (subUint32 best bs.k+1-bs.firstUnconfirmedHeight) bs.firstUnconfirmedHeight
      { bs with unconfirmedBlockCache := bs.unconfirmedBlockCache.removeAll } >>= fun emitting =>
        loop (cacheAt node)
          (best+1-addUint32 (subUint32 best bs.k) 1)
          (addUint32 (subUint32 best bs.k) 1) emitting) := by
  have hbn : ∀ {β : Type} (e : Failure) (f : Nat → Result β), (orFail (some best) e >>= f) =
      f best := fun _ _ => rfl
  rw [BtcScanner.bootstrap,hb,hbn]

/-- A bootstrap emits the chain up to the last confirmed height and caches the rest. -/
theorem bootstrap_spec (hsr : node.Serves chain) (hln : Linked N.blockHash N.prevBlock chain)
    (hle : chain.length ≤ 2^31) (ht : TipAt chain bs bs.firstUnconfirmedHeight)
    (hk : bs.k < chain.length) (hf : bs.firstUnconfirmedHeight+bs.k ≤ chain.length) :
    ∃ blocks cache a, bs.bootstrap node =
      .ok { bs.sendConfirmedBlocksToChan blocks with unconfirmedBlockCache := cache } ∧
      bs.firstUnconfirmedHeight+blocks.length+bs.k = chain.length ∧
      OnChain chain bs.firstUnconfirmedHeight blocks ∧ OnChain chain a cache.blocks ∧
      a+cache.blocks.length = chain.length ∧
      cache.maxEntries = bs.unconfirmedBlockCache.maxEntries ∧
      cache.blocks.length = min bs.k bs.unconfirmedBlockCache.maxEntries := by
  obtain ⟨hbs,hb⟩ := hsr
  -- the subtraction does not wrap around
  have hc : subUint32 (chain.length-1) bs.k = chain.length-bs.k-1 := by
    unfold subUint32
    omega
  have hcc : addUint32 (chain.length-bs.k-1) 1 = chain.length-bs.k := by
    unfold addUint32
    omega
  have ht' : TipAt chain { bs with unconfirmedBlockCache := bs.unconfirmedBlockCache.removeAll }
      bs.firstUnconfirmedHeight := ht
  obtain ⟨blocks,hl,hcn,hon⟩ := loop_confirmAt hb hln ht'
    (by omega : bs.firstUnconfirmedHeight+(chain.length-bs.k-bs.firstUnconfirmedHeight) ≤
      chain.length)
  generalize hem : sendConfirmedBlocksToChan
    { bs with unconfirmedBlockCache := bs.unconfirmedBlockCache.removeAll } blocks = emitting at hl
  have he : emitting.unconfirmedBlockCache = bs.unconfirmedBlockCache.removeAll := by
    rw [← hem]
    rfl
  have hn : emitting.unconfirmedBlockCache.blocks = [] := by
    rw [he]
    rfl
  have hm : emitting.unconfirmedBlockCache.maxEntries = bs.unconfirmedBlockCache.maxEntries := by
    rw [he]
    rfl
  have hs : OnChain chain (chain.length-bs.k) emitting.unconfirmedBlockCache.blocks := by
    rw [hn]
    trivial
  obtain ⟨cache,a,hl',hmx,hsz,ho,hen⟩ := loop_cacheAt hb hln hs
    (by rw [hn,length_nil,Nat.add_zero]) (by omega : chain.length-bs.k+bs.k ≤ chain.length)
  rw [hn,length_nil,Nat.zero_add,hm] at hsz
  refine ⟨blocks,cache,a,?_,by omega,hon,ho,by omega,hmx.trans hm,hsz⟩
  have hr : chain.length-bs.k-1+1-bs.firstUnconfirmedHeight =
      chain.length-bs.k-bs.firstUnconfirmedHeight := by omega
  have hr' : chain.length-1+1-(chain.length-bs.k) = bs.k := by omega
  rw [bootstrap_eq hbs,hc,hr,hl,ok_bind,hcc,hr',hl',← hem]
  rfl

/-- What the scanner has emitted and cached, over the chains of the past. -/
structure Scanned (cfg : Config) (chain : List N.Header) (past : List (List N.Header))
    (bs : BtcScanner N) : Prop where
  baseHeight : bs.baseHeight = cfg.baseHeight
  k : bs.k = cfg.k
  maxEntries : bs.unconfirmedBlockCache.maxEntries = cfg.btcCacheSize
  nonempty : bs.confirmedBlocks ≠ []
  tip : bs.confirmedTipBlock = bs.confirmedBlocks.getLast?
  emitted : OnChain chain cfg.baseHeight bs.confirmedBlocks
  deep : cfg.baseHeight+bs.confirmedBlocks.length+cfg.k ≤ chain.length
  cached : ∃ ch ∈ chain :: past, ∃ a, OnChain ch a bs.unconfirmedBlockCache.blocks ∧
    bs.unconfirmedBlockCache.blocks.length = min cfg.k cfg.btcCacheSize ∧
    (cfg.k < cfg.btcCacheSize → a = cfg.baseHeight+bs.confirmedBlocks.length)

/-- The chains of the past are linked, and the best chain keeps what was `k` deep in them. -/
structure History (k : Nat) (chain : List N.Header) (past : List (List N.Header)) : Prop where
  linked : ∀ ch ∈ chain :: past, Linked N.blockHash N.prevBlock ch
  stable : ∀ ch ∈ chain :: past, ch.length ≤ chain.length ∧
    ∀ i, i+k ≤ ch.length → i < ch.length → chain[i]? = ch[i]?

variable {cfg : Config} {past : List (List N.Header)} {header : N.Header}

theorem Scanned.first (h : Scanned cfg chain past bs) :
    bs.firstUnconfirmedHeight = cfg.baseHeight+bs.confirmedBlocks.length ∧
      TipAt chain bs (cfg.baseHeight+bs.confirmedBlocks.length) := by
  obtain ⟨t,ht⟩ : ∃ t, bs.confirmedBlocks.getLast? = some t :=
    ⟨_,getLast?_eq_some_getLast h.nonempty⟩
  obtain ⟨hh,hhd⟩ := h.emitted.getLast ht
  have htp := h.tip.trans ht
  refine ⟨?_,?_⟩
  · simp only [BtcScanner.firstUnconfirmedHeight,htp,hh]
  · intro tip hm
    rw [htp,mem_some_iff] at hm
    subst hm
    exact ⟨hh,hhd⟩

theorem Scanned.bootstrap (h : Scanned cfg chain past bs) (hh : History cfg.k chain past)
    (hsr : node.Serves chain)
    (hl : chain.length ≤ 2^31) :
    ∃ bs', bs.bootstrap node = .ok bs' ∧ Scanned cfg chain past bs' := by
  obtain ⟨hf,ht⟩ := h.first
  have hd := h.deep
  have hp := length_pos_iff.mpr h.nonempty
  rw [← hf] at ht
  obtain ⟨blocks,cache,a,hb,hc,ho,hcc,he,hm,hs⟩ :=
    bootstrap_spec hsr (hh.linked chain mem_cons_self) hl ht (by rw [h.k]; omega)
      (by rw [hf,h.k]; omega)
  rw [hf] at hc ho
  rw [h.k] at hc hs
  rw [h.maxEntries] at hm hs
  refine ⟨_,hb,h.baseHeight,h.k,hm,?_,?_,along_append.mpr ⟨h.emitted,ho⟩,?_,chain,
    mem_cons_self,a,hcc,hs,?_⟩
  · simp [sendConfirmedBlocksToChan,h.nonempty]
  · simp only [sendConfirmedBlocksToChan,getLast?_append,h.tip]
  · simp only [sendConfirmedBlocksToChan,length_append]
    omega
  · simp only [sendConfirmedBlocksToChan,length_append]
    omega

theorem extends_cache (hh : History cfg.k chain past) {blocks : List (IndexedBlock N)}
    {tip : IndexedBlock N} {c' : List N.Header} (hc : ch ∈ chain :: past) (ho : OnChain ch a blocks)
    (ht : blocks.getLast? = some tip) (hc' : c' ∈ chain :: past)
    (hg : c'[tip.height+1]? = some header)
    (hpv : N.prevBlock header = N.blockHash tip.header) : OnChain c' a blocks := by
  obtain ⟨hhg,hhd⟩ := ho.getLast ht
  obtain ⟨hl, -⟩ := List.getElem?_eq_some_iff.mp hg
  have hp : c'[tip.height]? = some c'[tip.height] := List.getElem?_eq_getElem (by omega)
  have hs : c'[tip.height] = tip.header := by
    refine N.blockHash_inj ?_
    rw [← hpv]
    exact ((hh.linked c' hc') tip.height _ _ hp hg).symm
  rw [hs] at hp
  refine ho.congr fun i _ hi => ?_
  exact ((hh.linked c' hc').agree_below N.blockHash_inj (hh.linked ch hc) hp hhd (by omega))

theorem Scanned.extend (h : Scanned cfg chain past bs) (hh : History cfg.k chain past)
    (hln : chain.length ≤ 2^31)
    {tip : IndexedBlock N} (hti : bs.unconfirmedBlockCache.tip = some tip)
    (hn : ∃ ch ∈ chain :: past, ch[tip.height+1]? = some header)
    (hhs : node.blockByHash (N.blockHash header) = some ⟨tip.height+1,header⟩)
    (hp : N.prevBlock header = N.blockHash tip.header) :
    ∃ bs', bs.handleNewBlock node (tip.height+1) header = .ok bs' ∧ Scanned cfg chain past bs' := by
  obtain ⟨ch,hc,a,hon,hsi,ha⟩ := h.cached
  obtain ⟨c',hc',hg⟩ := hn
  have hon' := extends_cache hh hc hon hti hc' hg hp
  obtain ⟨hed, -⟩ := hon.getLast hti
  obtain ⟨a',ho,hen,hsz,hm,han⟩ := BTCCache.add_spec hon' hed.symm hg
  obtain ⟨hlt, -⟩ := List.getElem?_eq_some_iff.mp hg
  obtain ⟨hcl,hs⟩ := hh.stable c' hc'
  have hps := length_pos_iff.mpr h.nonempty
  generalize hcc : bs.unconfirmedBlockCache.add ⟨tip.height+1,header⟩ = cache at ho hen hsz hm
  rw [h.maxEntries] at hsz hm han
  have hsh : ¬ tip.height+1 ≤ tip.height := by omega
  have hf : cache.blocks.length < 2^31 := by
    by_cases hr : cfg.k < cfg.btcCacheSize
    · have han := han (by omega)
      omega
    · omega
  by_cases hk : cache.blocks.length ≤ cfg.k
  · have hfl : cache.blocks.length = min cfg.k cfg.btcCacheSize := by omega
    refine ⟨{ bs with unconfirmedBlockCache := cache },?_,h.baseHeight,h.k,hm,h.nonempty,
      h.tip,h.emitted,h.deep,c',hc',a',ho,hfl,by omega⟩
    simp only [BtcScanner.handleNewBlock,hti,orFail,ok_bind,if_neg hsh,ensure,
      Nat.le_refl,if_true,hp,hhs,hcc,hf,h.k,hk]
    rfl
  · -- the first block of the cache follows the confirmed tip
    have hr : cfg.k < cfg.btcCacheSize := by omega
    have ha := ha hr
    have han := han (by omega)
    have hone : cache.blocks.length = cfg.k+1 := by omega
    obtain ⟨x,rest,hb⟩ := exists_cons_of_ne_nil
      (ne_nil_of_length_pos (by omega : 0 < cache.blocks.length))
    rw [hb] at ho
    obtain ⟨hx,hxg,hrs⟩ := ho
    obtain ⟨-,htp⟩ := h.first
    obtain ⟨t,ht⟩ : ∃ t, bs.confirmedTipBlock = some t := by
      rw [h.tip]
      exact ⟨_,getLast?_eq_some_getLast h.nonempty⟩
    obtain ⟨htg,hth⟩ := htp t ht
    have hl : N.blockHash t.header = N.prevBlock x.header := by
      rw [hs t.height (by omega) (by omega)] at hth
      rw [han,ha,← htg] at hxg
      exact ((hh.linked c' hc') t.height _ _ hth hxg).symm
    have hxc : chain[a']? = some x.header := by
      rw [hs a' (by omega) (by omega)]
      exact hxg
    have he : OnChain chain cfg.baseHeight (bs.confirmedBlocks ++ [x]) := by
      refine along_append.mpr ⟨h.emitted,?_,?_,trivial⟩
      · rw [hx,han,ha]
      · rw [← ha,← han]
        exact hxc
    have hsb : cache.blocks.length-cfg.k = 1 := by omega
    refine ⟨sendConfirmedBlocksToChan
      { bs with unconfirmedBlockCache := (cache.trimConfirmedBlocks cfg.k).2 } [x],
      ?_,h.baseHeight,h.k,hm,?_,?_,he,?_,c',hc',a'+1,?_,?_,?_⟩
    · have htr : (cache.trimConfirmedBlocks cfg.k).1 = [x] := by
        change cache.blocks.take (cache.blocks.length-cfg.k) = [x]
        rw [hsb,hb,take_succ_cons,take_zero]
      simp only [BtcScanner.handleNewBlock,hti,orFail,ok_bind,if_neg hsh,ensure,
        Nat.le_refl,if_true,hp,hhs,hcc,hf,h.k,if_neg hk,htr,head?_cons,ht,hl]
      rfl
    · simp [sendConfirmedBlocksToChan]
    · simp [sendConfirmedBlocksToChan]
    · simp only [sendConfirmedBlocksToChan,length_append,length_singleton]
      omega
    · change OnChain c' (a'+1) (cache.blocks.drop (cache.blocks.length-cfg.k))
      rw [hsb,hb,drop_one,tail_cons]
      exact hrs
    · change (cache.blocks.drop (cache.blocks.length-cfg.k)).length = _
      rw [length_drop]
      omega
    · simp only [sendConfirmedBlocksToChan,length_append,length_singleton]
      omega

theorem Scanned.handleNewBlock (h : Scanned cfg chain past bs) (hh : History cfg.k chain past)
    (hl : chain.length ≤ 2^31) {height : Nat} (hn : ∃ ch ∈ chain :: past, ch[height]? = some header)
    (hhs : node.blockByHash (N.blockHash header) = some ⟨height,header⟩) :
    (∃ bs', bs.handleNewBlock node height header = .ok bs' ∧ Scanned cfg chain past bs') ∨
      ∃ text, bs.handleNewBlock node height header = .error (.errorf text) := by
  cases ht : bs.unconfirmedBlockCache.tip with
  | none =>
    refine .inr ⟨"no unconfirmed blocks found",?_⟩
    rw [BtcScanner.handleNewBlock,ht]
    rfl
  | some tip =>
    by_cases he : height ≤ tip.height
    · refine .inl ⟨bs,?_,h⟩
      rw [BtcScanner.handleNewBlock,ht,orFail,ok_bind,if_pos he]
      rfl
    · by_cases hm : height ≤ tip.height+1
      · obtain rfl : height = tip.height+1 := by omega
        by_cases hp : N.prevBlock header = N.blockHash tip.header
        · exact .inl (h.extend hh hl ht hn hhs hp)
        · refine .inr ⟨"cache is not up-to-date",?_⟩
          rw [BtcScanner.handleNewBlock,ht,orFail,ok_bind,if_neg he,ensure,if_pos hm,ok_bind,
            ensure,if_neg hp]
          rfl
      · refine .inr ⟨"missing blocks, expected block height: %d, got: %d",?_⟩
        rw [BtcScanner.handleNewBlock,ht,orFail,ok_bind,if_neg he,ensure,if_neg hm]
        rfl

theorem Scanned.onBlockEpoch (h : Scanned cfg chain past bs) (hh : History cfg.k chain past)
    (hsr : node.Serves chain) (hl : chain.length ≤ 2^31) {height : Nat}
    (hnt : ∃ ch ∈ chain :: past, ch[height]? = some header)
    (hhs : node.blockByHash (N.blockHash header) = some ⟨height,header⟩) :
    ∃ bs', bs.onBlockEpoch node height header = .ok bs' ∧ Scanned cfg chain past bs' := by
  rcases h.handleNewBlock hh hl hnt hhs with ⟨bs',ho,hs⟩ | ⟨text,he⟩
  · refine ⟨bs',?_,hs⟩
    rw [BtcScanner.onBlockEpoch,ho,Result.attempt,ok_bind]
    rfl
  · obtain ⟨bs',hb,hs⟩ := h.bootstrap hh hsr hl
    refine ⟨bs',?_,hs⟩
    have hn : (bs.handleNewBlock node height header).attempt = .ok none := by
      rw [he]
      rfl
    rw [BtcScanner.onBlockEpoch,hn,ok_bind]
    exact hb

theorem start_scanned (hbs : bs = .new N cfg) (hl : Linked N.blockHash N.prevBlock chain)
    (hs : node.Serves chain) (hln : chain.length ≤ 2^31)
    (hba : cfg.baseHeight+cfg.k < chain.length) :
    ∃ bs', bs.start node = .ok bs' ∧ Scanned cfg chain past bs' := by
  subst hbs
  have ht : TipAt chain (.new N cfg) (new N cfg).firstUnconfirmedHeight := fun tip hm => by cases hm
  have hf : (new N cfg).firstUnconfirmedHeight = cfg.baseHeight := rfl
  have hk : (new N cfg).k = cfg.k := rfl
  have hsm : (new N cfg).unconfirmedBlockCache.maxEntries = cfg.btcCacheSize := rfl
  obtain ⟨blocks,cache,a,hb,hcn,ho,hc,he,hmx,hsz⟩ :=
    bootstrap_spec hs hl hln ht (by omega) (by omega)
  have hn : blocks ≠ [] := length_pos_iff.mp (by omega)
  have hi : ∀ tip ∈ cache.tip, tip.height < 2^31 := by
    intro tip hm
    obtain ⟨hh, -⟩ := hc.getLast hm
    omega
  refine ⟨{ sendConfirmedBlocksToChan (.new N cfg) blocks with unconfirmedBlockCache := cache },?_,
    rfl,rfl,hmx,hn,or_none,ho,?_,chain,mem_cons_self,a,hc,hsz,?_⟩
  · rw [BtcScanner.start,hb,ok_bind,ensure,if_pos hi,ok_bind]
    rfl
  · change cfg.baseHeight+blocks.length+cfg.k ≤ chain.length
    omega
  · intro hr
    change a = cfg.baseHeight+blocks.length
    omega

section

variable {chain' : List N.Header}

theorem Shallow.getElem? {k : Nat} (h : Shallow k chain chain') (hk : i+k ≤ chain.length)
    (hi : i < chain.length) : chain'[i]? = chain[i]? := by
  obtain ⟨d,new,hd,rfl⟩ := h
  rw [getElem?_append_left (by rw [length_take]; omega),getElem?_take_of_lt (by omega)]

theorem History.reorganise {k : Nat} (hh : History k chain past)
    (hl : Linked N.blockHash N.prevBlock chain')
    (hsh : Shallow k chain chain') (hg : chain.length ≤ chain'.length) :
    History k chain' (past ++ [chain]) := by
  have hold : ∀ ch ∈ past ++ [chain], ch ∈ chain :: past := fun ch hc => by
    rw [mem_append,mem_singleton] at hc
    exact mem_cons.mpr hc.symm
  refine ⟨?_,?_⟩
  · intro ch hc
    rcases mem_cons.mp hc with rfl | hc
    · exact hl
    · exact hh.linked ch (hold ch hc)
  · intro ch hc
    rcases mem_cons.mp hc with rfl | hc
    · exact ⟨Nat.le_refl _,fun i _ _ => rfl⟩
    · obtain ⟨hle,hs⟩ := hh.stable ch (hold ch hc)
      refine ⟨by omega,fun i hk hi => ?_⟩
      rw [hsh.getElem? (by omega) (by omega)]
      exact hs i hk hi

theorem Scanned.reorganise (h : Scanned cfg chain past bs) (hs : Shallow cfg.k chain chain')
    (hg : chain.length ≤ chain'.length) : Scanned cfg chain' (past ++ [chain]) bs := by
  have hd := h.deep
  obtain ⟨ch,hc,hcc⟩ := h.cached
  refine { h with emitted := ?_, deep := by omega, cached := ⟨ch,?_,hcc⟩ }
  · exact h.emitted.congr fun i _ hi => hs.getElem? (by omega) (by omega)
  · refine mem_cons_of_mem _ ?_
    rw [mem_append,mem_singleton]
    exact (mem_cons.mp hc).symm

end

/-- The base height is `k` deep at the start, the best height does not fall, and the node answers
from its best chain. -/
def Steady (s : State N) : Action N → Prop
  | .reorganise chain => s.chain.length ≤ chain.length
  | .start node =>
    node.Serves s.chain ∧ s.chain.length ≤ 2^31 ∧ s.scanner.baseHeight+s.scanner.k < s.chain.length
  | .notify node height header =>
    node.Serves s.chain ∧ s.chain.length ≤ 2^31 ∧
      node.blockByHash (N.blockHash header) = some ⟨height,header⟩

structure Tracked (cfg : Config) (s : State N) : Prop where
  history : History cfg.k s.chain s.past
  k : s.scanner.k = cfg.k
  alive : s.phase ≠ .panicked
  created : s.phase = .created → s.scanner = .new N cfg
  running : s.phase = .running → Scanned cfg s.chain s.past s.scanner

theorem Tracked.run {s : State N} {result : Result (BtcScanner N)} (h : Tracked cfg s)
    (hr : ∃ bs', result = .ok bs' ∧ Scanned cfg s.chain s.past bs') :
    Tracked cfg (s.run result) := by
  obtain ⟨bs',rfl,hs⟩ := hr
  exact ⟨h.history,hs.k,fun hp => (by cases hp),fun hp => (by cases hp),fun _ => hs⟩

theorem tracked_step {s s' : State N} {a : Action N} (h : Tracked cfg s) (hh : Honest s a)
    (hs : Steady s a) (hn : s.next a = some s') : Tracked cfg s' := by
  cases a with
  | reorganise _ =>
    cases hn
    obtain ⟨-,hl,hsh⟩ := hh
    rw [h.k] at hsh
    exact ⟨h.history.reorganise hl hsh hs,h.k,h.alive,h.created,
      fun hp => (h.running hp).reorganise hsh hs⟩
  | start _ =>
    simp only [State.next,ite_none_right_eq_some,some.injEq] at hn
    obtain ⟨hp,rfl⟩ := hn
    obtain ⟨hsr,hln,hb⟩ := hs
    have hnw := h.created hp
    refine h.run (start_scanned hnw (h.history.linked _ mem_cons_self) hsr hln ?_)
    rw [hnw] at hb
    exact hb
  | notify _ _ _ =>
    simp only [State.next,ite_none_right_eq_some,some.injEq] at hn
    obtain ⟨hp,rfl⟩ := hn
    obtain ⟨hsr,hln,hhs⟩ := hs
    exact h.run ((h.running hp).onBlockEpoch h.history hsr hln hh hhs)

theorem tracked_init {s : State N} (h : (system N cfg).init s) : Tracked cfg s := by
  obtain ⟨hn,hp,hps,hl, -⟩ := h
  refine ⟨⟨?_,?_⟩,by rw [hn]; rfl,by rw [hp]; decide,fun _ => hn,fun hr => ?_⟩
  · intro ch hc
    rw [hps,mem_singleton] at hc
    subst hc
    exact hl
  · intro ch hc
    rw [hps,mem_singleton] at hc
    subst hc
    exact ⟨Nat.le_refl _,fun i _ _ => rfl⟩
  · rw [hp] at hr
    cases hr

theorem Tracked.onChain {s : State N} (h : Tracked cfg s) :
    OnChain s.chain cfg.baseHeight s.scanner.confirmedBlocks ∧
      (s.scanner.confirmedBlocks ≠ [] →
        cfg.baseHeight+s.scanner.confirmedBlocks.length+cfg.k ≤ s.chain.length) := by
  cases hp : s.phase with
  | created =>
    have hnl : s.scanner.confirmedBlocks = [] := by rw [h.created hp]; rfl
    rw [hnl]
    exact ⟨trivial,fun hn => absurd rfl hn⟩
  | running => exact ⟨(h.running hp).emitted,fun _ => (h.running hp).deep⟩
  | panicked => exact absurd hp h.alive

/-- The scanner never panics, and what it has emitted is the chain from the base height on, block by
block, with `k` blocks on top. -/
theorem confirmed_chain_emitted (N : Network) (cfg : Config) {s : State N}
    (h : ((system N cfg).restrict fun s a _ => Steady s a).Reachable s) :
    s.phase ≠ .panicked ∧ ConsecutiveFrom IndexedBlock.height cfg.baseHeight
      s.scanner.confirmedBlocks ∧
      s.scanner.confirmedBlocks.IsChain (fun b b' => N.prevBlock b'.header = N.blockHash b.header) ∧
      ∀ b ∈ s.scanner.confirmedBlocks, s.chain[b.height]? = some b.header ∧
      b.height+cfg.k < s.chain.length := by
  have htr : Tracked cfg s := by
    refine h.invariant (P := fun s => Tracked cfg s) (fun s hi => ?_) fun s a s' _ ht hs => ?_
    · exact tracked_init hi
    · obtain ⟨⟨hh,hn⟩,hst⟩ := hs
      exact tracked_step ht hh hst hn
  obtain ⟨ho,hd⟩ := htr.onChain
  refine ⟨htr.alive,ho.consecutive,ho.linked (htr.history.linked _ mem_cons_self),?_⟩
  intro b hb
  obtain ⟨-,hl,hg⟩ := ho.mem hb
  have hd := hd (ne_nil_of_mem hb)
  exact ⟨hg,by omega⟩

/-! A network whose headers are their own names and end with the name of their parent. -/

namespace Devnet

variable {cfg : Config}

abbrev network : Network where
  Header := Bytes
  blockHash header := header
  prevBlock header := header.tail
  blockHash_inj := fun _ _ h => h

def serve (chain : List Bytes) : Node network where
  bestBlock := some (chain.length-1)
  blockByHeight i := chain[i]?
  blockByHash hash := (chain.zipIdx.find? fun p => p.1 = hash).map fun p => ⟨p.2,p.1⟩

inductive Move where
  | mine (removed : Nat) (new : List Bytes)
  | start
  | notify (height : Nat)

def reorganised (s : State network) (removed : Nat) (new : List Bytes) : List Bytes :=
  s.chain.take (s.chain.length-removed) ++ new

def toAction (s : State network) : Move → Action network
  | .mine removed new => .reorganise (reorganised s removed new)
  | .start => .start (serve s.chain)
  | .notify height => .notify (serve s.chain) height (s.chain.getD height [])

def honest (s : State network) : Move → Bool
  | .mine removed new =>
    reorganised s removed new ≠ [] ∧
      Linked network.blockHash network.prevBlock (reorganised s removed new) ∧
      (removed = 0 ∨ removed < s.scanner.k)
  | .start => true
  | .notify height => height < s.chain.length

def steady (s : State network) : Move → Bool
  | .mine removed new => s.chain.length ≤ (reorganised s removed new).length
  | .start => s.chain.length ≤ 2^31 ∧ s.scanner.baseHeight+s.scanner.k < s.chain.length
  | .notify height =>
    s.chain.length ≤ 2^31 ∧
      ((serve s.chain).blockByHash (s.chain.getD height [])).any fun ib =>
        ib.height = height ∧ ib.header = s.chain.getD height []

def next (s : State network) (m : Move) : Option (State network) :=
  if honest s m then s.next (toAction s m) else none

def steadyNext (s : State network) (m : Move) : Option (State network) :=
  if steady s m then next s m else none

theorem next_step {s s' : State network} {m : Move} (h : next s m = some s') :
    (system network cfg).step s (toAction s m) s' := by
  simp only [next,ite_none_right_eq_some] at h
  obtain ⟨hh,hn⟩ := h
  refine ⟨?_,hn⟩
  cases m with
  | mine removed new =>
    obtain ⟨hne,hl,hr⟩ := of_decide_eq_true hh
    exact ⟨hne,hl,removed,new,hr,rfl⟩
  | start => trivial
  | notify height =>
    have hlt : height < s.chain.length := of_decide_eq_true hh
    refine ⟨s.chain,mem_cons_self,?_⟩
    rw [getD_eq_getElem?_getD,List.getElem?_eq_getElem hlt,getD_some]

theorem steadyNext_step {s s' : State network} {m : Move} (h : steadyNext s m = some s') :
    ((system network cfg).restrict fun s a _ => Steady s a).step s (toAction s m) s' := by
  simp only [steadyNext,ite_none_right_eq_some] at h
  obtain ⟨hs,hn⟩ := h
  refine ⟨next_step hn,?_⟩
  cases m with
  | mine removed new =>
    have hg : s.chain.length ≤ (reorganised s removed new).length := of_decide_eq_true hs
    exact hg
  | start =>
    obtain ⟨hl,hb⟩ := of_decide_eq_true hs
    exact ⟨⟨rfl,fun _ => rfl⟩,hl,hb⟩
  | notify _ =>
    obtain ⟨hl,ha⟩ := of_decide_eq_true hs
    obtain ⟨⟨height',header⟩,hgt,hi⟩ := (any_eq_true _ _).mp ha
    obtain ⟨hhg,hh⟩ := of_decide_eq_true hi
    dsimp only at hhg hh
    rw [hhg,hh] at hgt
    exact ⟨⟨rfl,fun _ => rfl⟩,hl,hgt⟩

def heights (s : State network) : List Nat := s.scanner.confirmedBlocks.map IndexedBlock.height

def initial (cfg : Config) (chain : List Bytes) : State network :=
  ⟨chain,[],.new network cfg,.created⟩

theorem initial_init {chain : List Bytes} (h : Linked network.blockHash network.prevBlock chain)
    (hb : cfg.baseHeight < chain.length) : (system network cfg).init (initial cfg chain) :=
  ⟨rfl,rfl,rfl,h,hb⟩

def depthTwo (baseHeight : Nat) : Config := ⟨baseHeight,2,5,by decide,by decide⟩

end Devnet

open Devnet

/-- A start, a reorganisation of one block that makes the scanner bootstrap again, and a block on
top of it. -/
theorem steady_run_emits :
    ∃ s, ((system network (depthTwo 0)).restrict fun s a _ => Steady s a).Reachable s ∧
      heights s = [0,1,2] ∧
      s.phase ≠ .panicked ∧ ConsecutiveFrom IndexedBlock.height 0 s.scanner.confirmedBlocks ∧
      s.scanner.confirmedBlocks.IsChain (fun b b' => network.prevBlock b'.header =
        network.blockHash b.header) ∧
      ∀ b ∈ s.scanner.confirmedBlocks, s.chain[b.height]? = some b.header ∧
      b.height+2 < s.chain.length := by
  have hrn : (([.start,.mine 1 [[3,1],[4,3,1]],.notify 3,.mine 0 [[5,4,3,1]],
      .notify 4] : List Move).foldlM
      steadyNext (initial (depthTwo 0) [[],[1],[2,1]])).any (fun s => heights s ==
        [0,1,2]) = true := by
    decide +kernel
  obtain ⟨s,hr,ht⟩ :=
    System.Reachable.follow (fun _ _ _ hn => ⟨_,steadyNext_step hn⟩)
      (.init (initial_init (by decide) (by decide))) hrn
  exact ⟨s,hr,beq_iff_eq.mp ht,confirmed_chain_emitted network (depthTwo 0) hr⟩

/-- The base height is the best height, so the first bootstrap confirms nothing; the block that
makes it confirmed is compared with a tip that does not exist. -/
theorem recent_base_panics : ∃ s, (system network (depthTwo 2)).Reachable s ∧
    s.phase = .panicked := by
  have hrn : (([.start,.mine 0 [[3,2,1]],.notify 3] : List Move).foldlM
      next (initial (depthTwo 2) [[],[1],[2,1]])).any (fun s => s.phase == .panicked) = true := by
    decide +kernel
  obtain ⟨s,hr,ht⟩ :=
    System.Reachable.follow (fun _ _ _ hn => ⟨_,next_step hn⟩)
      (.init (initial_init (by decide) (by decide))) hrn
  exact ⟨s,hr,beq_iff_eq.mp ht⟩

end AnonChain.Monitor
