import AnonChain.Epoching.Queue
import AnonChain.Epoching.Records
import AnonChain.Epoching.Restored
import AnonChain.Lib.Keyed

/-! The exported genesis of a chain passes its validation, and importing it restores the store. -/

namespace AnonChain.Epoching

open Lib KVStore
open KVStore (mem_entries sub_foldl_set₂ get_set_self get_set getD)

section

variable {α κ : Type} [DecidableEq κ] {keyFunc : α → κ} {validate : α → Result Unit}

theorem validateEntriesFrom_ok {l : List α} {seen : List κ} (hn : (l.map keyFunc).Nodup)
    (hs : ∀ a ∈ l, keyFunc a ∉ seen) (hv : ∀ a ∈ l, validate a = .ok ()) :
    validateEntriesFrom keyFunc validate seen l = .ok () := by
  induction l generalizing seen with
  | nil => rfl
  | cons a l ih =>
    rw [List.map_cons,List.nodup_cons] at hn
    have ha := hs a List.mem_cons_self
    simp only [validateEntriesFrom,ensure,ha,not_false_eq_true,if_true,ok_bind,
      hv a List.mem_cons_self]
    refine ih hn.2 ?_ (fun b hb => hv b (List.mem_cons_of_mem a hb))
    intro b hb
    have hne : keyFunc b ≠ keyFunc a := fun h => hn.1 (h ▸ List.mem_map_of_mem hb)
    simp [hne,hs b (List.mem_cons_of_mem a hb)]

theorem validateEntries_ok {l : List α} (hn : (l.map keyFunc).Nodup)
    (hv : ∀ a ∈ l, validate a = .ok ()) : validateEntries keyFunc validate l = .ok () :=
  validateEntriesFrom_ok hn (by simp) hv

end

/-- Two epochs that `validateEpochs` takes for different ones. -/
def Differ (e e' : Epoch) : Prop :=
  e'.epochNumber ≠ e.epochNumber ∧ e'.firstBlockHeight ≠ e.firstBlockHeight ∧
    (e'.sealerBlockHash = [] ∨ e'.sealerBlockHash ≠ e.sealerBlockHash)

theorem validateEpoch_ok {seen : SeenEpochs} {e : Epoch} (hn : e.epochNumber ∉ seen.numbers)
    (hh : e.firstBlockHeight ∉ seen.heights)
    (hs : e.sealerBlockHash = [] ∨ e.sealerBlockHash ∉ seen.hashes)
    (hi : 2 ≤ e.currentEpochInterval) :
    validateEpoch seen e = .ok ⟨e.epochNumber :: seen.numbers,e.firstBlockHeight :: seen.heights,
      if e.sealerBlockHash = [] then seen.hashes else e.sealerBlockHash :: seen.hashes⟩ := by
  simp only [validateEpoch,ensure,Epoch.validateBasic,hn,hh,hs,hi,not_false_eq_true,if_true,ok_bind]
  rfl

theorem foldlM_validateEpoch {l : List Epoch} (seen : SeenEpochs) (hd : l.Pairwise Differ)
    (hi : ∀ e ∈ l, 2 ≤ e.currentEpochInterval)
    (hsn : ∀ e ∈ l, e.epochNumber ∉ seen.numbers ∧ e.firstBlockHeight ∉ seen.heights ∧
      (e.sealerBlockHash = [] ∨ e.sealerBlockHash ∉ seen.hashes)) :
    ∃ seen', l.foldlM validateEpoch seen = .ok seen' := by
  induction l generalizing seen with
  | nil => exact ⟨seen,rfl⟩
  | cons e l ih =>
    obtain ⟨hn,hh,hs⟩ := hsn e List.mem_cons_self
    rw [List.pairwise_cons] at hd
    rw [List.foldlM_cons,validateEpoch_ok hn hh hs (hi e List.mem_cons_self),ok_bind]
    refine ih _ hd.2 (fun e' he' => hi e' (List.mem_cons_of_mem e he')) ?_
    intro e' he'
    obtain ⟨hdn,hdh,hds⟩ := hd.1 e' he'
    obtain ⟨hn',hh',hs'⟩ := hsn e' (List.mem_cons_of_mem e he')
    refine ⟨by simp [hdn,hn'],by simp [hdh,hh'],?_⟩
    rcases hds with hem | hne
    · exact .inl hem
    · rcases hs' with hem | hs'
      · exact .inl hem
      · refine .inr ?_
        split
        · exact hs'
        · simp [hne,hs']

theorem consecutive_range' (a n : Nat) : consecutive (List.range' a n) = .ok () := by
  induction n generalizing a with
  | zero => rfl
  | succ n ih =>
    cases n with
    | zero => rfl
    | succ n =>
      have hn := ih (a+1)
      simp only [List.range'_succ] at hn ⊢
      simp only [consecutive,ensure,if_true,ok_bind]
      exact hn

theorem validateSequentialEpochs_range (n : Nat) :
    validateSequentialEpochs (List.range n) = .ok () := by
  have hs : (List.range n).Pairwise (· ≤ ·) := List.pairwise_lt_range.imp Nat.le_of_lt
  rw [validateSequentialEpochs,hs.insertionSort_eq,List.range_eq_range']
  exact consecutive_range' 0 n

namespace Store

variable {s : Store} {n : Nat} {e : Epoch} {sets : KVStore Nat (KVStore Address Int)} {t : Store}

theorem pairwise_differ (hc : s.Calendar n e) (hh : World.DistinctHashes s) :
    s.epochs.Pairwise Differ := by
  rw [epochs,List.pairwise_map]
  refine s.epochInfo.sorted.imp_of_mem ?_
  rintro ⟨i,ep⟩ ⟨j,ep'⟩ hi hj hij
  have hi := mem_entries.mp hi
  have hj := mem_entries.mp hj
  have hl := hc.tiles.last_lt_first hij hi hj
  have hn := hc.tiles.nonempty i ep hi
  have hhg : ep'.firstBlockHeight ≠ ep.firstBlockHeight := by omega
  refine ⟨?_,hhg,?_⟩
  · rw [hc.numbered i ep hi,hc.numbered j ep' hj]
    exact Nat.ne_of_gt hij
  · by_cases he : ep'.sealerBlockHash = []
    · exact .inl he
    · exact .inr fun heq => absurd (hh j i ep' ep hj hi he heq) (Nat.ne_of_gt hij)

theorem validateEpochs_ok (hc : s.Calendar n e) (hh : World.DistinctHashes s)
    (hz : ∀ ep, s.epochInfo.get 0 = some ep → 2 ≤ ep.currentEpochInterval) :
    validateEpochs s.epochs = .ok () := by
  have hi : ∀ ep ∈ s.epochs, 2 ≤ ep.currentEpochInterval := by
    intro ep he
    obtain ⟨i,hi⟩ := World.mem_epochs.mp he
    by_cases h0 : i = 0
    · exact hz ep (h0 ▸ hi)
    · exact hc.intervals i ep hi h0
  obtain ⟨seen,hs⟩ := foldlM_validateEpoch ⟨[],[],[]⟩ (pairwise_differ hc hh) hi (by simp)
  rw [validateEpochs,hs,ok_bind,World.epochNumbers_eq_range hc]
  exact validateSequentialEpochs_range (n+1)

theorem numbers_nodup (hc : s.Calendar n e) : (s.epochs.map Epoch.epochNumber).Nodup := by
  rw [World.epochNumbers_eq_range hc]
  exact List.nodup_range

theorem exportSet_number {ep : Epoch} {ev : EpochValidatorSet} (h : exportSet sets ep = some ev) :
    ev.epochNumber = ep.epochNumber := by
  simp only [exportSet,Option.ite_none_right_eq_some,Option.some.injEq] at h
  obtain ⟨-,rfl⟩ := h
  rfl

theorem exportSets_nodup (hc : s.Calendar n e) (sets : KVStore Nat (KVStore Address Int)) :
    ((s.epochs.filterMap (exportSet sets)).map EpochValidatorSet.epochNumber).Nodup :=
  nodup_map_filterMap Epoch.epochNumber (fun _ _ h => exportSet_number h) (numbers_nodup hc)

theorem validateSets_ok (hc : s.Calendar n e) (sets : KVStore Nat (KVStore Address Int))
    (hps : ∀ m v p, sets.get₂ m v = some p → 0 ≤ p) :
    validateEntries EpochValidatorSet.epochNumber EpochValidatorSet.validate
      (s.epochs.filterMap (exportSet sets)) = .ok () := by
  refine validateEntries_ok (exportSets_nodup hc sets) ?_
  intro ev hev
  obtain ⟨ep, -,he⟩ := List.mem_filterMap.mp hev
  simp only [exportSet,Option.ite_none_right_eq_some,Option.some.injEq] at he
  obtain ⟨hl,rfl⟩ := he
  have hn : (sets.sub ep.epochNumber).entries.map (fun v => (⟨v.1,v.2⟩ : Validator)) ≠ [] :=
    List.ne_nil_of_length_pos hl
  simp only [EpochValidatorSet.validate,ensure,hn,ne_eq,not_false_eq_true,if_true,ok_bind]
  refine validateEntries_ok ?_ ?_
  · rw [List.map_map]
    exact (sets.sub ep.epochNumber).keys_nodup
  · intro v hv
    obtain ⟨⟨a,p⟩,hm,rfl⟩ := List.mem_map.mp hv
    have hp := hps ep.epochNumber a p (mem_entries.mp hm)
    simp only [Validator.validate,ensure,hp,if_true,ok_bind,valAddressFromBech32_valString]
    rfl

theorem getEpochQueue_number {ep : Epoch} {eq : EpochQueue} (h : s.getEpochQueue ep = some eq) :
    eq.epochNumber = ep.epochNumber := by
  simp only [getEpochQueue,Option.ite_none_right_eq_some,Option.some.injEq] at h
  obtain ⟨-,rfl⟩ := h
  rfl

theorem queues_nodup (hc : s.Calendar n e) :
    ((s.epochs.filterMap s.getEpochQueue).map EpochQueue.epochNumber).Nodup :=
  nodup_map_filterMap Epoch.epochNumber (fun _ _ h => getEpochQueue_number h) (numbers_nodup hc)

theorem validateQueues_ok (hc : s.Calendar n e) :
    validateEntries EpochQueue.epochNumber EpochQueue.validate
      (s.epochs.filterMap s.getEpochQueue) = .ok () := by
  refine validateEntries_ok (queues_nodup hc) ?_
  intro eq heq
  obtain ⟨ep, -,he⟩ := List.mem_filterMap.mp heq
  simp only [getEpochQueue,Option.ite_none_right_eq_some,Option.some.injEq] at he
  obtain ⟨hl,rfl⟩ := he
  simp only [EpochQueue.validate,ensure,List.ne_nil_of_length_pos hl,ne_eq,
    not_false_eq_true,if_true]

theorem validateValLives_ok (h : s.Lives) :
    validateEntries ValidatorLifecycle.valAddr ValidatorLifecycle.validate
      (s.valLifecycle.entries.map Prod.snd) = .ok () := by
  have hn := fun e (he : e ∈ s.valLifecycle.entries) => h.validators e.1 e.2 (mem_entries.mp he)
  refine validateEntries_ok ?_ ?_
  · rw [map_values_eq fun a lc hl => (h.validators a lc hl).1]
    exact s.valLifecycle.keys_nodup.map fun a b ha => Subtype.ext (congrArg Bech32.bytes ha)
  · intro lc hl
    obtain ⟨e,he,rfl⟩ := List.mem_map.mp hl
    simp only [ValidatorLifecycle.validate,ensure,(hn e he).1,(hn e he).2,ne_eq,
      not_false_eq_true,if_true,ok_bind,valAddressFromBech32_valString]
    rfl

theorem validateDelLives_ok (h : s.Lives) :
    validateEntries DelegationLifecycle.delAddr DelegationLifecycle.validate
      (s.delegationLifecycle.entries.map Prod.snd) = .ok () := by
  have hnm := fun e (he : e ∈ s.delegationLifecycle.entries) => h.delegations e.1 e.2
    (mem_entries.mp he)
  refine validateEntries_ok ?_ ?_
  · rw [map_values_eq fun a lc hl => (h.delegations a lc hl).1]
    exact s.delegationLifecycle.keys_nodup.map fun a b ha => Subtype.ext (congrArg Bech32.bytes ha)
  · intro lc hl
    obtain ⟨e,he,rfl⟩ := List.mem_map.mp hl
    obtain ⟨had,hn,hvl⟩ := hnm e he
    have hup : e.2.delLife.forM DelegationStateUpdate.validate = .ok () := by
      generalize e.2.delLife = l at hvl
      induction l with
      | nil => rfl
      | cons u l ih =>
        obtain ⟨v,hv⟩ := hvl u List.mem_cons_self
        change (DelegationStateUpdate.validate u >>=
            fun _ => l.forM DelegationStateUpdate.validate) = .ok ()
        rw [DelegationStateUpdate.validate,hv,valAddressFromBech32_valString]
        exact ih fun u' hu' => hvl u' (List.mem_cons_of_mem u hu')
    simp only [DelegationLifecycle.validate,ensure,had,hn,ne_eq,not_false_eq_true,
      if_true,ok_bind,hup,accAddressFromBech32_accString]
    rfl

theorem exportGenesis_valid (hc : s.Calendar n e) (hr : s.Records n) (hh : World.DistinctHashes s)
    (hz : ∀ ep, s.epochInfo.get 0 = some ep → 2 ≤ ep.currentEpochInterval) :
    s.exportGenesis.validate = .ok () := by
  have hs : ∀ m v p, s.slashedValSet.get₂ m v = some p → 0 ≤ p :=
    fun m v p hp => hr.nonneg m v p (hr.slashed m v p hp)
  simp only [GenesisState.validate,exportGenesis,validateEpochs_ok hc hh hz,validateQueues_ok hc,
    validateSets_ok hc s.valSet hr.nonneg,validateSets_ok hc s.slashedValSet hs,
    validateValLives_ok hr.lives,validateDelLives_ok hr.lives,ok_bind]
  exact hc.params

/-- A set that is written on another, and its total. -/
def putSet (old : KVStore Address Int × Option Int) (ev : EpochValidatorSet) :
    KVStore Address Int × Option Int :=
  (ev.validators.foldl (fun (set : KVStore Address Int) v => set.set v.addr v.power) old.1,
    some (ev.validators.foldl (fun total v => total+v.power) 0))

theorem writesAt_setEpochValSet : WritesAt setEpochValSet EpochValidatorSet.epochNumber
    (fun s m => (s.valSet.sub m,s.votingPower.get m)) putSet where
  here s ev := by simp only [setEpochValSet,putSet,sub_foldl_set₂,get_set_self,if_true]
  elsewhere s ev m hm := by simp only [setEpochValSet,sub_foldl_set₂,hm,if_false,get_set]

theorem writesAt_setEpochSlashedValSet :
    WritesAt setEpochSlashedValSet EpochValidatorSet.epochNumber
    (fun s m => (s.slashedValSet.sub m,s.slashedVotingPower.get m)) putSet where
  here s ev := by simp only [setEpochSlashedValSet,putSet,sub_foldl_set₂,get_set_self,if_true]
  elsewhere s ev m hm := by simp only [setEpochSlashedValSet,sub_foldl_set₂,hm,if_false,get_set]

/-- What the sets of an export write: the sets as they were, with the totals of those that are not
empty. -/
theorem import_sets {f : Store → EpochValidatorSet → Store}
    {view : Store → Nat → KVStore Address Int × Option Int}
    (hw : WritesAt f EpochValidatorSet.epochNumber view putSet) (hc : s.Calendar n e)
    (hf : ∀ m, n < m → sets.sub m = .empty) (ht : ∀ m, view t m = (.empty,none)) (m : Nat) :
    view ((s.epochs.filterMap (exportSet sets)).foldl f t) m =
      (sets.sub m,if (sets.sub m).entries = [] then none else some (totalPower (sets.sub m))) := by
  by_cases he : (sets.sub m).entries = []
  · have hs : sets.sub m = .empty := by
      cases hst : sets.sub m
      rw [hst] at he
      subst he
      rfl
    have hnn : m ∉ (s.epochs.filterMap (exportSet sets)).map EpochValidatorSet.epochNumber := by
      intro hm
      obtain ⟨ev,hev,rfl⟩ := List.mem_map.mp hm
      obtain ⟨ep, -,her⟩ := List.mem_filterMap.mp hev
      rw [exportSet_number her] at he
      simp [exportSet,he] at her
    rw [hw.foldl_elsewhere hnn,ht,if_pos he,hs]
  · have hl : m ≤ n := by
      by_contra hlt
      exact he (by rw [hf m (by omega)]; rfl)
    obtain ⟨ep,hep⟩ := (hc.tiles.stored m).mpr hl
    have hn := hc.numbered m ep hep
    have hm : (⟨m,(sets.sub m).entries.map fun v => ⟨v.1,v.2⟩⟩ : EpochValidatorSet) ∈
        s.epochs.filterMap (exportSet sets) := by
      refine List.mem_filterMap.mpr ⟨ep,World.mem_epochs.mpr ⟨m,hep⟩,?_⟩
      simp [exportSet,hn,List.length_pos_iff.mpr he]
    have hh := hw.foldl_here (s := t) (exportSets_nodup hc sets) hm
    have hr := foldl_set_records (t := sets.sub m) Validator.addr Validator.power
      (fun v => ⟨v.1,v.2⟩) (fun _ _ => rfl) (fun _ _ => rfl)
    rw [hh,ht,putSet,hr,if_neg he,List.foldl_map]
    rfl

/-- The index of every message is stored, and so is their number. -/
structure Queued (s : Store) (n : Nat) : Prop where
  indexed : ∀ m, (s.msgQueue.sub m).Indexed (s.getEpochMsgs m)
  length : ∀ m, s.queueLength.getD m 0 = (s.getEpochMsgs m).length
  future : ∀ m, n < m → s.getEpochMsgs m = []

theorem writesAt_setEpochQueue : WritesAt setEpochQueue EpochQueue.epochNumber
    (fun s m => (s.msgQueue.sub m,s.queueLength.get m))
    (fun old eq =>
      ((eq.msgs.foldl (fun (q : KVStore Nat QueuedMessage × Nat) m => (q.1.set q.2 m,q.2+1))
        (old.1,0)).1,
        some (eq.msgs.foldl (fun (q : KVStore Nat QueuedMessage × Nat) m => (q.1.set q.2 m,q.2+1))
          (old.1,0)).2)) where
  here s eq := by
    obtain ⟨hh,hc, -⟩ := sub_foldl_counted eq.epochNumber eq.msgs s.msgQueue 0
    simp only [setEpochQueue,hh,hc,get_set_self]
  elsewhere s eq m hm := by
    obtain ⟨-, -,he⟩ := sub_foldl_counted eq.epochNumber eq.msgs s.msgQueue 0
    simp only [setEpochQueue,he m hm,get_set,hm,if_false]

theorem import_queues (hc : s.Calendar n e) (hq : s.Queued n)
    (ht : ∀ m, (t.msgQueue.sub m,t.queueLength.get m) = (.empty,none)) (m : Nat) :
    (((s.epochs.filterMap s.getEpochQueue).foldl setEpochQueue t).msgQueue.sub m,
      ((s.epochs.filterMap s.getEpochQueue).foldl setEpochQueue t).queueLength.get m) =
      (s.msgQueue.sub m,if s.getEpochMsgs m = [] then none else some (s.getEpochMsgs
        m).length) := by
  have hw := writesAt_setEpochQueue
  by_cases he : s.getEpochMsgs m = []
  · have hs : s.msgQueue.sub m = .empty := (hq.indexed m).ext (he ▸ indexed_empty)
    have hnn : m ∉ (s.epochs.filterMap s.getEpochQueue).map EpochQueue.epochNumber := by
      intro hm
      obtain ⟨eq,heq,rfl⟩ := List.mem_map.mp hm
      obtain ⟨ep, -,her⟩ := List.mem_filterMap.mp heq
      rw [getEpochQueue_number her] at he
      simp [getEpochQueue,he] at her
    rw [hw.foldl_elsewhere hnn,ht,if_pos he,hs]
  · have hl : m ≤ n := by
      by_contra hlt
      exact he (hq.future m (by omega))
    obtain ⟨ep,hep⟩ := (hc.tiles.stored m).mpr hl
    have hn := hc.numbered m ep hep
    have hm : (⟨m,s.getEpochMsgs m⟩ : EpochQueue) ∈ s.epochs.filterMap s.getEpochQueue := by
      refine List.mem_filterMap.mpr ⟨ep,World.mem_epochs.mpr ⟨m,hep⟩,?_⟩
      simp [getEpochQueue,hn,List.length_pos_iff.mpr he]
    have hh := hw.foldl_here (s := t) (queues_nodup hc) hm
    obtain ⟨hi,hcn⟩ := indexed_foldl (s.getEpochMsgs m) .empty [] indexed_empty
    simp only [List.length_nil,List.nil_append] at hi hcn
    rw [hh,ht,if_neg he,hcn,hi.ext (hq.indexed m)]

theorem initEpoch_export (hc : s.Calendar n e) (t : Store) (header : Header)
    (he : t.epochInfo = .empty) :
    t.initEpoch header s.epochs = .ok { t with epochInfo := s.epochInfo } := by
  have hn : s.epochs ≠ [] := List.ne_nil_of_mem (World.mem_epochs.mpr ⟨n,hc.current⟩)
  have hf := foldl_part epochInfo (fun s info => { s with epochInfo := info })
    (fun _ _ => rfl) (fun _ _ _ => rfl) (fun _ => rfl)
    (fun info e => info.set e.epochNumber e) s.epochs t
  have hr := foldl_set_values Epoch.epochNumber hc.numbered
  rw [initEpoch,if_pos hn]
  change Except.ok (s.epochs.foldl
      (fun s e => { s with epochInfo := s.epochInfo.set e.epochNumber e }) t) = _
  rw [hf,he]
  exact congrArg (fun info => Except.ok { t with epochInfo := info }) hr

theorem foldl_setEpochQueue (l : List EpochQueue) (t : Store) :
    ∃ q len, l.foldl setEpochQueue t = { t with msgQueue := q, queueLength := len } := by
  induction l generalizing t with
  | nil => exact ⟨_,_,rfl⟩
  | cons eq l ih =>
    obtain ⟨q,len,hf⟩ := ih (t.setEpochQueue eq)
    exact ⟨q,len,hf⟩

theorem foldl_setEpochValSet (l : List EpochValidatorSet) (t : Store) :
    ∃ v p, l.foldl setEpochValSet t = { t with valSet := v, votingPower := p } := by
  induction l generalizing t with
  | nil => exact ⟨_,_,rfl⟩
  | cons ev l ih =>
    obtain ⟨v,p,hf⟩ := ih (t.setEpochValSet ev)
    exact ⟨v,p,hf⟩

theorem foldl_setEpochSlashedValSet (l : List EpochValidatorSet) (t : Store) :
    ∃ v p, l.foldl setEpochSlashedValSet t =
      { t with slashedValSet := v, slashedVotingPower := p } := by
  induction l generalizing t with
  | nil => exact ⟨_,_,rfl⟩
  | cons ev l ih =>
    obtain ⟨v,p,hf⟩ := ih (t.setEpochSlashedValSet ev)
    exact ⟨v,p,hf⟩

/-- Without a queue in the export the length of the current one is set to zero. -/
theorem initGenMsgQueue_export (hc : s.Calendar n e) (hq : s.Queued n) (hep : t.getEpoch = .ok e)
    (hqu : t.msgQueue = .empty) (hl : t.queueLength = .empty) :
    ∃ q l, t.initGenMsgQueue s.exportGenesis.queues =
      .ok { t with msgQueue := q, queueLength := l } ∧
      (∀ m, q.sub m = s.msgQueue.sub m) ∧ ∀ m, l.getD m 0 = s.queueLength.getD m 0 := by
  have hp := import_queues hc hq (t := t) (by simp [hqu,hl])
  by_cases hn : s.exportGenesis.queues = []
  · have hls : s.epochs.filterMap s.getEpochQueue = [] := hn
    simp only [hls,List.foldl_nil,hl,get_empty,Prod.mk.injEq] at hp
    refine ⟨t.msgQueue,t.queueLength.set e.epochNumber 0,?_,fun m => (hp m).1,fun m => ?_⟩
    · rw [initGenMsgQueue,if_neg (not_not.mpr hn),initMsgQueue,hep]
      rfl
    · have hm : s.getEpochMsgs m = [] := by
        by_contra hne
        have hr := (hp m).2
        rw [if_neg hne] at hr
        cases hr
      rw [hq.length,hm,getD_set,hl]
      split <;> rfl
  · obtain ⟨q,len,hf⟩ := foldl_setEpochQueue (s.epochs.filterMap s.getEpochQueue) t
    rw [hf] at hp
    refine ⟨q,len,?_,fun m => congrArg Prod.fst (hp m),fun m => ?_⟩
    · rw [initGenMsgQueue,if_pos hn]
      exact congrArg Except.ok hf
    · have hg : len.get m = _ := congrArg Prod.snd (hp m)
      rw [hq.length,getD,hg]
      split
      · rename_i he
        rw [he]
        rfl
      · rfl

theorem initGenValidatorSet_export (hc : s.Calendar n e) (hr : s.Records n)
    (hmm : ∀ m, m ≤ n → (s.valSet.sub m).entries ≠ []) (last : ValidatorPowers)
    (hs : t.valSet = .empty) (hpw : t.votingPower = .empty) :
    ∃ v, t.initGenValidatorSet last s.exportGenesis.validatorSets =
        .ok { t with valSet := v, votingPower := s.votingPower } ∧
        ∀ m, v.sub m = s.valSet.sub m := by
  have hpr := import_sets writesAt_setEpochValSet hc hr.future (t := t) (by simp [hs,hpw])
  have hn : s.exportGenesis.validatorSets ≠ [] := by
    intro hnl
    have hl : s.epochs.filterMap (exportSet s.valSet) = [] := hnl
    simp only [hl,List.foldl_nil,hs,sub_empty,Prod.mk.injEq] at hpr
    refine hmm n (Nat.le_refl n) ?_
    rw [← (hpr n).1]
    rfl
  obtain ⟨v,p,hf⟩ := foldl_setEpochValSet (s.epochs.filterMap (exportSet s.valSet)) t
  rw [hf] at hpr
  have hp : p = s.votingPower := by
    refine ext_get fun m => ?_
    have hg : p.get m = _ := congrArg Prod.snd (hpr m)
    rw [hg,hr.powers m]
    by_cases hm : m ≤ n
    · rw [if_neg (hmm m hm),if_pos hm]
    · rw [if_neg hm,hr.future m (by omega)]
      rfl
  refine ⟨v,?_,fun m => congrArg Prod.fst (hpr m)⟩
  rw [initGenValidatorSet,if_pos hn,← hp]
  exact congrArg Except.ok hf

/-- The slashed power of the current epoch is written when someone was slashed in it, or when
nobody was slashed at all. -/
theorem initGenSlashedVotingPower_export (hc : s.Calendar n e) (hr : s.Records n)
    (hnw : (s.slashedValSet.sub n).entries ≠ [] ∨ ∀ m, (s.slashedValSet.sub m).entries = [])
    (hep : t.getEpoch = .ok e) (hs : t.slashedValSet = .empty)
    (hpw : t.slashedVotingPower = .empty) :
    ∃ v p, t.initGenSlashedVotingPower s.exportGenesis.slashedValidatorSets =
        .ok { t with slashedValSet := v, slashedVotingPower := p } ∧
        (∀ m, v.sub m = s.slashedValSet.sub m) ∧
      (∀ m, p.getD m 0 = s.slashedVotingPower.getD m 0) ∧ p.get n = s.slashedVotingPower.get n := by
  have hp := import_sets writesAt_setEpochSlashedValSet hc
    (fun m hm => hr.slashed_future hm) (t := t)
    (by simp [hs,hpw])
  have hz : ∀ m, (s.slashedValSet.sub m).entries = [] → totalPower (s.slashedValSet.sub m) = 0 := by
    intro m hm
    simp [totalPower,hm]
  have hold : ∀ m, s.slashedVotingPower.getD m 0 = totalPower (s.slashedValSet.sub m) := by
    intro m
    rw [getD,hr.slashedPowers]
    split
    · rfl
    · rw [hr.slashed_future (by omega)]
      rfl
  by_cases hnn : s.exportGenesis.slashedValidatorSets = []
  · have hl : s.epochs.filterMap (exportSet s.slashedValSet) = [] := hnn
    simp only [hl,List.foldl_nil,hs,sub_empty,Prod.mk.injEq] at hp
    have he : ∀ m, (s.slashedValSet.sub m).entries = [] := fun m => by rw [← (hp m).1]; rfl
    refine ⟨t.slashedValSet,t.slashedVotingPower.set e.epochNumber 0,?_,
      fun m => by rw [hs,← (hp m).1]; rfl,fun m => ?_,?_⟩
    · rw [initGenSlashedVotingPower,if_neg (not_not.mpr hnn),initSlashedVotingPower,hep]
      rfl
    · rw [hold,hz m (he m),getD_set,hpw]
      split <;> rfl
    · rw [hc.number,get_set_self,hr.slashedPowers,if_pos (Nat.le_refl n),hz n (he n)]
  · obtain ⟨v,p,hf⟩ := foldl_setEpochSlashedValSet
      (s.epochs.filterMap (exportSet s.slashedValSet)) t
    rw [hf] at hp
    have hg : ∀ m, p.get m = if (s.slashedValSet.sub m).entries = [] then none
        else some (totalPower (s.slashedValSet.sub m)) := fun m => congrArg Prod.snd (hp m)
    refine ⟨v,p,?_,fun m => congrArg Prod.fst (hp m),fun m => ?_,?_⟩
    · rw [initGenSlashedVotingPower,if_pos hnn]
      exact congrArg Except.ok hf
    · rw [hold,getD,hg]
      split
      · rename_i hm
        rw [hz m hm]
        rfl
      · rfl
    · have hn : (s.slashedValSet.sub n).entries ≠ [] := by
        rcases hnw with hn | hnv
        · exact hn
        · refine absurd ?_ hnn
          refine List.filterMap_eq_nil_iff.mpr fun ep _ => ?_
          simp [exportSet,hnv]
      rw [hg,if_neg hn,hr.slashedPowers,if_pos (Nat.le_refl n)]

theorem lifecycles_export (hl : s.Lives) (hva : t.valLifecycle = .empty)
    (hde : t.delegationLifecycle = .empty) :
    (s.exportGenesis.validatorsLifecycle.foldlM setGenValLifecycle t >>= fun t =>
      s.exportGenesis.delegationsLifecycle.foldlM setGenDelegationLifecycle t) =
      .ok { t with
        valLifecycle := s.valLifecycle, delegationLifecycle := s.delegationLifecycle } := by
  have hvl := foldlM_values (f := setGenValLifecycle) (l := s.valLifecycle.entries)
    (fun t e => { t with valLifecycle := t.valLifecycle.set e.1 e.2 }) (by
      intro e he t
      have hn := (hl.validators e.1 e.2 (mem_entries.mp he)).1
      rw [setGenValLifecycle,hn,valAddressFromBech32_valString]
      rfl) t
  have hdl := fun t => foldlM_values (f := setGenDelegationLifecycle)
    (l := s.delegationLifecycle.entries)
    (fun t e => { t with delegationLifecycle := t.delegationLifecycle.set e.1 e.2 }) (by
      intro e he t
      have hn := (hl.delegations e.1 e.2 (mem_entries.mp he)).1
      rw [setGenDelegationLifecycle,hn,accAddressFromBech32_accString]
      rfl) t
  have hv := foldl_part valLifecycle (fun s lives => { s with valLifecycle := lives })
    (fun _ _ => rfl) (fun _ _ _ => rfl) (fun _ => rfl) (fun lives e => lives.set e.1 e.2)
      s.valLifecycle.entries t
  have hd := fun t => foldl_part delegationLifecycle
    (fun s lives => { s with delegationLifecycle := lives })
    (fun _ _ => rfl) (fun _ _ _ => rfl) (fun _ => rfl) (fun lives e => lives.set e.1 e.2)
      s.delegationLifecycle.entries t
  simp only [exportGenesis,hvl,hdl,ok_bind,hv,hd,hva,hde,foldl_set_entries]

theorem initGenesis_export (hc : s.Calendar n e) (hr : s.Records n) (hq : s.Queued n)
    (hm : ∀ m, m ≤ n → (s.valSet.sub m).entries ≠ [])
    (hn : (s.slashedValSet.sub n).entries ≠ [] ∨ ∀ m, (s.slashedValSet.sub m).entries = [])
    (header : Header) (last : ValidatorPowers) :
    ∃ t, Store.empty.initGenesis header last s.exportGenesis = .ok t ∧ s.Restored n t := by
  have he : ∀ t : Store, t.epochInfo = s.epochInfo → t.getEpoch = .ok e := by
    intro t ht
    rw [← hc.getEpoch,getEpoch,getEpoch,ht]
  have h₁ := initEpoch_export hc empty header rfl
  obtain ⟨q,len,h₂,hs,hl⟩ :=
    initGenMsgQueue_export hc hq (he { empty with epochInfo := s.epochInfo } rfl)
    rfl rfl
  obtain ⟨vs,h₃,hv⟩ := initGenValidatorSet_export hc hr hm
    (t := { empty with epochInfo := s.epochInfo, msgQueue := q, queueLength := len }) last rfl rfl
  obtain ⟨ss,ps,h₄,hss,hps,hp⟩ := initGenSlashedVotingPower_export hc hr hn
    (he { empty with epochInfo := s.epochInfo, msgQueue := q, queueLength := len, valSet := vs,
                               votingPower := s.votingPower } rfl) rfl rfl
  have h₅ := lifecycles_export hr.lives
    (t := { empty with
      epochInfo := s.epochInfo, msgQueue := q, queueLength := len, valSet := vs
      votingPower := s.votingPower, slashedValSet := ss, slashedVotingPower := ps }) rfl rfl
  obtain ⟨t₅,h₅₁,h₅₂⟩ := bind_eq_ok.mp h₅
  refine ⟨{ s with
      msgQueue := q, queueLength := len, valSet := vs
      slashedValSet := ss, slashedVotingPower := ps },?_,
    ⟨rfl,rfl,hs,hl,hv,rfl,hss,hps,hp,rfl,rfl⟩⟩
  simp only [initGenesis,exportGenesis] at h₂ h₃ h₄ h₅₁ h₅₂ ⊢
  simp only [h₁,h₂,h₃,h₄,h₅₁,h₅₂,ok_bind,setParams,hc.params]
  rfl

end Store

end AnonChain.Epoching
