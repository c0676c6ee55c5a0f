import AnonChain.Inclusion
import AnonChain.BtcCheckpoint.Regtest

/-! One position can be claimed in several ways, so a pair may be accepted under another key. -/

namespace AnonChain.BtcCheckpoint

open Lib BtcLightClient List Option BtcCheckpoint.Regtest

def pairOf (E : Env) (i : TransactionInfo) : Hash × Option Hash :=
  (i.key.hash,(E.parseTransaction i.transaction).map E.btc.txHash)

def pairsOf (E : Env) (sd : SubmissionData) : List (Hash × Option Hash) := sd.txsInfo.map (pairOf E)

namespace Regtest

def submitted : List Action :=
  [.sealCheckpoint (checkpoint 1),insert [block 101 100 1 1,block 102 101 1 1],
    submit (block 101 100 1 1) 1 0 1]

theorem reachable_deliver {w : World} {as : List Action} {G : World → Action → World → Prop}
    (hG : ∀ a ∈ as, ∀ w w', G w a w') (h : as.foldlM (deliver env) genesis = .ok w) :
    ((timestamping env).restrict G).Reachable w := by
  refine foldlM_keeps (P := ((timestamping env).restrict G).Reachable) ?_ (.init genesis_init) h
  intro a ha t t' ht hs
  exact ht.step ⟨hs,hG a ha t t'⟩

def submittedKey : SubmissionKey := [⟨0,writeBE 32 101⟩,⟨1,writeBE 32 101⟩]
def repeatedKey : SubmissionKey := [⟨2,writeBE 32 101⟩,⟨1,writeBE 32 101⟩]

end Regtest

/-- The same two transactions are accepted again when the first one is claimed at position 2 of its
block of two. -/
theorem submitted_again :
    ∃ w w' sd sd', (timestamping env).Reachable w ∧
      deliver env w (submit (block 101 100 1 1) 1 2 1) = .ok w' ∧
      w.keepers.btccheckpoint.submissions.get Regtest.submittedKey = some sd ∧
      w.keepers.btccheckpoint.submissions.get Regtest.repeatedKey = none ∧
      w'.keepers.btccheckpoint.submissions.get Regtest.repeatedKey = some sd' ∧
      pairsOf env sd = pairsOf env sd' := by
  have hrn : holds (submitted.foldlM (deliver env) genesis) (fun w =>
      holds (deliver env w (submit (block 101 100 1 1) 1 2 1)) (fun w' =>
        (w.keepers.btccheckpoint.submissions.get repeatedKey).isNone &&
        (w.keepers.btccheckpoint.submissions.get submittedKey).any (fun sd =>
          (w'.keepers.btccheckpoint.submissions.get repeatedKey).any (fun sd' =>
            decide (pairsOf env sd = pairsOf env sd'))))) = true := by decide +kernel
  obtain ⟨w,hw,hn⟩ := holds_iff.mp hrn
  obtain ⟨w',hw',ht⟩ := holds_iff.mp hn
  simp only [Bool.and_eq_true,Option.isNone_iff_eq_none,Option.any_eq_true,decide_eq_true_eq] at ht
  obtain ⟨hnn,sd,hs,sd',hs',hp⟩ := ht
  have hr : ((timestamping env).restrict (fun _ _ _ => True)).Reachable w :=
    reachable_deliver (fun _ _ _ _ => trivial) hw
  exact ⟨w,w',sd,sd',hr.of_restrict,hw',hs,hnn,hs',hp⟩

section

variable {E : Env} {blocks : Hash → List MsgTx} {w w' : World} {sk : SubmissionKey}
  {sd : SubmissionData}

/-- A proof that claims the position of its transaction in the one canonical way, for a block with
distinct transactions and hashes that do not collide. -/
structure CanonicalProof (E : Env) (txs : List MsgTx) (p : BTCSpvProof) (tx : MsgTx) : Prop where
  block : blockRoot E.btc txs = some p.confirmingBtcHeader.merkleRoot
  distinct : (txs.map E.btc.txHash).Nodup
  apart : HashesApart E.btc txs tx p.merkleNodes p.btcTransactionIndex
  index_lt : p.btcTransactionIndex < 2^(p.merkleNodes.length/32)
  siblings : LeftSiblingsDiffer (merkleNode E.btc) (E.btc.txHash tx) p.btcTransactionIndex
    (merklePath p.merkleNodes)

def CanonicalProofs (E : Env) (blocks : Hash → List MsgTx) (a : Action) : Prop :=
  ∀ req, a = .insertBTCSpvProof req →
    ∀ p ∈ req.proofs, ∀ tx, E.parseTransaction p.btcTransaction = some tx →
    CanonicalProof E (blocks (E.btc.blockHash p.confirmingBtcHeader)) p tx

/-- The stored transaction is in its block at the position of the key. -/
structure Placed (E : Env) (blocks : Hash → List MsgTx) (i : TransactionInfo) : Prop where
  distinct : ((blocks i.key.hash).map E.btc.txHash).Nodup
  position : ∃ tx, E.parseTransaction i.transaction = some tx ∧
    ((blocks i.key.hash).map E.btc.txHash)[i.key.index]? = some (E.btc.txHash tx)

theorem Placed.key_eq {i i' : TransactionInfo} (h : Placed E blocks i) (h' : Placed E blocks i')
    (hpr : pairOf E i = pairOf E i') : i.key = i'.key := by
  obtain ⟨tx,ht,hp⟩ := h.position
  obtain ⟨tx',ht',hp'⟩ := h'.position
  simp only [pairOf,ht,ht',map_some,Prod.mk.injEq,some.injEq] at hpr
  obtain ⟨hh,hi⟩ := hpr
  rw [← hi,← hh] at hp'
  have hin : i.key.index = i'.key.index :=
    (List.getElem?_inj (List.getElem?_eq_some_iff.mp hp).1 h.distinct).mp (hp.trans hp'.symm)
  cases hk : i.key with
  | mk _ _ =>
    cases hk' : i'.key with
    | mk _ _ => simp_all

theorem keys_eq_of_pairs {l l' : List TransactionInfo} (hl : ∀ i ∈ l, Placed E blocks i)
    (hl' : ∀ i ∈ l', Placed E blocks i) (h : l.map (pairOf E) = l'.map (pairOf E)) :
    l.map TransactionInfo.key = l'.map TransactionInfo.key := by
  induction l generalizing l' with
  | nil => simp_all
  | cons i l ih =>
    cases l' with
    | nil => simp at h
    | cons i' l' =>
      simp only [map_cons,cons.injEq] at h
      have hk := (hl i mem_cons_self).key_eq (hl' i' mem_cons_self) h.1
      have hr := ih (fun j hj => hl j (mem_cons_of_mem i hj))
        (fun j hj => hl' j (mem_cons_of_mem i' hj)) h.2
      rw [map_cons,map_cons,hk,hr]

structure DataPlaced (E : Env) (blocks : Hash → List MsgTx) (sk : SubmissionKey)
    (sd : SubmissionData) : Prop where
  key : sd.txsInfo.map TransactionInfo.key = sk
  placed : ∀ i ∈ sd.txsInfo, Placed E blocks i

theorem parseProof_placed (hs : HashSize E.btc) {p : BTCSpvProof} {parsed : ParsedProof}
    (hp : ∀ tx, E.parseTransaction p.btcTransaction = some tx →
      CanonicalProof E (blocks (E.btc.blockHash p.confirmingBtcHeader)) p tx)
    (h : parseProof E p = .ok parsed) :
    Placed E blocks ⟨toTransactionKey parsed,p.btcTransaction,p.merkleNodes⟩ := by
  simp only [parseProof,ok_iff] at h
  obtain ⟨tx,ht, -,hv,_, -, -,rfl⟩ := h
  have hc := hp tx ht
  obtain ⟨j,hj, -,hps⟩ :=
    verifyInclusionProof_position hs hc.block hc.apart hv
  rw [hps hc.siblings,Nat.mod_eq_of_lt hc.index_lt] at hj
  exact ⟨hc.distinct,tx,ht,hj⟩

theorem Accepted.dataPlaced (hs : HashSize E.btc) {req : MsgInsertBTCSpvProof}
    {raw : RawCheckpointSubmission} (hr : CanonicalProofs E blocks (.insertBTCSpvProof req))
    (h : Accepted E w req raw) :
    DataPlaced E blocks raw.getSubmissionKey (submissionDataOf req raw) := by
  have hp := h.parsed
  simp only [parseSubmission,ok_iff] at hp
  obtain ⟨address, -,hp⟩ := hp
  unfold parseTwoProofs at hp
  split at hp
  · rename_i p1 p2 hpf
    simp only [ok_iff] at hp
    obtain ⟨proof1,h1,proof2,h2,_, -,_, -,_, -,data, -,rfl⟩ := hp
    have hi : (submissionDataOf req ⟨address,proof1,proof2,data⟩).txsInfo =
        [⟨toTransactionKey proof1,p1.btcTransaction,p1.merkleNodes⟩,
          ⟨toTransactionKey proof2,p2.btcTransaction,p2.merkleNodes⟩] := by
      simp [submissionDataOf,RawCheckpointSubmission.getSubmissionData,
        RawCheckpointSubmission.getSubmissionKey,hpf]
    constructor
    · rw [hi]
      rfl
    · rw [hi]
      simp only [mem_cons,not_mem_nil,or_false,forall_eq_or_imp,forall_eq]
      exact ⟨parseProof_placed hs (hr req rfl p1 (by simp [hpf])) h1,
        parseProof_placed hs (hr req rfl p2 (by simp [hpf])) h2⟩
  · simp at hp

theorem get_of_checkEpoch {b : BtcLightClient.State} {k k' : Keepers} {parent : Option EpochInfo}
    {e : Nat} {ed : EpochData} {info : EpochInfo} (h : checkEpoch b k parent e ed = .ok (k',info))
    (hg : k'.btccheckpoint.submissions.get sk = some sd) :
    k.btccheckpoint.submissions.get sk = some sd := by
  have hf : (k.forgetEpoch e ed).btccheckpoint.submissions.get sk = some sd →
      k.btccheckpoint.submissions.get sk = some sd := by
    rw [forgetEpoch_btccheckpoint,get_deleteSubmissions]
    split <;> simp
  unfold checkEpoch at h
  split at h
  · split at h
    · simp only [ok_iff,Prod.mk.injEq] at h
      obtain ⟨_, -,rfl, -⟩ := h
      exact hg
    · simp at h
  · rename_i ho
    split at h
    · rw [pure_eq_ok,Prod.mk.injEq] at h
      exact hf (h.1 ▸ hg)
    · simp only [bind_eq_ok] at h
      obtain ⟨c, -,h⟩ := h
      split at h
      · rw [pure_eq_ok,Prod.mk.injEq] at h
        exact hf (h.1 ▸ hg)
      · simp only [ok_iff,Prod.mk.injEq] at h
        obtain ⟨best, -,rfl, -⟩ := h
        by_cases hd : k.btccheckpoint.params.checkpointFinalizationTimeout ≤ best.youngestBlockDepth
        · rw [applyEpochChanges_deep ho hd,get_deleteSubmissions] at hg
          split at hg <;> simp_all
        · obtain ⟨_, -, -,hb⟩ := applyEpochChanges_shallow (k := k) (e := e) (c := c) ho hd
          rw [hb,get_deleteSubmissions] at hg
          split at hg <;> simp_all

theorem get_of_checkEpochs {b : BtcLightClient.State} {l : List (Nat × EpochData)}
    {parent : Option EpochInfo} {k k' : Keepers} (h : checkEpochs b l parent k = .ok k')
    (hg : k'.btccheckpoint.submissions.get sk = some sd) :
    k.btccheckpoint.submissions.get sk = some sd := by
  induction l generalizing parent k with
  | nil =>
    rw [checkEpochs,Except.ok.injEq] at h
    rw [h]
    exact hg
  | cons x l ih =>
    rw [checkEpochs] at h
    split at h
    · rw [Except.ok.injEq] at h
      rw [h]
      exact hg
    · simp only [bind_eq_ok] at h
      obtain ⟨⟨k₁,info⟩,he,hr⟩ := h
      exact get_of_checkEpoch he (ih hr)

theorem get_of_deliver {a : Action} (h : deliver E w a = .ok w')
    (hg : w'.keepers.btccheckpoint.submissions.get sk = some sd) :
    w.keepers.btccheckpoint.submissions.get sk = some sd ∨
      ∃ req raw, a = .insertBTCSpvProof req ∧ Accepted E w req raw ∧ sk = raw.getSubmissionKey ∧
        sd = submissionDataOf req raw := by
  cases deliver_effect h with
  | headers _ => exact .inl hg
  | conflict => exact .inl hg
  | @submit req raw ha =>
    rcases KVStore.get_set_cases hg with ⟨hsk,hs⟩ | ⟨_,hg⟩
    · exact .inr ⟨req,raw,rfl,ha,hsk,hs⟩
    · exact .inl hg
  | params _ => exact .inl hg
  | sealed _ _ _ => exact .inl hg
  | pass _ hp => exact .inl (get_of_checkEpochs hp hg)
  | quiet _ => exact .inl hg

theorem dataPlaced_reachable (hsz : HashSize E.btc)
    (h : ((timestamping E).restrict (fun _ a _ => CanonicalProofs E blocks a)).Reachable w)
    (hg : w.keepers.btccheckpoint.submissions.get sk = some sd) : DataPlaced E blocks sk sd := by
  induction h generalizing sk sd with
  | init h0 => simp [h0.noSubmissions] at hg
  | step _ hs ih =>
    rcases get_of_deliver hs.1 hg with hold | ⟨req,raw,rfl,ha,rfl,rfl⟩
    · exact ih hold
    · exact ha.dataPlaced hsz hs.2

/-- In a run of canonical proofs, no message is accepted whose two transactions are those of a
submission that is still stored. -/
theorem submissionPairs_new (hsize : HashSize E.btc)
    (h : ((timestamping E).restrict (fun _ a _ => CanonicalProofs E blocks a)).Reachable w)
    {req : MsgInsertBTCSpvProof} (hreq : CanonicalProofs E blocks (.insertBTCSpvProof req))
    (hstep : deliver E w (.insertBTCSpvProof req) = .ok w')
    {sk sk' : SubmissionKey} {sd sd' : SubmissionData}
    (hstored : w.keepers.btccheckpoint.submissions.get sk = some sd)
    (hfresh : w.keepers.btccheckpoint.submissions.get sk' = none)
    (hnew : w'.keepers.btccheckpoint.submissions.get sk' = some sd') :
    pairsOf E sd ≠ pairsOf E sd' := by
  intro hp
  have hold := dataPlaced_reachable hsize h hstored
  have hn : DataPlaced E blocks sk' sd' :=
    dataPlaced_reachable hsize (h.step (a := .insertBTCSpvProof req) ⟨hstep,hreq⟩) hnew
  have hk := keys_eq_of_pairs hold.placed hn.placed hp
  rw [hold.key,hn.key] at hk
  rw [← hk,hstored] at hfresh
  simp at hfresh

end

namespace Regtest

theorem hashSize : HashSize env.btc := ⟨fun _ => length_writeBE 32 _,fun _ => length_writeBE 32 _⟩

def blockTxs : List MsgTx := [⟨[],[⟨0,firstTx 1⟩],0⟩,⟨[],[⟨0,secondTx 1⟩],0⟩]

theorem blockTxs_root :
    blockRoot btc blockTxs = some (hash (hash (firstTx 1) ++ hash (secondTx 1))) :=
  by decide +kernel

theorem blockTxs_distinct : (blockTxs.map btc.txHash).Nodup := by decide +kernel

theorem first_apart : HashesApart btc blockTxs ⟨[],[⟨0,firstTx 1⟩],0⟩ (hash (secondTx 1)) 0 where
  pairs := by decide +kernel
  leaf := by decide +kernel
  start := by decide +kernel

theorem second_apart : HashesApart btc blockTxs ⟨[],[⟨0,secondTx 1⟩],0⟩ (hash (firstTx 1)) 1 where
  pairs := by decide +kernel
  leaf := by decide +kernel
  start := by decide +kernel

theorem siblings_differ :
    LeftSiblingsDiffer (merkleNode btc) (btc.txHash ⟨[],[⟨0,firstTx 1⟩],0⟩) 0
        (merklePath (hash (secondTx 1))) ∧
      LeftSiblingsDiffer (merkleNode btc) (btc.txHash ⟨[],[⟨0,secondTx 1⟩],0⟩) 1
        (merklePath (hash (firstTx 1))) := by decide +kernel

theorem canonical_submit (nonce prev work : Nat) :
    CanonicalProofs env (fun _ => blockTxs) (submit (block nonce prev work 1) 1 0 1) := by
  intro req hr p hp tx ht
  rw [submit,Action.insertBTCSpvProof.injEq] at hr
  subst hr
  simp only [mem_cons,not_mem_nil,or_false] at hp
  rcases hp with rfl | rfl
  · obtain rfl : (⟨[],[⟨0,firstTx 1⟩],0⟩ : MsgTx) = tx := some.inj ht
    exact ⟨blockTxs_root,blockTxs_distinct,first_apart,by simp [hash],siblings_differ.1⟩
  · obtain rfl : (⟨[],[⟨0,secondTx 1⟩],0⟩ : MsgTx) = tx := some.inj ht
    exact ⟨blockTxs_root,blockTxs_distinct,second_apart,by simp [hash],siblings_differ.2⟩

theorem canonical_submitted (a : Action) (ha : a ∈ submitted) :
    CanonicalProofs env (fun _ => blockTxs) a := by
  simp only [submitted,mem_cons,not_mem_nil,or_false] at ha
  rcases ha with rfl | rfl | rfl
  · intro req hr
    simp at hr
  · intro req hr
    simp [insert] at hr
  · exact canonical_submit 101 100 1

def nextKey : SubmissionKey := [⟨0,writeBE 32 102⟩,⟨1,writeBE 32 102⟩]

end Regtest

/-- The two transactions in another block are another pair. -/
theorem submissionPairs_new_block :
    ∃ w w' sd sd', ((timestamping env).restrict
        (fun _ a _ => CanonicalProofs env (fun _ => Regtest.blockTxs) a)).Reachable w ∧
      deliver env w (submit (block 102 101 1 1) 1 0 1) = .ok w' ∧
      w.keepers.btccheckpoint.submissions.get Regtest.submittedKey = some sd ∧
      w'.keepers.btccheckpoint.submissions.get Regtest.nextKey = some sd' ∧
      pairsOf env sd ≠ pairsOf env sd' := by
  have hrn : holds (submitted.foldlM (deliver env) genesis) (fun w =>
      holds (deliver env w (submit (block 102 101 1 1) 1 0 1)) (fun w' =>
        (w.keepers.btccheckpoint.submissions.get nextKey).isNone &&
        (w.keepers.btccheckpoint.submissions.get submittedKey).isSome &&
          (w'.keepers.btccheckpoint.submissions.get nextKey).isSome)) = true := by
    decide +kernel
  obtain ⟨w,hw,hn⟩ := holds_iff.mp hrn
  obtain ⟨w',hw',ht⟩ := holds_iff.mp hn
  simp only [Bool.and_eq_true,Option.isNone_iff_eq_none,isSome_iff_exists] at ht
  obtain ⟨⟨hf,sd,hs⟩,sd',hs'⟩ := ht
  have hr : ((timestamping env).restrict
      (fun _ a _ => CanonicalProofs env (fun _ => blockTxs) a)).Reachable w :=
    reachable_deliver (fun a ha _ _ => canonical_submitted a ha) hw
  exact ⟨w,w',sd,sd',hr,hw',hs,hs',submissionPairs_new hashSize hr
    (canonical_submit 102 101 1) hw' hs hf hs'⟩

end AnonChain.BtcCheckpoint
