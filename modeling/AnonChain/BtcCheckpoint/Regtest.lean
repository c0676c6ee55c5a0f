import AnonChain.BtcCheckpoint.Steps

/-! A small environment for the checkpoint modules; a block holds the two transactions of a
checkpoint. -/

namespace AnonChain.BtcCheckpoint.Regtest

open Lib BtcLightClient Checkpointing KVStore State

def hash (l : Bytes) : Hash := writeBE 32 (l.foldl (fun a d => (a*257+d.val+1)%(2^251-9)) 7)

def btc : BtcLib where
  txHash tx := hash (tx.txOut.flatMap TxOut.pkScript)
  doubleHash := hash
  blockHash h := writeBE 32 h.nonce
  calcHeaderWork h := h.bits
  checkHeader _ _ _ := true

def env : Env where
  btc := btc
  parseTransaction t := some ⟨[],[⟨0,t⟩],0⟩
  validateBTCHeader _ := true
  isNullData script := script.head? = some 0x6a
  sha256 := hash
  verifyRawCheckpoint _ := false
  authority := [7]

def tag : Bytes := [1,2,3,4]

def checkpoint (epoch : Nat) : RawCheckpointWithMeta :=
  ⟨⟨epoch,List.replicate 32 1,List.replicate 13 1,List.replicate 48 2⟩,.Sealed⟩

def firstPart (epoch : Nat) : Bytes :=
  writeBE 8 epoch ++ List.replicate 32 1 ++ List.replicate 13 1 ++ List.replicate 20 3

def firstTx (epoch : Nat) : Bytes := [0x6a,0x4c,78] ++ tag ++ [0] ++ firstPart epoch

def secondTx (epoch : Nat) : Bytes :=
  [0x6a,63] ++ tag ++ [0x10] ++ List.replicate 48 2 ++ (hash (firstPart epoch)).take 10

def block (nonce prev work epoch : Nat) : BlockHeader :=
  ⟨1,writeBE 32 prev,hash (hash (firstTx epoch) ++ hash (secondTx epoch)),0,work,nonce⟩

def submit (header : BlockHeader) (epoch i j : Nat) : Action :=
  .insertBTCSpvProof ⟨some [9],
    [⟨firstTx epoch,i,hash (secondTx epoch),header⟩,⟨secondTx epoch,j,hash (firstTx epoch),header⟩]⟩

def insert (headers : List BlockHeader) : Action := .insertHeaders ⟨some [9],headers⟩

def genesis : World where
  btclc :=
    { headers := KVStore.empty.set 100 ⟨block 100 99 1 0,writeBE 32 100,100,100⟩
      hashToHeight := KVStore.empty.set (writeBE 32 100) 100
      insertHeadersAllowList := [] }
  keepers :=
    ⟨{ params := ⟨1,3,tag⟩
       epochData := .empty
       submissions := .empty
       lastFinalizedEpoch := 0 },
     { checkpoints := .empty
       lastFinalizedEpoch := 0
       conflictingCheckpointReceived := false }⟩
  btcLightClientUpdated := false

theorem genesis_init : Genesis genesis where
  btclc := by
    have hk : ∀ h i, genesis.btclc.headers.get h = some i → i.height = h := forall_set rfl nofun
    exact ⟨hk _ _,100,_,rfl⟩
  params := rfl
  noEpochs := rfl
  noSubmissions := rfl
  noFinalized := rfl
  noCheckpoints := rfl
  noFinalizedCheckpoint := rfl

def deliverOpen (w : World) (a : Action) : Result World := do
  ensure (∀ x ∈ w.keepers.btccheckpoint.epochData.entries, x.2.status ≠ .Finalized)
    (.errorf "an epoch is finalized")
  deliver env w a

theorem statusOf_ne_finalized {s : State} (h : ∀ x ∈ s.epochData.entries, x.2.status ≠ .Finalized)
    (e : Nat) : s.statusOf e ≠ .Finalized := by
  cases hg : s.epochData.get e with
  | none => simp [statusOf,dataOf,getD,hg,newEmptyEpochData]
  | some ed =>
    rw [statusOf,dataOf_eq hg]
    exact h (e,ed) (mem_entries.mpr hg)

theorem deliverOpen_keeps {w w' : World} {a : Action} (h : deliverOpen w a = .ok w') :
    deliver env w a = .ok w' ∧ KeepsFinalized w a w' := by
  simp only [deliverOpen,ok_iff] at h
  refine ⟨h.2,?_⟩
  intro e hs
  exact absurd hs (statusOf_ne_finalized h.1 e)

theorem reachable_deliverOpen {w : World} {as : List Action}
    (h : as.foldlM deliverOpen genesis = .ok w) :
    ((timestamping env).restrict KeepsFinalized).Reachable w := by
  refine foldlM_keeps (P := ((timestamping env).restrict KeepsFinalized).Reachable) ?_
    (.init genesis_init) h
  intro a _ t t' ht hs
  exact ht.step (deliverOpen_keeps hs)

/-- Delivers an action whose state also passes a test. -/
def deliverTested (test : World → Bool) (w : World) (a : Action) : Result World := do
  ensure (test w = true) (.errorf "the state does not pass the test")
  deliverOpen w a

theorem reachable_deliverTested {G : World → Action → Prop} {test : World → Bool}
    (hG : ∀ w a, test w = true → G w a) {w : World} {as : List Action}
    (h : as.foldlM (deliverTested test) genesis = .ok w) :
    ((timestamping env).restrict (fun w a w' => KeepsFinalized w a w' ∧ G w a)).Reachable w := by
  refine foldlM_keeps
    (P := ((timestamping env).restrict (fun w a w' => KeepsFinalized w a w' ∧ G w a)).Reachable) ?_
    (.init genesis_init) h
  intro a _ t t' ht hs
  simp only [deliverTested,ok_iff] at hs
  obtain ⟨hd,hk⟩ := deliverOpen_keeps hs.2
  exact ht.step ⟨hd,hk,hG t a hs.1⟩

def firstOnChain (w : World) : Bool :=
  w.keepers.btccheckpoint.epochData.entries.all (fun x =>
    match x.2.keys with
    | [] => false
    | sk :: _ => decide (x.1 = 1) && holds (getSubmissionBtcInfo w.btclc sk) (fun _ => true))

theorem firstOnChain_spec {w : World} (h : firstOnChain w = true) {e : Nat} {ed : EpochData}
    (he : w.keepers.btccheckpoint.epochData.get e = some ed) :
    ∃ sk, ed.keys.head? = some sk ∧ w.keepers.btccheckpoint.Anchored w.btclc e sk := by
  have ht := List.all_eq_true.mp h (e,ed) (mem_entries.mpr he)
  cases hk : ed.keys with
  | nil => simp [hk] at ht
  | cons sk l =>
    simp only [hk,Bool.and_eq_true,decide_eq_true_eq] at ht
    obtain ⟨rfl,hin⟩ := ht
    obtain ⟨i,hi, -⟩ := holds_iff.mp hin
    refine ⟨sk,rfl,.first ⟨?_,(getSubmissionBtcInfo_infoOf hi).onChain⟩⟩
    rw [keysOf,dataOf_eq he,hk]
    exact List.mem_cons_self

end AnonChain.BtcCheckpoint.Regtest
