import AnonChain.BtcLightClient
import AnonChain.Lib.Merkle

/-! What an accepted inclusion proof says about the block. -/

namespace AnonChain.BtcLightClient

open Lib List

variable (L : BtcLib)

/-- Hashes are arrays of 32 bytes. -/
structure HashSize : Prop where
  txHash : ∀ tx, (L.txHash tx).length = 32
  doubleHash : ∀ b, (L.doubleHash b).length = 32

def merkleNode (a b : Hash) : Hash := L.doubleHash (a ++ b)

def blockRoot (txs : List MsgTx) : Option Hash := merkleRoot (merkleNode L) (txs.map L.txHash)

def merkleNodeAt (nodes : Bytes) (i : Nat) : Hash := (nodes.drop (i*32)).take 32

def merklePath (nodes : Bytes) : List Hash :=
  (List.range (nodes.length/32)).map (merkleNodeAt nodes)

/-- No hash that the proof computes collides with one of the block, and no transaction is hashed
like a pair of hashes. -/
def HashesApart (txs : List MsgTx) (tx : MsgTx) (nodes : Bytes) (index : Nat) : Prop :=
  NoCollision (merkleNode L) (txs.map L.txHash) (L.txHash tx) index (merklePath nodes)

variable {L}

theorem foldl_merkleStep (proof : Bytes) (is : List Nat) (x : Hash) (index : Nat) :
    (is.foldl (merkleStep L proof) (x,index)).1 =
      climb (merkleNode L) x index (is.map (merkleNodeAt proof)) := by
  induction is generalizing x index with
  | nil => rfl
  | cons i is ih =>
    have hs : merkleStep L proof (x,index) i =
        (parent (merkleNode L) (siblings index x (merkleNodeAt proof i)),index/2) := by
      by_cases hb : index%2 = 1 <;> simp [merkleStep,siblings,parent,merkleNode,merkleNodeAt,hb]
    rw [foldl_cons,hs,ih,map_cons,climb]

theorem merkleNodeAt_between {txHash nodes root : Bytes} (htx : txHash.length = 32) {i : Nat}
    (hi : i < nodes.length/32) :
    merkleNodeAt (txHash ++ nodes ++ root) (1+i) = merkleNodeAt nodes i := by
  have hd : i*32 ≤ nodes.length := by omega
  have ht : 32 ≤ (nodes.drop (i*32)).length := by rw [length_drop]; omega
  rw [merkleNodeAt,append_assoc,drop_append,htx,
    drop_eq_nil_of_le (show txHash.length ≤ (1+i)*32 by omega),
    show (1+i)*32-32 = i*32 by omega,nil_append,
    drop_append_of_le_length hd,take_append_of_le_length ht,merkleNodeAt]

theorem climb_of_verifyInclusionProof {tx : MsgTx} {root : Hash} {nodes : Bytes} {index : Nat}
    (ht : (L.txHash tx).length = 32) (hr : root.length = 32)
    (h : verifyInclusionProof L tx root nodes index = true) :
    climb (merkleNode L) (L.txHash tx) index (merklePath nodes) = root := by
  simp only [verifyInclusionProof] at h
  split at h
  · rename_i hs
    rw [hs.2.2]
    exact hs.1
  · split at h
    · simp at h
    · split at h
      · simp at h
      · have hl : (L.txHash tx ++ nodes ++ root).length = 64+nodes.length := by
          simp only [length_append,ht,hr]
          omega
        rw [decide_eq_true_eq,foldl_merkleStep,hl,show (64+nodes.length)/32-1-1 =
          nodes.length/32 by omega,append_assoc,take_left' ht,← append_assoc,
          drop_left' (by rw [length_append,ht]; omega),range'_eq_map_range,map_map] at h
        rw [← h,merklePath]
        congr 1
        refine map_congr_left ?_
        intro i hi
        exact (merkleNodeAt_between ht (mem_range.mp hi)).symm

/-- An accepted proof is of a transaction of the block, at the position that the low bits of the
index give unless the path goes through a duplicated node, and at zero only if they are. -/
theorem verifyInclusionProof_position (hs : HashSize L) {txs : List MsgTx}
    {tx : MsgTx} {root : Hash} {nodes : Bytes} {index : Nat} (hb : blockRoot L txs = some root)
    (hap : HashesApart L txs tx nodes index)
    (h : verifyInclusionProof L tx root nodes index = true) :
    ∃ j, (txs.map L.txHash)[j]? = some (L.txHash tx) ∧
      (j = 0 ↔ index%2^(nodes.length/32) = 0) ∧
      (LeftSiblingsDiffer (merkleNode L) (L.txHash tx) index (merklePath nodes) →
        j = index%2^(nodes.length/32)) := by
  have hr : root.length = 32 := by
    refine merkleRootWithin_of_forall (P := fun h => h.length = 32)
      (fun a b => hs.doubleHash (a ++ b)) ?_ hb
    intro a ha
    obtain ⟨t,_,rfl⟩ := mem_map.mp ha
    exact hs.txHash t
  have hp : (merklePath nodes).length = nodes.length/32 := by simp [merklePath]
  rw [← hp]
  exact climb_root_position hb hap (climb_of_verifyInclusionProof (hs.txHash tx) hr h)

end AnonChain.BtcLightClient
