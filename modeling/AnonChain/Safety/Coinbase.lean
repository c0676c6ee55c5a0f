import AnonChain.Inclusion
import AnonChain.Regtest
import AnonChain.BtcCheckpoint.Regtest

/-! The coinbase as a staking transaction: index bits above the Merkle path are never read. -/

namespace AnonChain.BtcStaking

open Lib BtcLightClient

variable {E : Env}

theorem verifyInclusionProofAndGetHeight_accepts {ctx : Ctx} {tx : MsgTx}
    {confirmationDepth stakingTime unbondingTime : Nat} {p : InclusionProof}
    {info : DelegationTimeRangeInfo} {header : BTCHeaderInfo}
    (hh : ctx.btclc.getHeaderByHash p.headerHash = .ok header)
    (h : verifyInclusionProofAndGetHeight E ctx tx confirmationDepth stakingTime unbondingTime p =
      .ok info) :
    verifyInclusionProof E.btc tx header.header.merkleRoot p.proof p.index = true := by
  simp only [verifyInclusionProofAndGetHeight,ok_iff] at h
  obtain ⟨header',hh',hv, -⟩ := h
  rw [hh,Except.ok.injEq] at hh'
  rw [hh']
  exact hv

/-- A transaction that is accepted is not the first of its block if and only if the bits of the
index that the path reads are not all zero. -/
theorem verifyInclusionProofAndGetHeight_not_coinbase (hsize : HashSize E.btc) {ctx : Ctx}
    {header : BTCHeaderInfo} {txs : List MsgTx} {tx : MsgTx}
    {confirmationDepth stakingTime unbondingTime : Nat} {p : InclusionProof}
    {info : DelegationTimeRangeInfo}
    (hheader : ctx.btclc.getHeaderByHash p.headerHash = .ok header)
    (hblock : blockRoot E.btc txs = some header.header.merkleRoot)
    (hdistinct : (txs.map E.btc.txHash).Nodup)
    (hapart : HashesApart E.btc txs tx p.proof p.index)
    (h : verifyInclusionProofAndGetHeight E ctx tx confirmationDepth stakingTime unbondingTime p =
      .ok info) :
    (txs.map E.btc.txHash).head? ≠ some (E.btc.txHash tx) ↔ p.index%2^(p.proof.length/32) ≠ 0 := by
  have hv := verifyInclusionProofAndGetHeight_accepts hheader h
  obtain ⟨j,hj,hz, -⟩ := verifyInclusionProof_position hsize hblock hapart hv
  rw [ne_eq,ne_eq,← hz,List.head?_eq_getElem?,not_iff_not]
  constructor
  · intro hf
    -- The transaction is the leaf at `j`, and only one leaf has its hash.
    exact ((List.getElem?_inj (List.getElem?_eq_some_iff.mp hf).1 hdistinct).mp
      (hf.trans hj.symm)).symm
  · intro hj0
    rw [← hj0]
    exact hj

namespace Regtest

/-- Bitcoin as in the runs of the checkpoint modules, where hashes do not collide by design. -/
def env : Env := { AnonChain.Regtest.stk with btc := BtcCheckpoint.Regtest.btc }

def coinbaseTx : MsgTx := ⟨[],[⟨0,[1,2,3]⟩],0⟩
def otherTx : MsgTx := ⟨[],[⟨0,[4,5]⟩],0⟩

def blockTxs : List MsgTx := [coinbaseTx,otherTx]

def blockInfo : BTCHeaderInfo :=
  ⟨⟨1,writeBE 32 99,env.btc.doubleHash (env.btc.txHash coinbaseTx ++ env.btc.txHash otherTx),0,1,
    100⟩,writeBE 32 100,100,100⟩

def ctx : Ctx where
  header := ⟨1,0,[]⟩
  btclc := ⟨KVStore.empty.set 100 blockInfo,KVStore.empty.set (writeBE 32 100) 100,[]⟩
  btcConfirmationDepth := 0
  checkpointFinalizationTimeout := 1
  currentEpoch := 1
  lastFinalizedEpoch := 0
  authority := []

def proofOf (sibling : MsgTx) (index : Nat) : InclusionProof :=
  ⟨writeBE 32 100,index,env.btc.txHash sibling⟩

theorem hashSize : HashSize env.btc :=
  ⟨fun _ => length_writeBE 32 _,fun _ => length_writeBE 32 _⟩

end Regtest

open BtcStaking.Regtest

/-- The path of a block with two transactions has one node, so the index 2 stands for the first. -/
theorem coinbase_accepted_at_two :
    HashSize env.btc ∧
      ctx.btclc.getHeaderByHash (proofOf otherTx 2).headerHash = .ok blockInfo ∧
      blockRoot env.btc blockTxs = some blockInfo.header.merkleRoot ∧
      (blockTxs.map env.btc.txHash).Nodup ∧
      HashesApart env.btc blockTxs coinbaseTx (proofOf otherTx 2).proof 2 ∧
      holds (verifyInclusionProofAndGetHeight env ctx coinbaseTx 0 10 1
        (proofOf otherTx 2)) (fun _ => true) = true ∧
      blockTxs.head? = some coinbaseTx :=
  ⟨hashSize,rfl,by decide +kernel,by decide +kernel,
    ⟨by decide +kernel,by decide +kernel,by decide +kernel⟩,by decide +kernel,rfl⟩

theorem verifyInclusionProofAndGetHeight_not_coinbase_second :
    (blockTxs.map env.btc.txHash).head? ≠ some (env.btc.txHash otherTx) := by
  have ha : holds (verifyInclusionProofAndGetHeight env ctx otherTx 0 10 1
      (proofOf coinbaseTx 1)) (fun _ => true) = true := by decide +kernel
  obtain ⟨info,hi, -⟩ := holds_iff.mp ha
  have hh : ctx.btclc.getHeaderByHash (proofOf coinbaseTx 1).headerHash =
      .ok blockInfo := rfl
  exact (verifyInclusionProofAndGetHeight_not_coinbase hashSize hh (by decide +kernel)
    (by decide +kernel) ⟨by decide +kernel,by decide +kernel,by decide +kernel⟩ hi).mpr
    (by decide +kernel)

end AnonChain.BtcStaking
