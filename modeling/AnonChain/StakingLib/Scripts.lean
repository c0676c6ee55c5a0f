import AnonChain.BtcLightClient
import AnonChain.Crypto.Adaptor
import AnonChain.Lib.Tapscript

/-! The scripts of staking and unbonding outputs, as leaves of a taproot tree. -/

namespace AnonChain.StakingLib

open Lib BtcLightClient Adaptor List

abbrev Script := List (Tapscript.Op BIP340PubKey)

/-- 21 million bitcoins. -/
def maxSatoshi : Int := 21000000*100000000

/-- The Bitcoin libraries: curve, hashes, script encoding, taproot and the rules of the network. -/
structure Bitcoin where
  curve : Secp256k1
  hashes : Eots.Hashes
  btc : BtcLib
  scriptBytes : Script → Bytes
  leafHash : Script → Hash
  /-- The output script that commits to a tree of leaves under the unspendable internal key. -/
  taprootPkScript : List Script → Bytes
  /-- The proof that a leaf belongs to a tree. -/
  controlBlock : List Script → Script → Bytes
  /-- The hash a tapscript signature of one input signs: over the transaction without witnesses,
  the outputs it spends and the leaf. -/
  tapscriptSigHash : MsgTx → Nat → List TxOut → Script → Bytes
  tapscriptSigHash_length : ∀ tx i prevOuts leaf, (tapscriptSigHash tx i prevOuts leaf).length = 32
  /-- The deterministic nonces of the Schnorr signer. -/
  nonce : ZMod curve.n → Bytes → ZMod curve.n
  nonce_ne : ∀ sk hash, nonce sk hash ≠ 0
  checkTransactionSanity : MsgTx → Bool
  checkTransactionSanity_amount : ∀ tx, checkTransactionSanity tx = true →
    (∀ out ∈ tx.txOut, 0 ≤ out.value) ∧ (tx.txOut.map TxOut.value).sum ≤ maxSatoshi
  /-- Version within the two bounds, standard weight, final sequences, no signature scripts. -/
  preSignedFields : MsgTx → Nat → Nat → Bool
  isDust : TxOut → Bool
  /-- An amount times a decimal rate, through floating point numbers. -/
  mulRate : Int → Int → Int

instance prime_curve (B : Bitcoin) : Fact B.curve.n.Prime := B.curve.prime

section

variable (B : Bitcoin)

def maxScriptSize : Nat := 10000

def sortKeys (keys : List BIP340PubKey) : List BIP340PubKey := keys.insertionSort (· ≤ ·)

def assembleMultiSigScript (pubkeys : List BIP340PubKey) (threshold : Nat) (withVerify : Bool) :
    Result Script := do
  let signers : Script := match pubkeys with
    | [] => []
    | key :: keys => .data key :: .checkSig :: Tapscript.addOps keys
  let script := signers ++ [.int threshold,if withVerify then .numEqualVerify else .numEqual]
  ensure ((B.scriptBytes script).length ≤ maxScriptSize)
    (.errorf "adding %d bytes would exceed the maximum allowed canonical script length of %d")
  pure script

def buildSingleKeySigScript (pubKey : BIP340PubKey) (withVerify : Bool) : Script :=
  [.data pubKey,if withVerify then .checkSigVerify else .checkSig]

def buildMultiSigScript (keys : List BIP340PubKey) (threshold : Nat) (withVerify : Bool) :
    Result Script := do
  ensure (keys ≠ []) (.errorf "no keys provided")
  ensure (threshold ≤ keys.length)
    (.errorf "required number of valid signers is greater than number of provided keys")
  match keys with
  | [key] => pure (buildSingleKeySigScript key withVerify)
  | _ => assembleMultiSigScript B (sortKeys keys) threshold withVerify

def buildTimeLockScript (pubKey : BIP340PubKey) (lockTime : Nat) : Script :=
  [.data pubKey,.checkSigVerify,.int lockTime,.checkSequenceVerify]

structure AnonScriptPaths where
  timeLockPathScript : Script
  unbondingPathScript : Script
  slashingPathScript : Script

def newAnonScriptPaths (stakerKey : BIP340PubKey) (fpKeys covenantKeys : List BIP340PubKey)
    (covenantQuorum lockTime : Nat) : Result AnonScriptPaths := do
  ensure (stakerKey :: (fpKeys ++ covenantKeys)).Nodup (.errorf "error building scripts: %w")
  let covenantMultisigScript ← buildMultiSigScript B covenantKeys covenantQuorum false
  let stakerSigScript := buildSingleKeySigScript stakerKey true
  let fpMultisigScript ← buildMultiSigScript B fpKeys 1 true
  pure { timeLockPathScript := buildTimeLockScript stakerKey lockTime,
         unbondingPathScript := stakerSigScript ++ covenantMultisigScript,
         slashingPathScript := stakerSigScript ++ (fpMultisigScript ++ covenantMultisigScript) }

/-- The leaves of a tree; two leaves with one hash are refused. -/
def newTaprootScriptHolder (scripts : List Script) : Result (List Script) := do
  ensure (∀ s ∈ scripts, B.scriptBytes s ≠ []) (.errorf "cannot build tree with empty script")
  ensure (scripts.map B.leafHash).Nodup (.errorf "duplicate script in provided scripts")
  pure scripts

structure SpendInfo where
  revealedLeaf : Script
  controlBlock : Bytes

def scriptSpendInfoByName (scriptTree : List Script) (leafHash : Hash) : Result SpendInfo := do
  let leaf ← orFail (scriptTree.find? (fun s => B.leafHash s = leafHash))
    (.errorf "script not found in script tree")
  pure ⟨leaf,B.controlBlock scriptTree leaf⟩

/-- `StakingInfo` or `UnbondingInfo`. -/
structure OutputInfo where
  output : TxOut
  scriptHolder : List Script
  paths : AnonScriptPaths

def buildOutputInfo (leaves : AnonScriptPaths → List Script) (stakerKey : BIP340PubKey)
    (fpKeys covenantKeys : List BIP340PubKey) (covenantQuorum lockTime : Nat) (amount : Int) :
    Result OutputInfo := do
  let paths ← newAnonScriptPaths B stakerKey fpKeys covenantKeys covenantQuorum lockTime
  let scriptHolder ← newTaprootScriptHolder B (leaves paths)
  pure ⟨⟨amount,B.taprootPkScript scriptHolder⟩,scriptHolder,paths⟩

def AnonScriptPaths.stakingLeaves (p : AnonScriptPaths) : List Script :=
  [p.timeLockPathScript,p.unbondingPathScript,p.slashingPathScript]

def AnonScriptPaths.unbondingLeaves (p : AnonScriptPaths) : List Script :=
  [p.timeLockPathScript,p.slashingPathScript]

def buildStakingInfo (stakerKey : BIP340PubKey) (fpKeys covenantKeys : List BIP340PubKey)
    (covenantQuorum stakingTime : Nat) (stakingAmount : Int) : Result OutputInfo :=
  Result.wrap (buildOutputInfo B AnonScriptPaths.stakingLeaves stakerKey fpKeys covenantKeys
    covenantQuorum stakingTime stakingAmount) (.errorf "error building staking info: %w")

def buildUnbondingInfo (stakerKey : BIP340PubKey) (fpKeys covenantKeys : List BIP340PubKey)
    (covenantQuorum unbondingTime : Nat) (unbondingAmount : Int) : Result OutputInfo :=
  Result.wrap (buildOutputInfo B AnonScriptPaths.unbondingLeaves stakerKey fpKeys covenantKeys
    covenantQuorum unbondingTime unbondingAmount) (.errorf "error building unbonding info: %w")

def OutputInfo.unbondingPathSpendInfo (i : OutputInfo) : Result SpendInfo :=
  scriptSpendInfoByName B i.scriptHolder (B.leafHash i.paths.unbondingPathScript)

def OutputInfo.slashingPathSpendInfo (i : OutputInfo) : Result SpendInfo :=
  scriptSpendInfoByName B i.scriptHolder (B.leafHash i.paths.slashingPathScript)

def buildRelativeTimelockTaprootScript (pk : BIP340PubKey) (lockTime : Nat) : Result Bytes := do
  let scriptHolder ← newTaprootScriptHolder B [buildTimeLockScript pk lockTime]
  pure (B.taprootPkScript scriptHolder)

end

variable {B : Bitcoin} {fpKeys covenantKeys : List BIP340PubKey} {covenantQuorum lockTime : Nat}

theorem sortKeys_perm (keys : List BIP340PubKey) : (sortKeys keys).Perm keys :=
  perm_insertionSort _ keys

theorem find_leaf {tree : List Script} {leaf : Script} (hm : leaf ∈ tree)
    (hn : (tree.map B.leafHash).Nodup) :
    tree.find? (fun s => B.leafHash s = B.leafHash leaf) = some leaf := by
  induction tree with
  | nil => simp at hm
  | cons s tree ih =>
    rw [map_cons,nodup_cons] at hn
    by_cases hs : B.leafHash s = B.leafHash leaf
    · cases mem_cons.mp hm with
      | inl he => simp [he]
      | inr ht =>
        rw [hs] at hn
        exact absurd (mem_map_of_mem ht) hn.1
    · have ht : leaf ∈ tree := by
        cases mem_cons.mp hm with
        | inl he => exact absurd (by rw [he]) hs
        | inr ht => exact ht
      rw [find?_cons_of_neg (by simpa using hs)]
      exact ih ht hn.2

theorem buildOutputInfo_spec {leaves : AnonScriptPaths → List Script} {stakerKey : BIP340PubKey}
    {amount : Int} {i : OutputInfo}
    (h : buildOutputInfo B leaves stakerKey fpKeys covenantKeys covenantQuorum lockTime amount =
      .ok i) :
    newAnonScriptPaths B stakerKey fpKeys covenantKeys covenantQuorum lockTime = .ok i.paths ∧
      newTaprootScriptHolder B (leaves i.paths) = .ok i.scriptHolder ∧
      i.scriptHolder = leaves i.paths ∧
      (i.scriptHolder.map B.leafHash).Nodup ∧
      i.output = ⟨amount,B.taprootPkScript i.scriptHolder⟩ := by
  simp only [buildOutputInfo,ok_iff] at h
  obtain ⟨paths,hp,tree,ht,rfl⟩ := h
  have hh := ht
  simp only [newTaprootScriptHolder,ok_iff] at ht
  obtain ⟨_,hn,rfl⟩ := ht
  exact ⟨hp,hh,rfl,hn,rfl⟩

theorem scriptSpendInfoByName_leaf {tree : List Script} {leaf : Script} (hm : leaf ∈ tree)
    (hn : (tree.map B.leafHash).Nodup) :
    scriptSpendInfoByName B tree (B.leafHash leaf) = .ok ⟨leaf,B.controlBlock tree leaf⟩ := by
  simp only [scriptSpendInfoByName,ok_iff]
  exact ⟨leaf,find_leaf hm hn,rfl⟩

theorem newAnonScriptPaths_lockTime {stakerKey : BIP340PubKey} {paths : AnonScriptPaths}
    (h : newAnonScriptPaths B stakerKey fpKeys covenantKeys covenantQuorum lockTime = .ok paths)
    (lockTime' : Nat) :
    newAnonScriptPaths B stakerKey fpKeys covenantKeys covenantQuorum lockTime' =
      .ok { paths with timeLockPathScript := buildTimeLockScript stakerKey lockTime' } := by
  simp only [newAnonScriptPaths,ok_iff] at h ⊢
  obtain ⟨hn,cov,hc,fp,hf,rfl⟩ := h
  exact ⟨hn,cov,hc,fp,hf,rfl⟩

end AnonChain.StakingLib
