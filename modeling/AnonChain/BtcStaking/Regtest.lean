import AnonChain.BtcStaking.Contracts
import AnonChain.Regtest

/-! A delegation over the curve with eleven elements, and the signatures of a committee on it. -/

namespace AnonChain.Regtest

open Lib BtcLightClient StakingLib Adaptor BtcStaking
open BtcStaking (Params)

def secp : Secp256k1 :=
  { curve with
    gen_ne := by decide
    xCoord_neg := (by decide : ∀ P : ZMod 11, min (-P).val (11-(-P).val) = min P.val (11-P.val))
    yIsOdd_neg := (by decide : ∀ P : ZMod 11, P ≠ 0 → decide (5 < (-P).val) = !decide (5 < P.val))
    xCoord_lt := (by decide : ∀ P : ZMod 11, P ≠ 0 → min P.val (11-P.val) < 6)
    liftX_even := (by decide : ∀ P : ZMod 11, P ≠ 0 → decide (5 < P.val) = false →
      (if 0 < min P.val (11-P.val) ∧ min P.val (11-P.val) ≤ 5 then
        some ((min P.val (11-P.val) : Nat) : ZMod 11) else none) = some P)
    p_le := by decide
    n_le := by decide }

theorem secretKey_two : IsSecretKey secp (2 : ZMod 11) (bytes 2) where
  ne_zero := (by decide : (2 : ZMod 11) ≠ 0)
  pubKey := by decide +kernel

def opBytes : Tapscript.Op BIP340PubKey → Bytes
  | .data key => 32 :: key
  | .int n => 2 :: writeBE 2 n
  | .checkSig => [172]
  | .checkSigVerify => [173]
  | .checkSigAdd => [186]
  | .numEqual => [156]
  | .numEqualVerify => [157]
  | .checkSequenceVerify => [178]

def bitcoin : Bitcoin where
  curve := secp
  hashes := hashes
  btc := btc
  scriptBytes s := s.flatMap opBytes
  leafHash s := s.flatMap opBytes
  taprootPkScript tree := tree.flatMap (fun s => s.flatMap opBytes)
  controlBlock _ _ := []
  tapscriptSigHash _ _ _ _ := bytes 3
  tapscriptSigHash_length _ _ _ _ := length_writeBE 32 3
  nonce _ _ := (1 : ZMod 11)
  nonce_ne _ _ := (by decide : (1 : ZMod 11) ≠ 0)
  checkTransactionSanity tx := (∀ out ∈ tx.txOut, 0 ≤ out.value) ∧
    (tx.txOut.map TxOut.value).sum ≤ maxSatoshi
  checkTransactionSanity_amount _ h := of_decide_eq_true h
  preSignedFields _ _ _ := true
  isDust _ := false
  mulRate value rate := value*rate/10^18

def scripts : BtcStaking.Env := stk.withScripts bitcoin

def committee (covs : List Nat) (quorum : Nat) : Params :=
  { stkParams with
    covenantPks := covs.map bytes, covenantQuorum := quorum, slashingPkScript := [9],
    slashingRate := 10^17 }

section

variable (p : Params) (fps : List Nat) (idx : Nat)

def slashingLeaf : Script :=
  match newAnonScriptPaths bitcoin (bytes 1) (fps.map bytes) p.covenantPks p.covenantQuorum 50 with
  | .ok paths => paths.slashingPathScript
  | .error _ => []

def unbondingLeaf : Script :=
  match newAnonScriptPaths bitcoin (bytes 1) (fps.map bytes) p.covenantPks p.covenantQuorum 50 with
  | .ok paths => paths.unbondingPathScript
  | .error _ => []

def outputOf (info : Result OutputInfo) : TxOut :=
  match info with
  | .ok i => i.output
  | .error _ => ⟨0,[]⟩

def stakeOut : TxOut :=
  outputOf (buildStakingInfo bitcoin (bytes 1) (fps.map bytes) p.covenantPks
    p.covenantQuorum 50 100)

def unbondOut : TxOut :=
  outputOf (buildUnbondingInfo bitcoin (bytes 1) (fps.map bytes) p.covenantPks
    p.covenantQuorum 5 99)

/-- The staking output stands after `idx` others. -/
def stakeTx : MsgTx := ⟨[],List.replicate idx ⟨1,[]⟩ ++ [stakeOut p fps],7⟩

def unbondTx : MsgTx := ⟨[⟨⟨txHash (stakeTx p fps idx),idx⟩,[]⟩],[unbondOut p fps],0⟩

def changeScript : Bytes :=
  match buildRelativeTimelockTaprootScript bitcoin (bytes 1) 5 with
  | .ok b => b
  | .error _ => []

def slashTx (funding : MsgTx) (idx : Nat) (value : Int) : MsgTx :=
  ⟨[⟨⟨txHash funding,idx⟩,[]⟩],[⟨value/10,[9]⟩,⟨value-value/10-1,changeScript⟩],0⟩

def sigOf (sig : Result (Signature secp)) : Bytes :=
  match sig with
  | .ok s => s.serialize
  | .error _ => []

def stakeSlashTx : MsgTx := slashTx (stakeTx p fps idx) idx 100

def unbondSlashTx : MsgTx := slashTx (unbondTx p fps idx) 0 99

def parsedMsg : ParsedCreateDelegationMessage where
  stakerAddress := [1]
  stakingTx := stakeTx p fps idx
  stakingTxProofOfInclusion := none
  stakingTime := 50
  stakingValue := 100
  stakingSlashingTx := stakeSlashTx p fps idx
  stakerPK := bytes 1
  stakerStakingSlashingTxSig := sigOf (signTxWithOneScriptSpendInputFromScript bitcoin
    (stakeSlashTx p fps idx) (stakeOut p fps) (1 : ZMod 11) (slashingLeaf p fps))
  unbondingTx := unbondTx p fps idx
  unbondingTime := 5
  unbondingValue := 99
  unbondingSlashingTx := unbondSlashTx p fps idx
  stakerUnbondingSlashingSig := sigOf (signTxWithOneScriptSpendInputFromScript bitcoin
    (unbondSlashTx p fps idx) (unbondOut p fps) (1 : ZMod 11) (slashingLeaf p fps))
  finalityProviderKeys := fps.map bytes
  parsedPop := []
  stkExp := none

def adaptorSigOf (sig : Result (AdaptorSignature secp)) : Bytes :=
  match sig with
  | .ok s => s.marshal
  | .error _ => []

/-- The adaptor signature of the member with secret key `cov` under the key of the provider `fp`. -/
def encSig (tx funding : MsgTx) (idx cov fp : Nat) : Bytes :=
  adaptorSigOf (encSignTxWithOneScriptSpendInputStrict bitcoin tx funding idx (slashingLeaf p fps)
    (cov : ZMod 11) ((2*cov+2*fp : Nat) : ZMod 11) (fp : ZMod 11))

def covenantMsg (cov : Nat) : MsgAddCovenantSigs where
  pk := bytes cov
  stakingTxHash := txHash (stakeTx p fps idx)
  slashingTxSigs := fps.map (encSig p fps (stakeSlashTx p fps idx) (stakeTx p fps idx) idx cov)
  unbondingTxSig := sigOf (signTxWithOneScriptSpendInputStrict bitcoin (unbondTx p fps idx)
    (stakeTx p fps idx) idx (unbondingLeaf p fps) (cov : ZMod 11))
  slashingUnbondingTxSigs :=
    fps.map (encSig p fps (unbondSlashTx p fps idx) (unbondTx p fps idx) 0 cov)
  stakeExpansionTxSig := none

def registered : BtcStaking.State :=
  { (genesis 3).stores.stk with
    params := KVStore.empty.set 0 p
    finalityProviders := fps.foldl (fun m k => m.set (bytes k)
      ⟨[0],bytes k,0,⟨0,0,0⟩,0,0,false,0⟩) KVStore.empty }

def signedBy (covs : List Nat) : Result BtcStaking.State := do
  let s ← (registered p fps).createBTCDelegation scripts (genesis 3).ctx (parsedMsg p fps idx)
  covs.foldlM (fun s cov => addCovenantSigs scripts s (genesis 3).ctx (covenantMsg p fps idx cov)) s

end

variable {p : Params} {fps : List Nat}

theorem scripts_validPubKey (pk : BIP340PubKey) : scripts.validPubKey pk = validPubKey bitcoin pk :=
  rfl

theorem parsedMsg_keys (idx : Nat) (hky : ∀ k ∈ fps, validPubKey bitcoin (bytes k) = true) :
    ParsedKeys scripts (parsedMsg p fps idx) where
  staker := by
    dsimp only [parsedMsg]
    decide +kernel
  providers := by
    dsimp only [parsedMsg]
    intro pk hp
    obtain ⟨k,hk,rfl⟩ := List.mem_map.mp hp
    rw [scripts_validPubKey]
    exact hky k hk
  value := by
    dsimp only [parsedMsg]
    decide

theorem signedBy_params {idx : Nat} {covs : List Nat}
    {s : BtcStaking.State} (h : signedBy p fps idx covs = .ok s) : s.params.get 0 = some p := by
  rw [signedBy,bind_eq_ok] at h
  obtain ⟨t,hc,hsg⟩ := h
  refine foldlM_keeps (P := fun s => s.params.get 0 = some p) ?_ ?_ hsg
  · intro cov _ s s' hs hr
    obtain ⟨info,tip,sl,us,_,_,_,_,rfl⟩ := addCovenantSigs_spec hr
    simp only [State.addCovenantSigsToBTCDelegation]
    split <;> exact hs
  · simp only [State.createBTCDelegation,ok_iff] at hc
    obtain ⟨_,_,_,_,_,_,_,_,_,_,_,_,rfl⟩ := hc
    rw [(addBTCDelegation_frame ..).2.1]
    rfl

theorem signedBy_reached {idx : Nat} {covs : List Nat}
    {s : BtcStaking.State} (hv : Params.validate scripts p = .ok ())
    (hk : ∀ k ∈ fps, validPubKey bitcoin (bytes k) = true) (h : signedBy p fps idx covs = .ok s) :
    Reached scripts s := by
  rw [signedBy,bind_eq_ok] at h
  obtain ⟨t,hc,hs⟩ := h
  have hg : Reached scripts (registered p fps) := by
    exact .genesis rfl (KVStore.forall_set hv nofun)
  exact foldlM_keeps (P := Reached scripts) (fun _ _ _ _ ht hr => ht.sign hr)
    (hg.create (parsedMsg_keys idx hk) hc) hs

end AnonChain.Regtest
