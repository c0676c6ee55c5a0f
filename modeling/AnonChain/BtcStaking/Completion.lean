import AnonChain.BtcStaking.SlashingTx
import AnonChain.StakingLib.Witness

/-! Any finality provider of a delegation can complete a slashing transaction with verified
signatures. -/

namespace AnonChain.BtcStaking

open Lib BtcLightClient StakingLib Adaptor Eots Tapscript List Option
open CovenantAdaptorSignatures (covPk)

def EncVerifies (B : Bitcoin) (tx : MsgTx) (out : TxOut) (leaf : Script) (pk fp : BIP340PubKey)
    (sig : AdaptorSignature B.curve) : Prop :=
  ∃ encKey, newEncryptionKey B.curve fp = .ok encKey ∧
    encVerifyTransactionSigWithOutput B tx out leaf pk encKey sig = .ok ()

def CovVerified (B : Bitcoin) (fps : List BIP340PubKey) (tx : MsgTx) (out : TxOut) (leaf : Script)
    (c : CovenantAdaptorSignatures) : Prop :=
  ∃ sigs : List (AdaptorSignature B.curve), c.adaptorSigs = sigs.map AdaptorSignature.marshal ∧
    List.Forall₂ (EncVerifies B tx out leaf c.covPk) fps sigs

/-- An output with its slashing transaction and the signatures stored for it, all verified. -/
structure Slashable (B : Bitcoin) (p : Params) (d : BTCDelegation) (info : OutputInfo)
    (fundingTx : MsgTx) (outputIdx : Nat) (slashingTx : MsgTx) (delegatorSig : Bytes)
    (covSigs : List CovenantAdaptorSignatures) : Prop where
  paths : ∃ lockTime, newAnonScriptPaths B d.btcPk d.fpBtcPkList p.covenantPks
    p.covenantQuorum lockTime = .ok info.paths
  leaf : info.paths.slashingPathScript ∈ info.scriptHolder
  leaves : (info.scriptHolder.map B.leafHash).Nodup
  funding : fundingTx.txOut[outputIdx]? = some info.output
  spends : checkSlashingTxMatchFundingTx B slashingTx fundingTx outputIdx p.minSlashingTxFeeSat
    p.slashingRate p.slashingPkScript d.btcPk d.unbondingTime = .ok ()
  delegator : verifyTransactionSigWithOutput B slashingTx info.output
    info.paths.slashingPathScript d.btcPk delegatorSig = .ok ()
  members : ∀ c ∈ covSigs, c.covPk ∈ p.covenantPks
  distinct : (covSigs.map CovenantAdaptorSignatures.covPk).Nodup
  verified : ∀ c ∈ covSigs, CovVerified B d.fpBtcPkList slashingTx info.output
    info.paths.slashingPathScript c

section

variable {B : Bitcoin} {tx : MsgTx} {out : TxOut} {leaf : Script} {pk fp : BIP340PubKey}
  {sig : AdaptorSignature B.curve} {sk : ZMod B.curve.n}

theorem EncVerifies.encVerify (h : EncVerifies B tx out leaf pk fp sig)
    (hs : IsSecretKey B.curve sk fp) : sig.encVerify B.hashes pk (evenScalar B.curve sk • B.curve.G)
      (calcTapscriptSignaturehash B tx 0 [out] leaf) = .ok () := by
  obtain ⟨encKey,hk,hv⟩ := h
  simp only [newEncryptionKey,ok_iff,hs.parsePubKey,some.injEq] at hk
  obtain ⟨P,rfl,rfl⟩ := hk
  simp only [encVerifyTransactionSigWithOutput,ok_iff] at hv
  have he := (parsePubKey_spec hs.parsePubKey).2.1
  rw [evenPoint_of_even he] at hv
  exact hv.2

theorem EncVerifies.finite (h : EncVerifies B tx out leaf pk fp sig) :
    sig.R0 ≠ 0 := by
  obtain ⟨encKey,_,hv⟩ := h
  simp only [encVerifyTransactionSigWithOutput,ok_iff] at hv
  exact (encVerify_spec hv.2).2.2.1

theorem parseEncVerify_spec {fps : List BIP340PubKey} {raw : List Bytes}
    {sigs : List (AdaptorSignature B.curve)} (hl : raw.length = fps.length)
    (h : parseEncVerifyAdaptorSignatures B tx out leaf pk fps raw = .ok sigs) :
    List.Forall₂ (EncVerifies B tx out leaf pk) fps sigs := by
  induction fps generalizing raw sigs with
  | nil =>
    cases raw with
    | nil => simp [parseEncVerifyAdaptorSignatures] at h; simp [h]
    | cons b _ => simp at hl
  | cons fp _ ih =>
    cases raw with
    | nil => simp at hl
    | cons b _ =>
      simp only [parseEncVerifyAdaptorSignatures,ok_iff] at h
      obtain ⟨sig,_,encKey,hk,_,hv,rest,hr,rfl⟩ := h
      exact .cons ⟨encKey,hk,hv⟩ (ih (by simpa using hl) hr)

theorem IsSecretKey.pubKeyOf (h : IsSecretKey B.curve sk fp) :
    pubKeyOf B sk = fp := h.pubKey

theorem IsSecretKey.even (h : IsSecretKey B.curve sk fp) :
    IsSecretKey B.curve (evenScalar B.curve sk) fp where
  ne_zero := evenScalar_ne h.ne_zero
  pubKey := by rw [evenScalar_smul,← h.pubKey,serializePubKey,serializePubKey,xCoord_evenPoint]

end

section

variable {B : Bitcoin} {tx : MsgTx} {out : TxOut} {leaf : Script} {fp : BIP340PubKey}

/-- A place of the witness: nobody signed for its key, or its signature is verified. -/
def Covers (B : Bitcoin) (tx : MsgTx) (out : TxOut) (leaf : Script) (fp pk : BIP340PubKey)
    (s : Option (AdaptorSignature B.curve)) : Prop :=
  ∀ sig ∈ s, EncVerifies B tx out leaf pk fp sig

theorem CovVerified.covSigAt {fps : List BIP340PubKey} {c : CovenantAdaptorSignatures}
    (h : CovVerified B fps tx out leaf c) {fpIdx : Nat} (hf : fps[fpIdx]? = some fp) :
    ∃ sig, EncVerifies B tx out leaf c.covPk fp sig ∧ covSigAt B fpIdx c = .ok sig := by
  obtain ⟨sigs,hb,hv⟩ := h
  obtain ⟨hl,hg⟩ := List.getElem?_eq_some_iff.mp hf
  have hl' : fpIdx < sigs.length := hv.length_eq ▸ hl
  have hs : EncVerifies B tx out leaf c.covPk fp sigs[fpIdx] := by
    have := List.Forall₂.get hv hl hl'
    simpa [hg] using this
  refine ⟨sigs[fpIdx],hs,?_⟩
  rw [BtcStaking.covSigAt,hb,bind_eq_ok]
  refine ⟨sigs[fpIdx].marshal,?_,fromBytes_marshal hs.finite⟩
  rw [orFail_eq_ok,getElem?_map,getElem?_eq_getElem hl',map_some]

theorem getOrderedCovenantSignatures_spec {p : Params} {fps : List BIP340PubKey} {fpIdx : Nat}
    {covSigs : List CovenantAdaptorSignatures} (hf : fps[fpIdx]? = some fp)
    (members : ∀ c ∈ covSigs, c.covPk ∈ p.covenantPks)
    (distinct : (covSigs.map covPk).Nodup)
    (verified : ∀ c ∈ covSigs, CovVerified B fps tx out leaf c) :
    ∃ sigs, getOrderedCovenantSignatures B fpIdx covSigs p = .ok sigs ∧
      List.Forall₂ (Covers B tx out leaf fp) (sortBIP340PKs p.covenantPks) sigs ∧
      covSigs.length ≤ present sigs := by
  have hr := fun c hc => (verified c hc).covSigAt hf
  obtain ⟨m,hm⟩ := collect_succeeds covPk
    fun c hc => (hr c hc).imp fun _ h => h.2
  refine ⟨(sortBIP340PKs p.covenantPks).map m.get,?_,?_,?_⟩
  · rw [getOrderedCovenantSignatures,bind_eq_ok]
    exact ⟨m,hm,rfl⟩
  · rw [forall₂_map_right_iff,forall₂_same]
    intro pk _ sig hs
    obtain ⟨c,hc,rfl,hv⟩ := collect_get hm hs
    obtain ⟨sig',hvr,hv'⟩ := hr c hc
    rw [hv,Except.ok.injEq] at hv'
    exact hv' ▸ hvr
  · rw [present,countP_map]
    exact length_le_countP (fun _ => collect_isSome hm) distinct fun c hc =>
      (sortBIP340PKs_perm p.covenantPks).mem_iff.mpr (members c hc)

def Decrypted (B : Bitcoin) (hash : Bytes) (pk : BIP340PubKey) (s : Option (Signature B.curve)) :
    Prop :=
  ∀ x ∈ s, x.r < B.curve.p ∧ x.verify B.hashes hash pk = true

theorem decryptCovenantSigs_spec {sk : ZMod B.curve.n} (hsk : IsSecretKey B.curve sk fp)
    {covenantQuorum : Nat} {pks : List BIP340PubKey}
    {sigs : List (Option (AdaptorSignature B.curve))}
    (h : List.Forall₂ (Covers B tx out leaf fp) pks sigs) {numSigs : Nat}
    (hlt : numSigs < covenantQuorum) (hl : covenantQuorum ≤ numSigs+present sigs) :
    ∃ dec, decryptCovenantSigs B (evenScalar B.curve sk) covenantQuorum numSigs sigs =
        .ok (dec,covenantQuorum) ∧
      List.Forall₂ (Decrypted B (calcTapscriptSignaturehash B tx 0 [out] leaf)) pks dec ∧
      numSigs+present dec = covenantQuorum := by
  induction h generalizing numSigs with
  | nil =>
    simp [present] at hl
    omega
  | @cons pk s pks sigs hs hrs ih =>
    cases s with
    | none =>
      have hl' : covenantQuorum ≤ numSigs+present sigs := by simpa [present_cons] using hl
      obtain ⟨dec,hd,hvr,hc⟩ := ih hlt hl'
      refine ⟨none :: dec,?_,.cons (by simp [Decrypted]) hvr,by simpa [present_cons] using hc⟩
      simp only [decryptCovenantSigs,if_neg (Nat.ne_of_lt hlt),hd]
      rfl
    | some sig =>
      have he := (hs sig rfl).encVerify hsk
      obtain ⟨x,hx,hr,hv⟩ := decrypt_verifies (evenScalar_ne hsk.ne_zero) he
      have hdx : Decrypted B (calcTapscriptSignaturehash B tx 0 [out] leaf) pk (some x) := by
        intro y hy
        rw [← some.inj hy]
        exact ⟨hr,hv⟩
      by_cases hq : numSigs+1 = covenantQuorum
      · -- the loop breaks here; the remaining places stay empty
        have hn : List.Forall₂ (Decrypted B (calcTapscriptSignaturehash B tx 0 [out] leaf)) pks
            (sigs.map fun _ => none) := by
          rw [forall₂_map_right_iff]
          exact hrs.imp fun _ _ _ => by simp [Decrypted]
        have hz : present (sigs.map fun _ => (none : Option (Signature B.curve))) = 0 := by
          simp [present]
        refine ⟨some x :: sigs.map fun _ => none,?_,.cons hdx hn,?_⟩
        · simp only [decryptCovenantSigs,hx,Result.wrap,ok_bind,if_pos hq]
          rw [hq]
          rfl
        · simp only [present_cons,hz]
          simpa using hq
      · have hl' : covenantQuorum ≤ numSigs+1+present sigs := by
          simp [present_cons] at hl
          omega
        obtain ⟨dec,hd,hvr,hc⟩ := ih (by omega) hl'
        refine ⟨some x :: dec,?_,.cons hdx hvr,?_⟩
        · simp only [decryptCovenantSigs,hx,Result.wrap,ok_bind,if_neg hq,hd]
          rfl
        · simp [present_cons]
          omega

end

variable {B : Bitcoin} {idx : Nat} {out : TxOut}

theorem forall₂_single {α β : Type} {R : α → Option β → Prop} {keys : List α} {k : α} {x : β}
    (hk : keys[idx]? = some k) (hx : R k (some x)) (hn : ∀ k, R k none) :
    List.Forall₂ R keys ((keys.map fun _ => none).set idx (some x)) ∧
      present ((keys.map fun _ => none).set idx (some x)) = 1 := by
  induction keys generalizing idx with
  | nil => simp at hk
  | cons a _ ih =>
    cases idx with
    | zero =>
      rw [getElem?_cons_zero,some.injEq] at hk
      subst hk
      refine ⟨.cons hx ?_,by simp [present]⟩
      rw [forall₂_map_right_iff,forall₂_same]
      exact fun k _ => hn k
    | succ _ =>
      obtain ⟨hr,hc⟩ := ih (by simpa using hk)
      exact ⟨.cons (hn a) hr,by simpa [present_cons] using hc⟩

theorem findFPIdxInWitness_spec {fps : List BIP340PubKey} {fp : BIP340PubKey} (hm : fp ∈ fps)
    {sk : ZMod B.curve.n} (hs : IsSecretKey B.curve sk fp) :
    ∃ idx, findFPIdxInWitness B sk fps = .ok idx ∧ (sortBIP340PKs fps)[idx]? = some fp := by
  have hm' : fp ∈ sortBIP340PKs fps := (sortBIP340PKs_perm fps).mem_iff.mpr hm
  cases hf : (sortBIP340PKs fps).findIdx? (fun pk => pk = pubKeyOf B sk) with
  | none =>
    rw [findIdx?_eq_none_iff] at hf
    have := hf fp hm'
    simp [IsSecretKey.pubKeyOf hs] at this
  | some idx =>
    refine ⟨idx,by simp [findFPIdxInWitness,hf,orFail],?_⟩
    obtain ⟨hl,hg,_⟩ := findIdx?_eq_some_iff_getElem.mp hf
    rw [getElem?_eq_getElem hl,of_decide_eq_true hg,IsSecretKey.pubKeyOf hs]

theorem checkSlashingTx_input {slashingTx fundingTx : MsgTx} {minFee rate : Int}
    {pkScript : Bytes} {stakerPk : BIP340PubKey} {lockTime : Nat}
    (h : checkSlashingTxMatchFundingTx B slashingTx fundingTx idx minFee rate pkScript
      stakerPk lockTime =
      .ok ()) : ∃ i, slashingTx.txIn = [i] ∧ i.previousOutPoint = ⟨B.btc.txHash fundingTx,idx⟩ := by
  simp only [checkSlashingTxMatchFundingTx,validateSlashingTx,checkPreSignedSlashingTxSanity,
    checkPreSignedTxSanity,ok_iff] at h
  obtain ⟨_,_,_,_,_,⟨⟨_,hl,_⟩,_⟩,i,hi,hh,hid⟩ := h
  obtain ⟨j,hj⟩ := length_eq_one_iff.mp hl
  rw [hj,getElem?_cons_zero,some.injEq] at hi
  refine ⟨j,hj,?_⟩
  rw [hi,← hh,← hid]

theorem checkTxBeforeSigning_of_spends {tx fundingTx : MsgTx} {i : TxIn}
    (hi : tx.txIn = [i]) (hs : i.previousOutPoint = ⟨B.btc.txHash fundingTx,idx⟩)
    (ho : fundingTx.txOut[idx]? = some out) : checkTxBeforeSigning B tx fundingTx idx = .ok () := by
  obtain ⟨hl,_⟩ := List.getElem?_eq_some_iff.mp ho
  simp only [checkTxBeforeSigning,ok_iff,hi]
  exact ⟨rfl,hl,i,rfl,by rw [hs],by rw [hs]⟩

theorem signStrict_verifies {tx fundingTx : MsgTx} {i : TxIn} (leaf : Script) {sk : ZMod B.curve.n}
    {pk : BIP340PubKey} (hi : tx.txIn = [i])
    (hsp : i.previousOutPoint = ⟨B.btc.txHash fundingTx,idx⟩)
    (ho : fundingTx.txOut[idx]? = some out) (hsk : IsSecretKey B.curve sk pk) :
    ∃ sig, signTxWithOneScriptSpendInputStrict B tx fundingTx idx leaf sk = .ok sig ∧
      Decrypted B (calcTapscriptSignaturehash B tx 0 [out] leaf) pk (some sig) := by
  obtain ⟨sig,hs,hr,hv⟩ := sign_verifies (H := B.hashes) hsk
    (B.nonce_ne sk (calcTapscriptSignaturehash B tx 0 [out] leaf))
    (B.tapscriptSigHash_length _ _ _ _)
  refine ⟨sig,?_,?_⟩
  · simp only [signTxWithOneScriptSpendInputStrict,signTxWithOneScriptSpendInputFromScript,ok_iff]
    exact ⟨(),checkTxBeforeSigning_of_spends hi hsp ho,out,ho,by simp [hi],hs⟩
  · intro x hx
    rw [← some.inj hx]
    exact ⟨hr,hv⟩

theorem verifyWithOutput_spec {tx : MsgTx} {leaf : Script} {pk : BIP340PubKey} {b : Bytes}
    (h : verifyTransactionSigWithOutput B tx out leaf pk b = .ok ()) :
    ∃ sig, parseSignature B.curve b = some sig ∧
      validSig B (calcTapscriptSignaturehash B tx 0 [out] leaf) pk sig.serialize = true := by
  simp only [verifyTransactionSigWithOutput,verifySignature,ok_iff] at h
  obtain ⟨_,sig,hs,hv⟩ := h
  refine ⟨sig,hs,?_⟩
  rw [serialize_of_parse hs,validSig,hs]
  exact hv

def withWitness (tx : MsgTx) (i : TxIn) (w : List Bytes) : MsgTx :=
  { tx with txIn := [{ i with witness := w }] }

theorem leafAccepts_witness {tx : MsgTx} {i : TxIn} (si : SpendInfo)
    {stakerKey : BIP340PubKey} {fpKeys covenantKeys : List BIP340PubKey}
    {covenantQuorum lockTime : Nat}
    {paths : AnonScriptPaths} {covSigs fpSigs : List (Option (Signature B.curve))}
    {delSig : Signature B.curve} (hi : tx.txIn = [i])
    (hp : newAnonScriptPaths B stakerKey fpKeys covenantKeys covenantQuorum lockTime = .ok paths)
    (hco : List.Forall₂ (Decrypted B
      (calcTapscriptSignaturehash B tx 0 [out] paths.slashingPathScript))
      (sortBIP340PKs covenantKeys) covSigs) (hcv : present covSigs = covenantQuorum)
    (hq : 0 < covenantQuorum)
    (hfp : List.Forall₂ (Decrypted B
      (calcTapscriptSignaturehash B tx 0 [out] paths.slashingPathScript))
      (sortBIP340PKs fpKeys) fpSigs) (hf : present fpSigs = 1)
    (hd : validSig B (calcTapscriptSignaturehash B tx 0 [out] paths.slashingPathScript) stakerKey
      delSig.serialize = true) (age : Nat) :
    leafAccepts B (withWitness tx i (createWitness B si (covSigs.map witnessElement ++
      fpSigs.map witnessElement ++
        [delSig.serialize]))) out paths.slashingPathScript age = true := by
  -- the witness is not part of what is signed
  have hh : ∀ w, calcTapscriptSignaturehash B (withWitness tx i w) 0 [out]
      paths.slashingPathScript = calcTapscriptSignaturehash B tx 0
        [out] paths.slashingPathScript := by
    simp [calcTapscriptSignaturehash,withoutWitness,withWitness,hi]
  have hsg : ∀ {keys : List BIP340PubKey} {sigs : List (Option (Signature B.curve))},
      List.Forall₂ (Decrypted B (calcTapscriptSignaturehash B tx 0 [out] paths.slashingPathScript))
        (sortBIP340PKs keys) sigs →
      List.Forall₂ (Signs (validSig B (calcTapscriptSignaturehash B tx 0
        [out] paths.slashingPathScript)))
        (sortKeys keys) (sigs.reverse.map stackSig) := by
    intro keys sigs h
    rw [← descending_reverse,forall₂_map_right_iff,forall₂_reverse_iff]
    exact h.imp fun _ _ hs => signs_stackSig hs
  have hc : ∀ sigs : List (Option (Signature B.curve)),
      present (sigs.reverse.map stackSig) = present sigs := by
    intro sigs
    rw [present_stackSig,present,countP_reverse,present]
  have hr := run_slashingPath age hp hd (hsg hfp) ((hc _).trans hf)
    (hsg hco) ((hc _).trans hcv) hq
  simp only [leafAccepts,hh]
  simp only [withWitness,initialStack_witness,Tapscript.succeeds,hr]
  rfl

/-- The witness a provider's secret key completes: the place of the provider, the decrypted
signatures of the covenant in order, and those of the provider and the delegator. -/
structure CompletedWitness (B : Bitcoin) (p : Params) (d : BTCDelegation)
    (covSigs : List CovenantAdaptorSignatures) (hash : Bytes) (fp : BIP340PubKey)
    (sk : ZMod B.curve.n) where
  fpIdx : Nat
  fpIdxInWitness : Nat
  covAdaptorSigs : List (Option (AdaptorSignature B.curve))
  covenantSigs : List (Option (Signature B.curve))
  fpSig : Signature B.curve
  delegatorSig : Signature B.curve
  fpAt : d.fpBtcPkList[fpIdx]? = some fp
  fpAtWitness : (sortBIP340PKs d.fpBtcPkList)[fpIdxInWitness]? = some fp
  ordered : getOrderedCovenantSignatures B fpIdx covSigs p = .ok covAdaptorSigs
  decrypted : decryptCovenantSigs B (evenScalar B.curve sk) p.covenantQuorum 0 covAdaptorSigs =
    .ok (covenantSigs,p.covenantQuorum)
  covenantValid : List.Forall₂ (Decrypted B hash) (sortBIP340PKs p.covenantPks) covenantSigs
  covenantCount : present covenantSigs = p.covenantQuorum
  fpValid : Decrypted B hash fp (some fpSig)
  delegatorValid : validSig B hash d.btcPk delegatorSig.serialize = true

namespace CompletedWitness

variable {p : Params} {d : BTCDelegation} {covSigs : List CovenantAdaptorSignatures} {hash : Bytes}
  {fp : BIP340PubKey} {sk : ZMod B.curve.n}

def fpSigs (w : CompletedWitness B p d covSigs hash fp sk) : List (Option (Signature B.curve)) :=
  (d.fpBtcPkList.map fun _ => none).set w.fpIdxInWitness (some w.fpSig)

def signatures (w : CompletedWitness B p d covSigs hash fp sk) : List Bytes :=
  w.covenantSigs.map witnessElement ++ w.fpSigs.map witnessElement ++ [w.delegatorSig.serialize]

theorem fpSigs_spec (w : CompletedWitness B p d covSigs hash fp sk) :
    List.Forall₂ (Decrypted B hash) (sortBIP340PKs d.fpBtcPkList) w.fpSigs ∧
      present w.fpSigs = 1 := by
  have hn : d.fpBtcPkList.map (fun _ => (none : Option (Signature B.curve))) =
      (sortBIP340PKs d.fpBtcPkList).map fun _ => none := by
    rw [map_const',map_const',(sortBIP340PKs_perm d.fpBtcPkList).length_eq]
  rw [fpSigs,hn]
  exact forall₂_single w.fpAtWitness w.fpValid (by simp [Decrypted])

end CompletedWitness

variable {p : Params} {d : BTCDelegation} {info : OutputInfo} {fundingTx slashingTx : MsgTx}
  {outputIdx : Nat} {delegatorSig : Bytes} {covSigs : List CovenantAdaptorSignatures}
  {fp : BIP340PubKey} {sk : ZMod B.curve.n}

theorem findFPIdx_spec (hfp : fp ∈ d.fpBtcPkList) :
    ∃ idx, d.findFPIdx fp = .ok idx ∧ d.fpBtcPkList[idx]? = some fp := by
  cases hf : d.fpBtcPkList.findIdx? (fun pk => pk = fp) with
  | none => simpa using findIdx?_eq_none_iff.mp hf fp hfp
  | some idx =>
    refine ⟨idx,by simp [BTCDelegation.findFPIdx,hf,orFail],?_⟩
    obtain ⟨hl,hg,_⟩ := findIdx?_eq_some_iff_getElem.mp hf
    rw [getElem?_eq_getElem hl,of_decide_eq_true hg]

theorem Slashable.witness
    (h : Slashable B p d info fundingTx outputIdx slashingTx delegatorSig covSigs)
    (hp : 0 < p.covenantQuorum) (hq : p.covenantQuorum ≤ covSigs.length) (hfp : fp ∈ d.fpBtcPkList)
    (hs : IsSecretKey B.curve sk fp) :
    ∃ w : CompletedWitness B p d covSigs (calcTapscriptSignaturehash B slashingTx 0 [info.output]
        info.paths.slashingPathScript) fp sk,
      d.findFPIdx fp = .ok w.fpIdx ∧
      findFPIdxInWitness B (evenScalar B.curve sk) d.fpBtcPkList = .ok w.fpIdxInWitness ∧
      signTxWithOneScriptSpendInputStrict B slashingTx fundingTx outputIdx
        info.paths.slashingPathScript (evenScalar B.curve sk) = .ok w.fpSig ∧
      parseSignature B.curve delegatorSig = some w.delegatorSig := by
  obtain ⟨i,hi,hsp⟩ := checkSlashingTx_input h.spends
  have he := IsSecretKey.even hs
  obtain ⟨fpIdx,hfd,hft⟩ := findFPIdx_spec hfp
  obtain ⟨ordered,ho,hc,hcn⟩ :=
    getOrderedCovenantSignatures_spec hft h.members h.distinct h.verified
  obtain ⟨dec,hde,hv,hdc⟩ := decryptCovenantSigs_spec hs hc hp (by omega)
  obtain ⟨wIdx,hw,hwt⟩ := findFPIdxInWitness_spec hfp he
  obtain ⟨fpSig,hfs,hf⟩ := signStrict_verifies info.paths.slashingPathScript hi hsp
    h.funding he
  obtain ⟨delSig,hdl,hd⟩ := verifyWithOutput_spec h.delegator
  exact ⟨⟨fpIdx,wIdx,ordered,dec,fpSig,delSig,hft,hwt,ho,hde,hv,by omega,hf,hd⟩,hfd,hw,hfs,hdl⟩

theorem Slashable.completed
    (h : Slashable B p d info fundingTx outputIdx slashingTx delegatorSig covSigs)
    (hp : 0 < p.covenantQuorum) (hq : p.covenantQuorum ≤ covSigs.length) (hfp : fp ∈ d.fpBtcPkList)
    (hs : IsSecretKey B.curve sk fp) :
    ∃ i, slashingTx.txIn = [i] ∧
      ∃ w : CompletedWitness B p d covSigs (calcTapscriptSignaturehash B slashingTx 0 [info.output]
          info.paths.slashingPathScript) fp sk,
        d.completeSlashingTx B p sk info fundingTx outputIdx slashingTx delegatorSig covSigs =
          .ok (withWitness slashingTx i (createWitness B ⟨info.paths.slashingPathScript,
            B.controlBlock info.scriptHolder info.paths.slashingPathScript⟩ w.signatures)) := by
  obtain ⟨i,hi,_⟩ := checkSlashingTx_input h.spends
  obtain ⟨w,hf,hw,hfs,hd⟩ := h.witness hp hq hfp hs
  refine ⟨i,hi,w,?_⟩
  have hcv : w.covenantSigs ≠ [] := by
    intro hn
    have hc := w.covenantCount
    simp [hn,present] at hc
    omega
  have hfn : (d.fpBtcPkList.map fun _ => none).set w.fpIdxInWitness (some w.fpSig) ≠ [] := by
    intro hn
    have hc := w.fpSigs_spec.2
    rw [CompletedWitness.fpSigs,hn] at hc
    simp [present] at hc
  simp only [BTCDelegation.completeSlashingTx,BTCDelegation.prepareSlashingTx,
    OutputInfo.slashingPathSpendInfo,
    scriptSpendInfoByName_leaf h.leaf h.leaves,IsSecretKey.pubKeyOf hs,hf,orFail,w.ordered,
    Result.wrap,ok_bind,BtcStaking.buildSlashingTxWithWitness,newDecryptionKey,ensure,
    if_pos hs.ne_zero,pure,Except.pure,w.decrypted,le_refl,if_true,hw,hfs,hd,
    createSlashingPathWitness,if_pos hcv,if_pos hfn,setFirstWitness,hi]
  rfl

theorem Slashable.completes
    (h : Slashable B p d info fundingTx outputIdx slashingTx delegatorSig covSigs)
    (hp : 0 < p.covenantQuorum) (hq : p.covenantQuorum ≤ covSigs.length) (hfp : fp ∈ d.fpBtcPkList)
    (hs : IsSecretKey B.curve sk fp) :
    ∃ tx, d.completeSlashingTx B p sk info fundingTx outputIdx slashingTx delegatorSig covSigs =
      .ok tx ∧ ∀ age, leafAccepts B tx info.output info.paths.slashingPathScript age = true := by
  obtain ⟨lockTime,hpt⟩ := h.paths
  obtain ⟨i,hi,w,ht⟩ := h.completed hp hq hfp hs
  obtain ⟨hfs,hf⟩ := w.fpSigs_spec
  exact ⟨_,ht,leafAccepts_witness _ hi hpt w.covenantValid w.covenantCount hp hfs hf
    w.delegatorValid⟩

end AnonChain.BtcStaking
