import AnonChain.BtcStaking.Regtest

/-! Adaptor signatures from end to end, and what making a decryption key does to the secret key. -/

namespace AnonChain.Adaptor

open Lib Eots List Regtest
open AdaptorSignature (mk encVerify marshal)

section

variable {C : Secp256k1} {H : Hashes} {pk hash : Bytes} {sig : AdaptorSignature C} {T : C.Point}

variable (C H) in
def encSignScalar (sk nonce : ZMod C.n) (T : C.Point) (hash : Bytes) : ZMod C.n :=
  challenge C H (C.xCoord (nonce • C.G+T)) (serializePubKey C.toCurve (sk • C.G))
    hash*evenScalar C sk + if C.yIsOdd (nonce • C.G+T) then -nonce else nonce

/-- The form of 66 bytes: the point without its parity, which is the last byte. -/
def AdaptorSignature.marshalOldFormat (sig : AdaptorSignature C) : Bytes :=
  2 :: (writeBE 32 (C.xCoord sig.R0) ++ writeBE 32 sig.s.val ++ [if C.yIsOdd sig.R0 then 1 else 0])

section

variable {sk nonce : ZMod C.n} (hlen : hash.length = 32) (hsk : sk ≠ 0)
  (hnonce : nonce ≠ 0) (hT : T ≠ 0)
  (hR0 : nonce • C.G+T ≠ 0) (hs : encSignScalar C H sk nonce T hash ≠ 0)

include hlen hsk hnonce hT hR0 hs

theorem encVerify_own : (mk (nonce • C.G+T) (encSignScalar C H sk nonce T hash)).encVerify H
    (serializePubKey C.toCurve (sk • C.G)) T hash = .ok () := by
  -- What the check computes back is the nonce point, with the sign of the parity of `R0`.
  have hR : encSignScalar C H sk nonce T hash • C.G+(-challenge C H (C.xCoord (nonce • C.G+T))
      (serializePubKey C.toCurve (sk • C.G)) hash) • evenPoint C (sk • C.G) =
        if C.yIsOdd (nonce • C.G+T) then -(nonce • C.G) else nonce • C.G := by
    rw [encSignScalar,add_smul,mul_smul,evenScalar_smul,neg_smul]
    split
    · rw [neg_smul]
      abel
    · abel
  simp only [encVerify,ok_iff]
  refine ⟨hlen,length_writeBE 32 _,_,parsePubKey_serializePubKey (smul_gen_ne hsk),hs,hR0,?_⟩
  rw [hR]
  have hn := smul_gen_ne hnonce
  cases C.yIsOdd (nonce • C.G+T) with
  | true =>
    simp only [if_true,add_neg_cancel_comm]
    exact ⟨neg_ne_zero.mpr hn,hT,trivial⟩
  | false =>
    simp only [Bool.false_eq_true,if_false,add_neg_cancel_comm]
    exact ⟨hn,hT,trivial⟩

theorem encSign_succeeds :
    encSign C H sk nonce T hash = .ok ⟨nonce • C.G+T,encSignScalar C H sk nonce T hash⟩ := by
  have ho := encVerify_own hlen hsk hnonce hT hR0 hs
  simp only [encSign,ok_iff]
  exact ⟨hlen,hsk,hnonce,hR0,(),ho,rfl⟩

end

theorem encVerify_encKey_ne (h : sig.encVerify H pk T hash = .ok ()) : T ≠ 0 := by
  simp only [encVerify,ok_iff] at h
  obtain ⟨_,_,_,_,_,_,_,hn,rfl⟩ := h
  exact hn

theorem fromBytes_marshalOldFormat (h : sig.R0 ≠ 0) :
    newAdaptorSignatureFromBytes C sig.marshalOldFormat = .ok sig := by
  have hl : sig.marshalOldFormat.getLast? = some (if C.yIsOdd sig.R0 then 1 else 0) :=
    getLast?_concat (l := 2 :: (writeBE 32 (C.xCoord sig.R0) ++ writeBE 32 sig.s.val))
  have ht : (sig.marshalOldFormat.drop 1).take 64 = writeBE 32 (C.xCoord sig.R0) ++
      writeBE 32 sig.s.val :=
    take_left' (by simp)
  have hn : convertOldFormatToNewFormat sig.marshalOldFormat = .ok sig.marshal := by
    simp only [convertOldFormatToNewFormat,ok_iff,hl,ht]
    refine ⟨rfl,?_⟩
    cases ho : C.yIsOdd sig.R0 <;> simp [marshal,ho]
  have hb : adaptorSignatureBytes sig.marshalOldFormat = adaptorSignatureBytes sig.marshal := by
    have hold : sig.marshalOldFormat.length = 66 := by simp [AdaptorSignature.marshalOldFormat]
    have hlen : sig.marshal.length = 65 := by simp [marshal]
    simp [adaptorSignatureBytes,hold,hlen,adaptorSignatureSizeOldFormat,
      adaptorSignatureSize,hn,Result.wrap]
  rw [← fromBytes_marshal h,newAdaptorSignatureFromBytes,hb,← newAdaptorSignatureFromBytes]

end

/-- The self check of `encSign` passes; every adaptor signature that verifies opens to a Schnorr
signature with the secret key of its encryption key, and the two give that key back; and both
written forms are read back. -/
theorem adaptor_signatures_correct (C : Secp256k1) (H : Hashes) :
    (∀ (sk nonce : ZMod C.n) (T : C.Point) (hash : Bytes), hash.length = 32 → sk ≠ 0 →
      nonce ≠ 0 → T ≠ 0 → nonce • C.G+T ≠ 0 → encSignScalar C H sk nonce T hash ≠ 0 →
      ∃ sig, encSign C H sk nonce T hash = .ok sig ∧
        sig.encVerify H (serializePubKey C.toCurve (sk • C.G)) T hash = .ok ()) ∧
    (∀ (sig : AdaptorSignature C) (pk : Bytes) (T : C.Point) (hash : Bytes) (dk : ZMod C.n),
      sig.encVerify H pk T hash = .ok () → dk • C.G = T →
      ∃ dec, sig.decrypt dk = .ok dec ∧ dec.verify H hash pk = true ∧
      (dec.s ≠ 0 → sig.extract dec = .ok dk)) ∧
    ∀ sig : AdaptorSignature C, sig.R0 ≠ 0 → newAdaptorSignatureFromBytes C sig.marshal = .ok sig ∧
      newAdaptorSignatureFromBytes C sig.marshalOldFormat = .ok sig := by
  refine ⟨?_,?_,fun sig h => ⟨fromBytes_marshal h,fromBytes_marshalOldFormat h⟩⟩
  · intro sk nonce T hash hlen hsk hnonce hT hR0 hs
    exact ⟨_,encSign_succeeds hlen hsk hnonce hT hR0 hs,encVerify_own hlen hsk hnonce hT hR0 hs⟩
  · rintro sig pk _ hash dk hv rfl
    have hdk : dk ≠ 0 := by
      rintro rfl
      exact encVerify_encKey_ne hv (zero_smul _ _)
    obtain ⟨dec,hd,-,ho⟩ := decrypt_verifies hdk hv
    exact ⟨dec,hd,ho,extract_decrypt hd⟩

theorem adaptor_signatures_correct_two : ∃ sig dec,
    encSign Regtest.secp Regtest.hashes (2 : ZMod 11) (1 : ZMod 11) (3 : ZMod 11)
      (Regtest.bytes 3) = .ok sig ∧
    sig.decrypt (3 : ZMod 11) = .ok dec ∧
      dec.verify Regtest.hashes (Regtest.bytes 3) (Regtest.bytes 2) = true := by
  obtain ⟨hsg,ho,-⟩ := adaptor_signatures_correct secp hashes
  obtain ⟨sig,hsi,hv⟩ := hsg (2 : ZMod 11) (1 : ZMod 11) (3 : ZMod 11) (bytes 3)
    (length_writeBE 32 3)
    Regtest.secretKey_two.ne_zero (by decide : (1 : ZMod 11) ≠ 0) (by decide : (3 : ZMod 11) ≠ 0)
    (by decide : (1*1+3 : ZMod 11) ≠ 0) (by decide +kernel : (encSignScalar secp hashes
      (2 : ZMod 11) (1 : ZMod 11) (3 : ZMod 11) (bytes 3) : ZMod 11) ≠ 0)
  obtain ⟨dec,hd,hok,-⟩ := ho sig _ _ _ (3 : ZMod 11) hv (by decide : (3*1 : ZMod 11) = 3)
  exact ⟨sig,dec,hsi,hd,hok⟩

end AnonChain.Adaptor

namespace AnonChain.BtcStaking

open Lib StakingLib Adaptor

variable (B : Bitcoin) (sk : ZMod B.curve.n)

variable {B} {sk}

end AnonChain.BtcStaking
