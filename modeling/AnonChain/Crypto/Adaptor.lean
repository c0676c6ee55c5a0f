import AnonChain.Crypto.Eots

/-! Schnorr signatures and the adaptor signatures of the covenant. -/

namespace AnonChain.Adaptor

open Lib Eots List

/-- What the adaptor scheme uses of secp256k1 beyond the group. -/
structure Secp256k1 extends Curve where
  gen_ne : G ≠ 0
  xCoord_neg : ∀ P : Point, xCoord (-P) = xCoord P
  yIsOdd_neg : ∀ P : Point, P ≠ 0 → yIsOdd (-P) = !yIsOdd P
  xCoord_lt : ∀ P : Point, P ≠ 0 → xCoord P < p
  liftX_even : ∀ P : Point, P ≠ 0 → yIsOdd P = false → liftX (xCoord P) = some P
  p_le : p ≤ 2^256
  n_le : n ≤ 2^256

instance prime_order (C : Secp256k1) : Fact C.n.Prime := C.prime

section

variable (C : Secp256k1) (H : Hashes)

def evenPoint (P : C.Point) : C.Point := if C.yIsOdd P then -P else P

def evenScalar (k : ZMod C.n) : ZMod C.n := if C.yIsOdd (k • C.G) then -k else k

def challenge (r : Nat) (pkBytes hash : Bytes) : ZMod C.n :=
  (readBE (H.taggedHashChallenge (writeBE 32 r ++ pkBytes ++ hash)) : ZMod C.n)

structure Signature where
  r : Nat
  s : ZMod C.n

def Signature.serialize {C : Secp256k1} (sig : Signature C) : Bytes :=
  writeBE 32 sig.r ++ writeBE 32 sig.s.val

def parseSignature (b : Bytes) : Option (Signature C) :=
  if b.length = 64 ∧ readBE (b.take 32) < C.p ∧ readBE (b.drop 32) < C.n then
    some ⟨readBE (b.take 32),(readBE (b.drop 32) : ZMod C.n)⟩
  else none

def Signature.verify {C : Secp256k1} (sig : Signature C) (hash : Bytes) (pkBytes : Bytes) : Bool :=
  match parsePubKey C.toCurve pkBytes with
  | none => false
  | some P =>
    let R := sig.s • C.G-challenge C H sig.r pkBytes hash • P
    hash.length = 32 ∧ R ≠ 0 ∧ C.yIsOdd R = false ∧ C.xCoord R = sig.r

/-- The nonce comes from the library's deterministic generator. -/
def sign (sk nonce : ZMod C.n) (hash : Bytes) : Result (Signature C) := do
  ensure (hash.length = 32) (.errorf "wrong size for message hash")
  ensure (sk ≠ 0) (.errorf "private key is zero")
  let R := nonce • C.G
  let e := challenge C H (C.xCoord R) (serializePubKey C.toCurve (sk • C.G)) hash
  pure ⟨C.xCoord R,evenScalar C nonce+e*evenScalar C sk⟩

structure AdaptorSignature where
  R0 : C.Point
  s : ZMod C.n

def parseCompressed (b : Bytes) : Option C.Point :=
  match b with
  | [] => none
  | f :: x =>
    if x.length = 32 ∧ readBE x < C.p then
      if f = 2 then C.liftX (readBE x)
      else if f = 3 then (C.liftX (readBE x)).map (fun P => -P)
      else none
    else none

def convertOldFormatToNewFormat (old : Bytes) : Result Bytes := do
  ensure (old.head? = some 2) (.errorf "invalid point (must be even)")
  ensure (old.getLast? = some 0 ∨ old.getLast? = some 1) (.errorf "invalid needsNegation byte")
  pure ((if old.getLast? = some 0 then 2 else 3) :: (old.drop 1).take 64)

def adaptorSignatureSize : Nat := 65
def adaptorSignatureSizeOldFormat : Nat := 66

def adaptorSignatureBytes (raw : Bytes) : Result Bytes :=
  if raw.length = adaptorSignatureSizeOldFormat then
    Result.wrap (convertOldFormatToNewFormat raw)
      (.errorf "failed to convert old format to new format: %w")
  else if raw.length = adaptorSignatureSize then .ok raw
  else .error (.errorf
    "the length of the given bytes for adaptor signature is incorrect (expected: %d or %d, actual: %d)")

def newAdaptorSignatureFromBytes (raw : Bytes) : Result (AdaptorSignature C) := do
  let b ← adaptorSignatureBytes raw
  let R0 ← orFail (parseCompressed C (b.take 33)) (.errorf "failed to parse R0: %w")
  ensure (readBE (b.drop 33) < C.n) (.errorf "s value is invalid")
  pure ⟨R0,(readBE (b.drop 33) : ZMod C.n)⟩

def AdaptorSignature.marshal {C : Secp256k1} (sig : AdaptorSignature C) : Bytes :=
  (if C.yIsOdd sig.R0 then 3 else 2) :: (writeBE 32 (C.xCoord sig.R0) ++ writeBE 32 sig.s.val)

/-- `NewDecryptionKeyFromBTCSK`: the scalar whose point has an even y. -/
def newDecryptionKey (sk : ZMod C.n) : Result (ZMod C.n) := do
  ensure (sk ≠ 0) (.errorf "the given scalar is zero")
  pure (evenScalar C sk)

/-- `NewEncryptionKeyFromBTCPK` on a key parsed from its x coordinate. -/
def newEncryptionKey (pkBytes : Bytes) : Result C.Point := do
  let P ← orFail (parsePubKey C.toCurve pkBytes) (.panic "invalid public key")
  pure (evenPoint C P)

def AdaptorSignature.encVerify {C : Secp256k1} (sig : AdaptorSignature C) (pkBytes : Bytes)
    (encKey : C.Point) (hash : Bytes) : Result Unit := do
  ensure (hash.length = 32) (.errorf "wrong size for message (got %v, want %v)")
  ensure (pkBytes.length = 32) (.errorf "wrong size for public key (got %v, want %v)")
  let P ← orFail (parsePubKey C.toCurve pkBytes) (.errorf "invalid public key")
  ensure (sig.s ≠ 0) (.errorf "s value is zero")
  ensure (sig.R0 ≠ 0) (.errorf "R0 point is at infinity")
  let e := challenge C H (C.xCoord sig.R0) pkBytes hash
  let R := sig.s • C.G+(-e) • P
  ensure (R ≠ 0) (.errorf "R point is at infinity")
  let T := if C.yIsOdd sig.R0 then sig.R0+R else sig.R0+-R
  ensure (T ≠ 0) (.errorf "T point is at infinity")
  ensure (T = encKey) (.errorf "extracted encryption key does not match")

/-- The nonce stands for the one drawn from the auxiliary randomness. -/
def encSign (sk nonce : ZMod C.n) (encKey : C.Point) (hash : Bytes) :
    Result (AdaptorSignature C) := do
  ensure (hash.length = 32) (.errorf "wrong size for message hash (got %v, want %v)")
  ensure (sk ≠ 0) (.errorf "private key is zero")
  ensure (nonce ≠ 0) (.errorf "nonce is zero")
  let R0 := nonce • C.G+encKey
  ensure (R0 ≠ 0) (.errorf "R0 point is at infinity")
  let k := if C.yIsOdd R0 then -nonce else nonce
  let pkBytes := serializePubKey C.toCurve (sk • C.G)
  let e := challenge C H (C.xCoord R0) pkBytes hash
  let sig : AdaptorSignature C := ⟨R0,e*evenScalar C sk+k⟩
  Result.wrap (sig.encVerify H pkBytes encKey hash)
    (.errorf "verification of generated signature failed: %w")
  pure sig

def AdaptorSignature.decrypt {C : Secp256k1} (sig : AdaptorSignature C) (t : ZMod C.n) :
    Result (Signature C) := do
  ensure (sig.s ≠ 0 ∧ t ≠ 0) (.errorf "s0 or decryption key is zero")
  pure ⟨C.xCoord sig.R0,if C.yIsOdd sig.R0 then sig.s+-t else sig.s+t⟩

def AdaptorSignature.extract {C : Secp256k1} (sig : AdaptorSignature C) (dec : Signature C) :
    Result (ZMod C.n) := do
  ensure (sig.s ≠ 0 ∧ dec.s ≠ 0) (.errorf "s values must be non-zero")
  pure (if C.yIsOdd sig.R0 then sig.s+-dec.s else dec.s+-sig.s)

structure IsSecretKey (sk : ZMod C.n) (pk : Bytes) : Prop where
  ne_zero : sk ≠ 0
  pubKey : serializePubKey C.toCurve (sk • C.G) = pk

end

section

variable {C : Secp256k1} {P : C.Point}

theorem smul_gen_ne {k : ZMod C.n} (h : k ≠ 0) : k • C.G ≠ 0 := by
  intro hk
  have hG : k⁻¹ • k • C.G = C.G := by rw [smul_smul,inv_mul_cancel₀ h,one_smul]
  rw [hk,smul_zero] at hG
  exact C.gen_ne hG.symm

theorem evenPoint_ne (h : P ≠ 0) : evenPoint C P ≠ 0 := by
  unfold evenPoint
  split
  · exact neg_ne_zero.mpr h
  · exact h

theorem yIsOdd_evenPoint (h : P ≠ 0) : C.yIsOdd (evenPoint C P) = false := by
  unfold evenPoint
  split
  case isTrue ho => rw [C.yIsOdd_neg P h,ho]; rfl
  case isFalse ho => simpa using ho

theorem xCoord_evenPoint (P : C.Point) : C.xCoord (evenPoint C P) = C.xCoord P := by
  unfold evenPoint
  split
  · exact C.xCoord_neg P
  · rfl

theorem evenPoint_of_even (h : C.yIsOdd P = false) : evenPoint C P = P := by simp [evenPoint,h]

theorem evenScalar_smul (k : ZMod C.n) : evenScalar C k • C.G = evenPoint C (k • C.G) := by
  unfold evenScalar evenPoint
  split
  · exact neg_smul k C.G
  · rfl

theorem evenScalar_ne {k : ZMod C.n} (h : k ≠ 0) : evenScalar C k ≠ 0 := by
  unfold evenScalar
  split
  · exact neg_ne_zero.mpr h
  · exact h

theorem parsePubKey_serializePubKey (h : P ≠ 0) :
    parsePubKey C.toCurve (serializePubKey C.toCurve P) = some (evenPoint C P) := by
  have hl : C.xCoord P < C.p := C.xCoord_lt P h
  have hr : readBE (serializePubKey C.toCurve P) = C.xCoord P :=
    readBE_writeBE (Nat.lt_of_lt_of_le hl C.p_le)
  have hln : (serializePubKey C.toCurve P).length = 32 := length_writeBE 32 _
  unfold parsePubKey
  rw [if_pos ⟨hln,by rw [hr]; exact hl⟩,hr,← xCoord_evenPoint P]
  exact C.liftX_even _ (evenPoint_ne h) (yIsOdd_evenPoint h)

theorem IsSecretKey.parsePubKey {sk : ZMod C.n} {pk : Bytes} (h : IsSecretKey C sk pk) :
    parsePubKey C.toCurve pk = some (evenScalar C sk • C.G) := by
  rw [evenScalar_smul,← h.pubKey]
  exact parsePubKey_serializePubKey (smul_gen_ne h.ne_zero)

theorem parseCompressed_point (h : P ≠ 0) :
    parseCompressed C ((if C.yIsOdd P then 3 else 2) :: writeBE 32 (C.xCoord P)) = some P := by
  have hl : C.xCoord P < C.p := C.xCoord_lt P h
  have hr : readBE (writeBE 32 (C.xCoord P)) = C.xCoord P :=
    readBE_writeBE (Nat.lt_of_lt_of_le hl C.p_le)
  simp only [parseCompressed,length_writeBE,hr,hl,and_self,if_true]
  cases ho : C.yIsOdd P with
  | false => simpa [ho] using C.liftX_even P h ho
  | true =>
    have hn := C.liftX_even (-P) (neg_ne_zero.mpr h) (by rw [C.yIsOdd_neg P h,ho]; rfl)
    rw [C.xCoord_neg] at hn
    simp [hn]

end

variable {C : Secp256k1} {H : Hashes} {pk hash : Bytes} {sig : AdaptorSignature C}

theorem writeBE_val_read (s : ZMod C.n) : readBE (writeBE 32 s.val) = s.val :=
  readBE_writeBE (Nat.lt_of_lt_of_le (ZMod.val_lt s) C.n_le)

theorem parseSignature_serialize {sig : Signature C} (h : sig.r < C.p) :
    parseSignature C sig.serialize = some sig := by
  have hr : readBE (writeBE 32 sig.r) = sig.r := readBE_writeBE (Nat.lt_of_lt_of_le h C.p_le)
  have ht : sig.serialize.take 32 = writeBE 32 sig.r := take_left' (length_writeBE 32 _)
  have hd : sig.serialize.drop 32 = writeBE 32 sig.s.val := drop_left' (length_writeBE 32 _)
  have hl : sig.serialize.length = 64 := by simp [Signature.serialize]
  unfold parseSignature
  rw [ht,hd,hr,writeBE_val_read,if_pos ⟨hl,h,ZMod.val_lt sig.s⟩,ZMod.natCast_zmod_val]

theorem serialize_of_parse {b : Bytes} {sig : Signature C} (h : parseSignature C b = some sig) :
    sig.serialize = b := by
  unfold parseSignature at h
  split at h
  case isFalse => cases h
  case isTrue hb =>
    obtain ⟨hl,_,hs⟩ := hb
    cases h
    have ht : (b.take 32).length = 32 := by simp [hl]
    have hd : (b.drop 32).length = 32 := by simp [hl]
    rw [Signature.serialize,ZMod.val_natCast_of_lt hs,writeBE_readBE ht,writeBE_readBE hd]
    exact take_append_drop 32 b

theorem verify_iff {sig : Signature C} {hash pk : Bytes} {P : C.Point}
    (hP : parsePubKey C.toCurve pk = some P) : sig.verify H hash pk = true ↔
      hash.length = 32 ∧ sig.s • C.G-challenge C H sig.r pk hash • P ≠ 0 ∧
        C.yIsOdd (sig.s • C.G-challenge C H sig.r pk hash • P) = false ∧
          C.xCoord (sig.s • C.G-challenge C H sig.r pk hash • P) = sig.r := by
  simp [Signature.verify,hP]

theorem sign_verifies {sk nonce : ZMod C.n} (hs : IsSecretKey C sk pk)
    (hnonce : nonce ≠ 0) (hl : hash.length = 32) :
    ∃ sig, sign C H sk nonce hash = .ok sig ∧ sig.r < C.p ∧ sig.verify H hash pk = true := by
  have hR : nonce • C.G ≠ 0 := smul_gen_ne hnonce
  refine ⟨⟨C.xCoord (nonce • C.G),evenScalar C nonce +
    challenge C H (C.xCoord (nonce • C.G)) pk hash*evenScalar C sk⟩,?_,C.xCoord_lt _ hR,?_⟩
  · simp only [sign,ok_iff,hs.pubKey]
    exact ⟨hl,hs.ne_zero,trivial⟩
  · have ho : (evenScalar C nonce+challenge C H (C.xCoord (nonce • C.G)) pk hash*evenScalar C sk) •
        C.G - challenge C H (C.xCoord (nonce • C.G)) pk hash • evenScalar C sk • C.G =
          evenPoint C (nonce • C.G) := by
      rw [add_smul,mul_smul,evenScalar_smul nonce]
      abel
    rw [verify_iff hs.parsePubKey,ho]
    exact ⟨hl,evenPoint_ne hR,yIsOdd_evenPoint hR,xCoord_evenPoint _⟩

theorem fromBytes_marshal (h : sig.R0 ≠ 0) :
    newAdaptorSignatureFromBytes C sig.marshal = .ok sig := by
  have hl : sig.marshal.length = 65 := by simp [AdaptorSignature.marshal]
  have hp : sig.marshal.take 33 =
      (if C.yIsOdd sig.R0 then 3 else 2) :: writeBE 32 (C.xCoord sig.R0) := by
    rw [AdaptorSignature.marshal,take_succ_cons,take_left' (length_writeBE 32 _)]
  have hs : sig.marshal.drop 33 = writeBE 32 sig.s.val := by
    rw [AdaptorSignature.marshal,drop_succ_cons,drop_left' (length_writeBE 32 _)]
  have hn : adaptorSignatureBytes sig.marshal = .ok sig.marshal := by
    simp [adaptorSignatureBytes,hl,adaptorSignatureSizeOldFormat,adaptorSignatureSize]
  simp only [newAdaptorSignatureFromBytes,ok_iff]
  refine ⟨_,hn,sig.R0,by rw [hp]; exact parseCompressed_point h,?_,?_⟩
  · rw [hs,writeBE_val_read]
    exact ZMod.val_lt sig.s
  · rw [hs,writeBE_val_read,ZMod.natCast_zmod_val]

/-- What a verified adaptor signature opens to: its point and the encryption key. -/
theorem encVerify_spec {T : C.Point} (h : sig.encVerify H pk T hash = .ok ()) :
    hash.length = 32 ∧ sig.s ≠ 0 ∧ sig.R0 ≠ 0 ∧
      ∃ P, parsePubKey C.toCurve pk = some P ∧
        T = if C.yIsOdd sig.R0 then
            sig.R0+(sig.s • C.G-challenge C H (C.xCoord sig.R0) pk hash • P)
          else sig.R0-(sig.s • C.G-challenge C H (C.xCoord sig.R0) pk hash • P) := by
  simp only [AdaptorSignature.encVerify,ok_iff,neg_smul,← sub_eq_add_neg] at h
  obtain ⟨hl,_,P,hP,hs,hR0,_,_,hT⟩ := h
  exact ⟨hl,hs,hR0,P,hP,hT.symm⟩

theorem decrypt_verifies {t : ZMod C.n} (ht : t ≠ 0)
    (h : sig.encVerify H pk (t • C.G) hash = .ok ()) :
    ∃ dec, sig.decrypt t = .ok dec ∧ dec.r < C.p ∧ dec.verify H hash pk = true := by
  obtain ⟨hl,hs,hR0,P,hP,hT⟩ := encVerify_spec h
  refine ⟨⟨C.xCoord sig.R0,if C.yIsOdd sig.R0 then sig.s+-t else sig.s+t⟩,?_,C.xCoord_lt _ hR0,?_⟩
  · simp only [AdaptorSignature.decrypt,ok_iff]
    exact ⟨⟨hs,ht⟩,trivial⟩
  · rw [verify_iff hP]
    have ho : (if C.yIsOdd sig.R0 then sig.s+-t else sig.s+t) • C.G -
        challenge C H (C.xCoord sig.R0) pk hash • P = evenPoint C sig.R0 := by
      unfold evenPoint
      cases hod : C.yIsOdd sig.R0 with
      | true =>
        rw [hod,if_pos rfl] at hT
        simp only [if_true,add_smul,neg_smul,hT]
        abel
      | false =>
        rw [hod,if_neg (by simp)] at hT
        simp only [Bool.false_eq_true,if_false,add_smul,hT]
        abel
    simp only [ho]
    exact ⟨hl,evenPoint_ne hR0,yIsOdd_evenPoint hR0,xCoord_evenPoint _⟩

theorem extract_succeeds {dec : Signature C} (hs : sig.s ≠ 0) (hd : dec.s ≠ 0) :
    ∃ t, sig.extract dec = .ok t := by
  simp only [AdaptorSignature.extract,ok_iff]
  exact ⟨_,⟨hs,hd⟩,rfl⟩

theorem extract_decrypt {dec : Signature C} {t : ZMod C.n} (h : sig.decrypt t = .ok dec)
    (hs : dec.s ≠ 0) : sig.extract dec = .ok t := by
  simp only [AdaptorSignature.decrypt,ok_iff] at h
  obtain ⟨⟨hsg,_⟩,rfl⟩ := h
  simp only [AdaptorSignature.extract,ok_iff]
  refine ⟨⟨hsg,hs⟩,?_⟩
  split <;> abel

end AnonChain.Adaptor
