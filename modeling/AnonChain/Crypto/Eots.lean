import AnonChain.Types
import AnonChain.Lib.BigEndian
import AnonChain.Lib.OneTimeKey

/-! Extractable one-time signatures over secp256k1. -/

namespace AnonChain.Eots

open Lib

structure Curve where
  Point : Type
  n : Nat
  p : Nat
  [prime : Fact n.Prime]
  [decEq : DecidableEq Point]
  [group : AddCommGroup Point]
  [scalars : Module (ZMod n) Point]
  G : Point
  xCoord : Point → Nat
  yIsOdd : Point → Bool
  /-- The point with an even y at an x coordinate. -/
  liftX : Nat → Option Point
  liftX_spec : ∀ {x : Nat} {P : Point}, liftX x = some P → P ≠ 0 ∧ xCoord P = x ∧ yIsOdd P = false
  point_ext : ∀ {P Q : Point}, P ≠ 0 → Q ≠ 0 → xCoord P = xCoord Q → yIsOdd P = yIsOdd Q → P = Q

attribute [instance] Curve.prime Curve.decEq Curve.group Curve.scalars

structure Hashes where
  sha256 : Bytes → Bytes
  taggedHashChallenge : Bytes → Bytes

section

variable (C : Curve) (H : Hashes)

def parsePubKey (b : Bytes) : Option C.Point :=
  if b.length = 32 ∧ readBE b < C.p then C.liftX (readBE b) else none

def serializePubKey (P : C.Point) : Bytes := writeBE 32 (C.xCoord P)

/-- `ModNScalar.SetByteSlice` reduces silently. -/
def toModNScalar (b : Bytes) : ZMod C.n := (readBE b : ZMod C.n)

def toFieldValNormalized (b : Bytes) : Nat := readBE b%C.p

def setBytes (b : Bytes) : Option (ZMod C.n) :=
  if readBE b < C.n then some (readBE b : ZMod C.n) else none

def challenge (r : Nat) (P : C.Point) (hash : Bytes) : Option (ZMod C.n) :=
  setBytes C (H.taggedHashChallenge (writeBE 32 r ++ serializePubKey C P ++ hash))

def verifyHash (pubKeyBytes : Bytes) (r : Nat) (hash : Bytes) (sig : ZMod C.n) : Result Unit := do
  let P ← orFail (parsePubKey C pubKeyBytes) (.errorf "invalid public key")
  let e ← orFail (challenge C H r P hash) (.errorf "hash of (r || P || m) too big")
  let R := sig • C.G+(-e) • P
  ensure (R ≠ 0) (.errorf "calculated R point is the point at infinity")
  ensure (C.yIsOdd R = false) (.errorf "calculated R y-value is odd")
  ensure (r = C.xCoord R) (.errorf "calculated R point was not given R")

def verify (P : C.Point) (r : Nat) (message : Bytes) (sig : ZMod C.n) : Result Unit :=
  verifyHash C H (serializePubKey C P) r (H.sha256 message) sig

/-- The key and the nonce are negated when their points have an odd y. -/
def signHash (sk privateRand : ZMod C.n) (hash : Bytes) : Result (ZMod C.n) := do
  ensure (sk ≠ 0) (.errorf "private key is zero")
  let P := sk • C.G
  let R := privateRand • C.G
  let e ← orFail (challenge C H (C.xCoord R) P hash) (.errorf "hash of (r || P || m) too big")
  let d := if C.yIsOdd P then -sk else sk
  let k := if C.yIsOdd R then -privateRand else privateRand
  pure (e*d+k)

def sign (sk privateRand : ZMod C.n) (message : Bytes) : Result (ZMod C.n) :=
  signHash C H sk privateRand (H.sha256 message)

def extractFromHashes (P : C.Point) (r : Nat) (hash₁ : Bytes) (sig₁ : ZMod C.n) (hash₂ : Bytes)
    (sig₂ : ZMod C.n) : Result (ZMod C.n) := do
  ensure (sig₁ ≠ sig₂) (.errorf "The two signatures need to be different in order to extract")
  let e₁ ← orFail (challenge C H r P hash₁) (.errorf "hash of (r || P || m1) too big")
  let e₂ ← orFail (challenge C H r P hash₂) (.errorf "hash of (r || P || m2) too big")
  let x := (sig₁+-sig₂)*(e₁+-e₂)⁻¹
  let x := if C.yIsOdd P then -x else x
  ensure (x • C.G = P) (.errorf "Extracted private key does not match public key")
  pure x

def extract (P : C.Point) (r : Nat) (message₁ : Bytes) (sig₁ : ZMod C.n) (message₂ : Bytes)
    (sig₂ : ZMod C.n) : Result (ZMod C.n) :=
  extractFromHashes C H P r (H.sha256 message₁) sig₁ (H.sha256 message₂) sig₂

end

variable {C : Curve} {H : Hashes}

theorem parsePubKey_spec {b : Bytes} {P : C.Point} (h : parsePubKey C b = some P) :
    P ≠ 0 ∧ C.yIsOdd P = false ∧ serializePubKey C P = b := by
  unfold parsePubKey at h
  split at h
  case isTrue hb =>
    obtain ⟨hn,hx,hy⟩ := C.liftX_spec h
    refine ⟨hn,hy,?_⟩
    rw [serializePubKey,hx]
    exact writeBE_readBE hb.1
  case isFalse => simp at h

theorem verify_spec {b : Bytes} {P : C.Point} {r : Nat} {m : Bytes} {s : ZMod C.n}
    (hP : parsePubKey C b = some P) (h : verify C H P r m s = .ok ()) :
    ∃ e, challenge C H r P (H.sha256 m) = some e ∧ s • C.G-e • P ≠ 0 ∧
      C.yIsOdd (s • C.G-e • P) = false ∧ C.xCoord (s • C.G-e • P) = r := by
  have hb := (parsePubKey_spec hP).2.2
  simp only [verify,verifyHash,hb,hP,ok_iff,Option.some.injEq] at h
  obtain ⟨P',rfl,e,he,h0,ho,hx⟩ := h
  rw [neg_smul,← sub_eq_add_neg] at h0 ho hx
  exact ⟨e,he,h0,ho,hx.symm⟩

theorem extract_of_verify {b : Bytes} {P : C.Point} {r : Nat} {m₁ m₂ : Bytes} {s₁ s₂ : ZMod C.n}
    (hP : parsePubKey C b = some P) (h₁ : verify C H P r m₁ s₁ = .ok ())
    (h₂ : verify C H P r m₂ s₂ = .ok ())
    (hn : challenge C H r P (H.sha256 m₁) ≠ challenge C H r P (H.sha256 m₂)) :
    ∃ x, extract C H P r m₁ s₁ m₂ s₂ = .ok x ∧ x • C.G = P ∧ serializePubKey C (x • C.G) = b := by
  obtain ⟨hP0,hPodd,hb⟩ := parsePubKey_spec hP
  obtain ⟨e₁,he₁,hR₁,ho₁,hx₁⟩ := verify_spec hP h₁
  obtain ⟨e₂,he₂,hR₂,ho₂,hx₂⟩ := verify_spec hP h₂
  have hR := C.point_ext hR₁ hR₂ (hx₁.trans hx₂.symm) (ho₁.trans ho₂.symm)
  have he : e₁ ≠ e₂ := by
    intro he
    exact hn (by rw [he₁,he₂,he])
  have hs := responses_ne hP0 he hR
  have hx := extracted_key he hR
  refine ⟨(s₁-s₂)*(e₁-e₂)⁻¹,?_,hx,?_⟩
  · simp only [extract,extractFromHashes,ok_iff]
    refine ⟨hs,e₁,he₁,e₂,he₂,?_⟩
    simp only [hPodd,Bool.false_eq_true,if_false,← sub_eq_add_neg]
    exact ⟨hx,trivial⟩
  · rw [hx,hb]

end AnonChain.Eots
