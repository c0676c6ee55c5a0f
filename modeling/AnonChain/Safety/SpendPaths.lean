import AnonChain.BtcStaking.Regtest

/-! Who has to sign to spend an output of a delegation, whatever the witness. -/

namespace AnonChain.StakingLib

open Lib BtcLightClient Tapscript List

variable {B : Bitcoin} {age : Nat}

theorem run_buildMultiSigScript_inv {valid : BIP340PubKey → Bytes → Bool}
    {signed : BIP340PubKey → Prop}
    {keys : List BIP340PubKey} {threshold : Nat} {withVerify : Bool}
    {script : Script} (ops : Script)
    {st r : List (Elem BIP340PubKey Bytes)}
    (h : buildMultiSigScript B keys threshold withVerify = .ok script)
    (hw : Witnesses valid signed st) (hr : run valid age (script ++ ops) st = some r) :
    ∃ st' b, Witnesses valid signed st' ∧
      run valid age ops (if withVerify then st' else .num b :: st') = some r ∧
      (withVerify = true ∨ b ≠ 0 → Signers signed (sortKeys keys) threshold) := by
  simp only [buildMultiSigScript,ok_iff] at h
  obtain ⟨hn,ht,h⟩ := h
  split at h
  case h_1 key =>
    cases h
    have hq : signed key → Signers signed [key] threshold :=
      fun hk => ⟨[key],.refl _,ht,by simpa using hk⟩
    cases withVerify with
    | true =>
      obtain ⟨hk,st',hs,hr⟩ := run_checkSigVerify_inv hw hr
      exact ⟨st',0,hs,hr,fun _ => hq hk⟩
    | false =>
      obtain ⟨l,st',hl,hk,hs,hr⟩ := run_addOps_inv [key] hw ((run_checkSig_add st).symm.trans hr)
      refine ⟨st',0+l.length,hs,hr,fun hb => hq (hk key ?_)⟩
      rcases sublist_singleton.mp hl with rfl | rfl <;> simp_all
  case h_2 =>
    simp only [assembleMultiSigScript,ok_iff] at h
    obtain ⟨_,rfl⟩ := h
    cases hsr : sortKeys keys with
    | nil => exact absurd (hsr ▸ sortKeys_perm keys).symm.eq_nil hn
    | cons k ks =>
      rw [hsr,append_assoc,cons_append,cons_append,run_checkSig_add] at hr
      obtain ⟨l,st',hl,hk,hs,hr⟩ := run_addOps_inv (k :: ks) hw hr
      by_cases he : threshold = l.length <;> cases withVerify <;> simp [run,step,he] at hr
      · exact ⟨st',1,hs,hr,fun _ => ⟨l,hl,he.le,hk⟩⟩
      · exact ⟨st',0,hs,hr,fun _ => ⟨l,hl,he.le,hk⟩⟩
      · exact ⟨st',0,hs,hr,by simp⟩

/-- The annex of an input: the last element of its witness, if there are two and it starts with the
byte reserved for it. -/
def annex (witness : List Bytes) : Option Bytes :=
  if 2 ≤ witness.length then witness.getLast?.filter (fun b => b.head?.map Fin.val =
    some 0x50) else none

def withoutAnnex (witness : List Bytes) : List Bytes :=
  if (annex witness).isSome then witness.dropLast else witness

/-- The signature hash of a hash type, which covers the annex as well. There is none for an unknown
type, nor for an output that does not exist. The staking library signs with the default type. -/
structure SigHashes (B : Bitcoin) where
  hash : Nat → Option Bytes → MsgTx → Nat → List TxOut → Script → Option Bytes
  hash_default : ∀ tx idx prevOuts leaf, hash 0 none tx idx prevOuts leaf =
    some (B.tapscriptSigHash tx idx prevOuts leaf)

/-- An input of a transaction, with the outputs that all its inputs spend. -/
structure Spend where
  tx : MsgTx
  idx : Nat
  input : TxIn
  input_eq : tx.txIn[idx]? = some input
  prevOuts : List TxOut
  prevOuts_length : prevOuts.length = tx.txIn.length

/-- A signature is followed by its hash type, unless that is the default one. -/
def hashType (sig : Bytes) : Option (Nat × Bytes) :=
  if sig.length ≤ 64 then some (0,sig)
  else sig.getLast?.bind (fun t => if t.val = 0 then none else some (t.val,sig.dropLast))

variable (H : SigHashes B)

def Spend.validSig (sp : Spend) (leaf : Script) (pk : BIP340PubKey) (sig : Bytes) : Bool :=
  (hashType sig).any (fun e =>
    (H.hash e.1 (annex sp.input.witness) (withoutWitness sp.tx) sp.idx sp.prevOuts leaf).any
      (fun hash => StakingLib.validSig B hash pk e.2))

/-- The rules of a script spend, but for the limits on its size. -/
def Spend.accepted (sp : Spend) (leaf : Script) (age : Nat) : Bool :=
  Tapscript.succeeds (sp.validSig H leaf) age leaf (initialStack (withoutAnnex sp.input.witness))

/-- The witness has a signature of the key for this spend. -/
def Spend.SignedBy (sp : Spend) (leaf : Script) (k : BIP340PubKey) : Prop :=
  ∃ sig ∈ sp.input.witness, sp.validSig H leaf k sig = true

variable {H} {sp : Spend} {leaf : Script}

theorem withoutAnnex_subset (witness : List Bytes) : withoutAnnex witness ⊆ witness := by
  unfold withoutAnnex
  split
  · exact dropLast_subset _
  · exact Subset.refl _

theorem Spend.witnesses (sp : Spend) : Witnesses (sp.validSig H leaf) (sp.SignedBy H leaf)
    (initialStack (withoutAnnex sp.input.witness)) := by
  intro sig hm k hv
  obtain ⟨b,hb,he⟩ := mem_map.mp hm
  split at he <;> cases he
  exact ⟨sig,withoutAnnex_subset _ (dropLast_subset _ (dropLast_subset _ (mem_reverse.mp hb))),hv⟩

theorem hashType_of_validSig {hash sig : Bytes} {pk : BIP340PubKey}
    (h : validSig B hash pk sig = true) : hashType sig = some (0,sig) := by
  unfold validSig at h
  split at h
  case h_1 => cases h
  case h_2 s hs =>
    have hl : sig.length = 64 := by
      rw [← Adaptor.serialize_of_parse hs]
      simp [Adaptor.Signature.serialize]
    rw [hashType,if_pos hl.le]

/-- What a leaf accepts from the only input of a transaction is a spend under the general rules. -/
theorem Spend.accepted_of_leafAccepts {out : TxOut} (ho : sp.prevOuts = [out])
    (hx : annex sp.input.witness = none) (h : leafAccepts B sp.tx out leaf age = true) :
    sp.accepted H leaf age = true := by
  unfold leafAccepts at h
  split at h
  case h_2 => cases h
  case h_1 i hi =>
    have hin := sp.input_eq
    rw [hi,getElem?_singleton] at hin
    split at hin <;> cases hin
    have hv : ∀ k s, StakingLib.validSig B (calcTapscriptSignaturehash B sp.tx 0 [out] leaf) k s =
        true → sp.validSig H leaf k s = true := by
      intro k s hs
      simp_all [Spend.validSig,hashType_of_validSig hs,H.hash_default,calcTapscriptSignaturehash]
    unfold Tapscript.succeeds at h
    split at h
    case h_2 => cases h
    case h_1 n hr =>
      rw [Spend.accepted,Tapscript.succeeds,withoutAnnex,hx]
      simp [run_mono hv hr,h]

/-- An output of a delegation is spent with the signature of the staker, and before its time lock
ends with those of a covenant quorum; to slash it, one of its finality providers signs as well. -/
theorem spend_authorized {stakerKey : BIP340PubKey} {fpKeys covenantKeys : List BIP340PubKey}
    {covenantQuorum lockTime : Nat} {paths : AnonScriptPaths}
    (h : newAnonScriptPaths B stakerKey fpKeys covenantKeys covenantQuorum lockTime = .ok paths)
    (hl : leaf ∈ paths.stakingLeaves) (ha : sp.accepted H leaf age = true) :
    sp.SignedBy H leaf stakerKey ∧ (leaf = paths.timeLockPathScript ∧ lockTime ≤ age ∨
      Signers (sp.SignedBy H leaf) (sortKeys covenantKeys) covenantQuorum ∧
        (leaf = paths.unbondingPathScript ∨
          leaf = paths.slashingPathScript ∧ Signers (sp.SignedBy H leaf) (sortKeys fpKeys) 1)) := by
  have hw : Witnesses _ (sp.SignedBy H leaf) _ := sp.witnesses
  unfold Spend.accepted Tapscript.succeeds at ha
  split at ha
  case h_2 => cases ha
  case h_1 n hr =>
    simp only [newAnonScriptPaths,ok_iff] at h
    obtain ⟨_,cov,hcv,fps,hfp,rfl⟩ := h
    simp only [AnonScriptPaths.stakingLeaves,mem_cons,not_mem_nil,or_false] at hl
    rcases hl with rfl | rfl | rfl <;> obtain ⟨hk,st,hs,hr⟩ := run_checkSigVerify_inv hw hr
    · by_cases ht : lockTime ≤ age <;> simp [run,step,ht] at hr
      exact ⟨hk,.inl ⟨rfl,ht⟩⟩
    · obtain ⟨st',b,-,hr,hq⟩ := run_buildMultiSigScript_inv [] hcv hs (by simpa using hr)
      cases hr
      exact ⟨hk,.inr ⟨hq (.inr (by simpa using ha)),.inl rfl⟩⟩
    · obtain ⟨st₁,_,hs₁,hr,hf⟩ := run_buildMultiSigScript_inv cov hfp hs hr
      obtain ⟨st',b,-,hr,hq⟩ := run_buildMultiSigScript_inv [] hcv hs₁ (by simpa using hr)
      cases hr
      exact ⟨hk,.inr ⟨hq (.inr (by simpa using ha)),.inr ⟨rfl,hf (.inl rfl)⟩⟩⟩

section

open Regtest

def SigHashes.constant : SigHashes bitcoin := ⟨fun _ _ _ _ _ _ => some (bytes 3),fun _ _ _ _ => rfl⟩

def signed (sk : ZMod 11) : Bytes := sigOf (signHash bitcoin (bytes 3) sk)

/-- The second input, with an annex; the signature of the staker names its hash type. -/
def Spend.second : Spend where
  tx := ⟨[⟨⟨[],0⟩,[]⟩,⟨⟨[],1⟩,[signed 5,signed 4,signed 1 ++ [1],[],[],[80]]⟩],[],0⟩
  idx := 1
  input := ⟨⟨[],1⟩,[signed 5,signed 4,signed 1 ++ [1],[],[],[80]]⟩
  input_eq := rfl
  prevOuts := [⟨7,[]⟩,⟨9,[]⟩]
  prevOuts_length := rfl

/-- The staker and both members of the committee sign. -/
theorem spend_authorized_unbonding : ∃ paths : AnonScriptPaths,
    Spend.second.accepted .constant paths.unbondingPathScript 0 = true ∧
    Signers (Spend.second.SignedBy .constant paths.unbondingPathScript)
      (sortKeys [bytes 4,bytes 5]) 2 := by
  have hrn : (newAnonScriptPaths bitcoin (bytes 1) [bytes 2] [bytes 4,bytes 5] 2 50 >>=
      fun paths => ensure
      (Spend.second.accepted .constant paths.unbondingPathScript 0 = true)
      (.errorf "")).isOk = true := by
    decide +kernel
  obtain ⟨_,hr⟩ := isOk_iff.mp hrn
  simp only [ok_iff] at hr
  obtain ⟨paths,hp,ha⟩ := hr
  have hs := spend_authorized hp (by simp [AnonScriptPaths.stakingLeaves]) ha
  exact ⟨paths,ha,(hs.2.resolve_left (by simp)).1⟩

end

end AnonChain.StakingLib
