import AnonChain.StakingLib.Transactions

/-! The slashing leaf on the witness of the slashing path. -/

namespace AnonChain.StakingLib

open Lib Adaptor Tapscript List

section

variable {B : Bitcoin} {valid : BIP340PubKey → Bytes → Bool} (age : Nat)

theorem run_buildMultiSigScript {keys : List BIP340PubKey} {threshold : Nat} {withVerify : Bool}
    {script : Script} (h : buildMultiSigScript B keys threshold withVerify = .ok script)
    {sigs : List (Option Bytes)} (hsg : List.Forall₂ (Signs valid) (sortKeys keys) sigs)
    (hc : present sigs = threshold) (hp : 0 < threshold) (ops : Script)
    (st : List (Elem BIP340PubKey Bytes)) :
    run valid age (script ++ ops) (sigs.map .sig ++ st) =
      run valid age ops (if withVerify then st else .num 1 :: st) := by
  simp only [buildMultiSigScript,ok_iff] at h
  obtain ⟨hn,_,h⟩ := h
  split at h
  case h_1 key _ =>
    -- one key: the only signature is there and no count is left behind
    rw [pure_eq_ok] at h
    cases hsg with
    | @cons _ s _ _ hs hr =>
      cases hr
      cases s with
      | none => simp [present] at hc; omega
      | some x =>
        have hx : valid key x = true := hs x rfl
        cases withVerify <;> simp [← h,buildSingleKeySigScript,run,step,check,hx]
  case h_2 =>
    simp only [assembleMultiSigScript,ok_iff] at h
    obtain ⟨_,rfl⟩ := h
    cases hsr : sortKeys keys with
    | nil =>
      have hl := (sortKeys_perm keys).length_eq
      simp [hsr] at hl
      exact absurd hl.symm (by simpa using hn)
    | cons k ks =>
      rw [hsr] at hsg
      cases hsg with
      | @cons _ s _ _ hs hr =>
        simp only [append_assoc,cons_append]
        rw [run_multisig (.cons hs hr),hc]
        cases withVerify <;> simp [run,step]

theorem run_slashingPath {stakerKey : BIP340PubKey} {fpKeys covenantKeys : List BIP340PubKey}
    {covenantQuorum lockTime : Nat} {paths : AnonScriptPaths}
    (h : newAnonScriptPaths B stakerKey fpKeys covenantKeys covenantQuorum lockTime = .ok paths)
    {delegatorSig : Bytes} {fpSigs covenantSigs : List (Option Bytes)}
    (hd : valid stakerKey delegatorSig = true)
    (hfp : List.Forall₂ (Signs valid) (sortKeys fpKeys) fpSigs)
    (hfc : present fpSigs = 1)
    (hco : List.Forall₂ (Signs valid) (sortKeys covenantKeys) covenantSigs)
    (hcc : present covenantSigs = covenantQuorum) (hq : 0 < covenantQuorum) :
    run valid age paths.slashingPathScript
      (.sig (some delegatorSig) :: (fpSigs.map .sig ++ covenantSigs.map .sig)) = some [.num 1] := by
  simp only [newAnonScriptPaths,ok_iff] at h
  obtain ⟨_,covScript,hcv,fpScript,hf,rfl⟩ := h
  have hc := run_buildMultiSigScript age hcv hco hcc hq [] []
  simp only [append_nil] at hc
  simp only [buildSingleKeySigScript,if_true,cons_append,nil_append]
  rw [run_checkSigVerify hd,run_buildMultiSigScript age hf hfp hfc Nat.one_pos,if_pos rfl,hc]
  rfl

end

/-- The witness lists keys in descending order, the script in ascending order. -/
theorem descending_reverse (keys : List BIP340PubKey) :
    (keys.insertionSort (fun a b => b ≤ a)).reverse = sortKeys keys := by
  have hp : (keys.insertionSort (fun a b => b ≤ a)).reverse.Perm (sortKeys keys) :=
    (reverse_perm _).trans ((perm_insertionSort _ keys).trans (sortKeys_perm keys).symm)
  have hd := pairwise_insertionSort (fun a b : BIP340PubKey => b ≤ a) keys
  have ha := pairwise_insertionSort (fun a b : BIP340PubKey => a ≤ b) keys
  exact hp.eq_of_pairwise (fun a b _ _ => le_antisymm) (pairwise_reverse.mpr hd) ha

variable {B : Bitcoin} {C : Secp256k1}

theorem serialize_ne (sig : Signature C) : sig.serialize ≠ [] := by
  intro h
  have hl := congrArg length h
  simp [Signature.serialize] at hl

def stackSig {C : Secp256k1} (s : Option (Signature C)) : Option Bytes := s.map Signature.serialize

theorem sigElem_witnessElement (s : Option (Signature C)) :
    (if witnessElement s = [] then none else some (witnessElement s)) = stackSig s := by
  cases s with
  | none => rfl
  | some _ => simp [witnessElement,stackSig,serialize_ne]

theorem initialStack_witness (si : SpendInfo) (covSigs fpSigs : List (Option (Signature B.curve)))
    (delSig : Signature B.curve) :
    initialStack (createWitness B si (covSigs.map witnessElement ++ fpSigs.map witnessElement ++
      [delSig.serialize])) = .sig (some delSig.serialize) ::
        ((fpSigs.reverse.map stackSig).map .sig ++ (covSigs.reverse.map stackSig).map .sig) := by
  have hd : ∀ l : List Bytes, (createWitness B si l).dropLast.dropLast = l := by
    simp [createWitness]
  have he : ∀ l : List (Option (Signature B.curve)),
      (l.map witnessElement).map (fun b => (.sig (if b = [] then none else some b) :
        Elem BIP340PubKey Bytes)) = (l.map stackSig).map .sig := by
    intro l
    simp only [map_map]
    exact map_congr_left fun s _ => congrArg Elem.sig (sigElem_witnessElement s)
  simp only [initialStack,hd,reverse_append,reverse_cons,reverse_nil,
    nil_append,cons_append,map_cons,serialize_ne,if_false,map_append,← map_reverse,he]

theorem signs_stackSig {hash : Bytes} {pk : BIP340PubKey} {s : Option (Signature B.curve)}
    (h : ∀ x ∈ s, x.r < B.curve.p ∧ x.verify B.hashes hash pk = true) :
    Signs (validSig B hash) pk (stackSig s) := by
  cases s with
  | none => simp [Signs,stackSig]
  | some sig =>
    obtain ⟨hr,hv⟩ := h sig rfl
    simp [Signs,stackSig,validSig,parseSignature_serialize hr,hv]

theorem present_stackSig (sigs : List (Option (Signature C))) :
    present (sigs.map stackSig) = present sigs := by
  simp [present,countP_map,stackSig,Function.comp_def]

end AnonChain.StakingLib
