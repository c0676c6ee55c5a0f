import AnonChain.AtomicSlasher
import AnonChain.BtcStaking.Regtest

/-! The witness follows the order of the keys; the parser reads it against the lists as stored. -/

namespace AnonChain

open Lib BtcLightClient StakingLib Adaptor BtcStaking AtomicSlasher Tapscript List Regtest
open CovenantAdaptorSignatures (covPk)

section

variable {B : Bitcoin} {sigs : List (Option (AdaptorSignature B.curve))}

theorem decryptCovenantSigs_get {decKey : ZMod B.curve.n} {covenantQuorum numSigs total : Nat}
    {dec : List (Option (Signature B.curve))}
    (h : decryptCovenantSigs B decKey covenantQuorum numSigs sigs = .ok (dec,total))
    (hl : numSigs < covenantQuorum) (i : Nat) (x : Signature B.curve) :
    dec[i]? = some (some x) ↔ ∃ sig, sigs[i]? = some (some sig) ∧ sig.decrypt decKey = .ok x ∧
      numSigs+present (sigs.take i) < covenantQuorum := by
  induction sigs generalizing numSigs dec i with
  | nil =>
    rw [decryptCovenantSigs,Except.ok.injEq,Prod.mk.injEq] at h
    simp [← h.1]
  | cons s sigs ih =>
    cases s with
    | none =>
      rw [decryptCovenantSigs,if_neg (Nat.ne_of_lt hl)] at h
      simp only [ok_iff,Prod.exists,Prod.mk.injEq] at h
      obtain ⟨rest,total',hr,rfl,rfl⟩ := h
      cases i with
      | zero => simp
      | succ i => simpa [present_cons] using ih hr hl i
    | some _ =>
      simp only [decryptCovenantSigs,ok_iff] at h
      obtain ⟨y,hy,h⟩ := h
      split at h
      case isTrue hq =>
        obtain ⟨rfl,rfl⟩ := h
        cases i with
        | zero => simp [hy,present,hl]
        | succ i =>
          have hf : ¬ numSigs+(1+present (sigs.take i)) < covenantQuorum := by omega
          simp [present_cons,hf,getElem?_replicate]
      case isFalse hq =>
        simp only [ok_iff,Prod.exists,Prod.mk.injEq] at h
        obtain ⟨rest,total',hr,rfl,rfl⟩ := h
        cases i with
        | zero => simp [hy,present,hl]
        | succ i =>
          have hi := ih hr (by omega) i
          simpa [present_cons,Nat.add_assoc,Nat.add_comm 1] using hi

theorem getOrderedCovenantSignatures_get {p : Params} {fpIdx : Nat}
    {covSigs : List CovenantAdaptorSignatures}
    (h : getOrderedCovenantSignatures B fpIdx covSigs p = .ok sigs)
    (distinct : (covSigs.map covPk).Nodup) (i : Nat) :
    (∀ sig, sigs[i]? = some (some sig) ↔ ∃ c ∈ covSigs,
      (sortBIP340PKs p.covenantPks)[i]? = some c.covPk ∧ covSigAt B fpIdx c = .ok sig) ∧
    present (sigs.take i) = ((sortBIP340PKs p.covenantPks).take i).countP
      (fun pk => pk ∈ covSigs.map covPk) := by
  rw [getOrderedCovenantSignatures,bind_eq_ok] at h
  obtain ⟨m,hm,h⟩ := h
  rw [pure_eq_ok] at h
  subst h
  constructor
  · intro sig
    simp only [getElem?_map,Option.map_eq_some_iff,collect_get_iff hm distinct]
    constructor
    · rintro ⟨pk,hp,c,hc,rfl,hs⟩
      exact ⟨c,hc,hp,hs⟩
    · rintro ⟨c,hc,hp,hs⟩
      exact ⟨c.covPk,hp,c,hc,rfl,hs⟩
  · rw [← map_take,present,countP_map]
    refine countP_congr fun pk _ => ?_
    simp only [Function.comp_apply,decide_eq_true_eq,mem_map]
    constructor
    · intro hsm
      obtain ⟨sig,hs⟩ := Option.isSome_iff_exists.mp hsm
      obtain ⟨c,hc,hk,_⟩ := collect_get hm hs
      exact ⟨c,hc,hk⟩
    · rintro ⟨c,hc,rfl⟩
      exact collect_isSome hm hc

end

section

variable {B : Bitcoin}

theorem witnessElement_ne {C : Secp256k1} {s : Option (Signature C)} :
    witnessElement s ≠ [] ↔ ∃ x, s = some x := by
  cases s with
  | none => simp [witnessElement]
  | some x => simp [witnessElement,serialize_ne]

theorem findIdx_set {C : Secp256k1} {fps : List BIP340PubKey} {idx : Nat} (x : Signature C)
    (h : idx < fps.length) :
    (((fps.map fun _ => none).set idx (some x)).map witnessElement).findIdx? (fun b => b ≠ []) =
      some idx := by
  induction fps generalizing idx with
  | nil => simp at h
  | cons fp _ ih =>
    cases idx with
    | zero => simp [findIdx?_cons,witnessElement,serialize_ne]
    | succ _ =>
      have hr := ih (by simpa using h)
      simp only [map_cons,set_cons_succ,findIdx?_cons,witnessElement]
      rw [hr]
      rfl

theorem covenant_collected {covPKs : List BIP340PubKey} {sigs : List (Option (Signature B.curve))}
    (hl : sigs.length = covPKs.length) (hn : covPKs.Nodup)
    (hv : ∀ x, some x ∈ sigs → x.r < B.curve.p) :
    ∃ m, collect Prod.fst (fun x => newBIP340Signature B x.2)
        ((covPKs.zip (sigs.map witnessElement)).filter (fun x => x.2 ≠ [])) = .ok m ∧
      ∀ pk b, m.get pk = some b ↔
        ∃ (i : Nat) (x : Signature B.curve), covPKs[i]? = some pk ∧ sigs[i]? = some (some x) ∧
        b = x.serialize := by
  have hmm : ∀ pk b, (pk,b) ∈ (covPKs.zip (sigs.map witnessElement)).filter (fun x => x.2 ≠ []) ↔
      ∃ (i : Nat) (x : Signature B.curve), covPKs[i]? = some pk ∧ sigs[i]? = some (some x) ∧
      b = x.serialize := by
    intro pk b
    rw [mem_filter,mem_iff_getElem?]
    simp only [decide_eq_true_eq,getElem?_zip_eq_some,getElem?_map,Option.map_eq_some_iff]
    constructor
    · rintro ⟨⟨i,hp,s,hs,rfl⟩,hne⟩
      obtain ⟨x,rfl⟩ := witnessElement_ne.mp hne
      exact ⟨i,x,hp,hs,rfl⟩
    · rintro ⟨i,x,hp,hs,hb⟩
      exact ⟨⟨i,hp,some x,hs,hb.symm⟩,hb ▸ serialize_ne x⟩
  have hrd : ∀ pk b, (pk,b) ∈ (covPKs.zip (sigs.map witnessElement)).filter (fun x => x.2 ≠ []) →
      newBIP340Signature B b = .ok b := by
    intro pk b hb
    obtain ⟨i,x,_,hs,hx⟩ := (hmm pk b).mp hb
    rw [hx]
    have hr := hv x (mem_of_getElem? hs)
    simp only [newBIP340Signature,ok_iff,parseSignature_serialize hr]
    exact ⟨rfl,trivial⟩
  have hk : (((covPKs.zip (sigs.map witnessElement)).filter (fun x => x.2 ≠ [])).map
      Prod.fst).Nodup := by
    refine hn.sublist ((filter_sublist.map Prod.fst).trans ?_)
    rw [map_fst_zip (by simp [hl])]
  have hvl : ∀ a ∈ (covPKs.zip (sigs.map witnessElement)).filter (fun x => x.2 ≠ []),
      ∃ v, newBIP340Signature B a.2 = .ok v := fun a ha => ⟨a.2,hrd a.1 a.2 ha⟩
  obtain ⟨m,hm⟩ := collect_succeeds Prod.fst hvl
  refine ⟨m,hm,?_⟩
  intro pk b
  rw [collect_get_iff hm hk,← hmm]
  constructor
  · rintro ⟨⟨pk',b'⟩,ha,rfl,hb⟩
    have hva := hrd pk' b' ha
    rw [hb,Except.ok.injEq] at hva
    exact hva ▸ ha
  · intro hb
    exact ⟨(pk,b),hb,rfl,hrd pk b hb⟩

theorem parse_completed {p : Params} {d : BTCDelegation}
    {covSigs : List CovenantAdaptorSignatures} {hash : Bytes} {fp : BIP340PubKey}
    {sk : ZMod B.curve.n}
    (w : CompletedWitness B p d covSigs hash fp sk) (hn : p.covenantPks.Nodup) (si : SpendInfo) :
    ∃ m, parseSlashingTxWitness B (createWitness B si w.signatures) p.covenantPks d.fpBtcPkList =
        .ok ⟨m,w.fpIdxInWitness,d.fpBtcPkList[w.fpIdxInWitness]?⟩ ∧
      ∀ pk b, m.get pk = some b ↔ ∃ (i : Nat) (x : Signature B.curve),
        p.covenantPks[i]? = some pk ∧ w.covenantSigs[i]? = some (some x) ∧ b = x.serialize := by
  have hc : (w.covenantSigs.map witnessElement).length = (sortBIP340PKs p.covenantPks).length := by
    rw [length_map,w.covenantValid.length_eq]
  have hf : (w.fpSigs.map witnessElement).length = (sortBIP340PKs d.fpBtcPkList).length := by
    rw [length_map,w.fpSigs_spec.1.length_eq]
  have hln : w.covenantSigs.length = p.covenantPks.length := by
    rw [← w.covenantValid.length_eq,(sortBIP340PKs_perm _).length_eq]
  have hv : ∀ x, some x ∈ w.covenantSigs → x.r < B.curve.p := by
    intro x hx
    obtain ⟨i,hi⟩ := mem_iff_getElem?.mp hx
    obtain ⟨hl,hg⟩ := List.getElem?_eq_some_iff.mp hi
    have hd := List.Forall₂.get w.covenantValid (w.covenantValid.length_eq ▸ hl) hl
    exact (hd x hg).1
  have hid : w.fpIdxInWitness < d.fpBtcPkList.length := by
    obtain ⟨hl,_⟩ := List.getElem?_eq_some_iff.mp w.fpAtWitness
    rwa [(sortBIP340PKs_perm _).length_eq] at hl
  obtain ⟨m,hm,hg⟩ := covenant_collected hln hn hv
  refine ⟨m,?_,hg⟩
  have hs : createWitness B si w.signatures = w.covenantSigs.map witnessElement ++
      (w.fpSigs.map witnessElement ++ ([w.delegatorSig.serialize] ++
        [B.scriptBytes si.revealedLeaf,si.controlBlock])) := by
    simp only [createWitness,CompletedWitness.signatures,append_assoc]
  have ht : (createWitness B si w.signatures).take (sortBIP340PKs p.covenantPks).length =
      w.covenantSigs.map witnessElement := by rw [hs,take_left' hc]
  have hdr : ((createWitness B si w.signatures).drop (sortBIP340PKs p.covenantPks).length).take
      (sortBIP340PKs d.fpBtcPkList).length = w.fpSigs.map witnessElement := by
    rw [hs,drop_left' hc,take_left' hf]
  have ha : (sortBIP340PKs p.covenantPks).length+(sortBIP340PKs d.fpBtcPkList).length ≤
      (createWitness B si w.signatures).length := by
    rw [hs,length_append,length_append,hc,hf]
    omega
  simp only [parseSlashingTxWitness,ht,hdr,ok_iff]
  refine ⟨by omega,m,hm,ha,?_⟩
  rw [CompletedWitness.fpSigs,findIdx_set w.fpSig hid]
  rfl

/-- What the signature `b` in the witness and the stored one of a member reveal. -/
def Reveals (B : Bitcoin) (fpIdx : Nat) (c : CovenantAdaptorSignatures) (b : Bytes)
    (y : ZMod B.curve.n) : Prop :=
  ∃ x sig, parseSignature B.curve b = some x ∧ covSigAt B fpIdx c = .ok sig ∧ sig.extract x = .ok y

variable {covSigMap : KVStore BIP340PubKey Bytes} {fpIdx : Nat} {pk : BIP340PubKey}
  {covSigs : List CovenantAdaptorSignatures} {c : CovenantAdaptorSignatures}

theorem Reveals.unique {b : Bytes} {y z : ZMod B.curve.n}
    (hy : Reveals B fpIdx c b y) (hz : Reveals B fpIdx c b z) : y = z := by
  obtain ⟨x,sig,hx,hs,he⟩ := hy
  obtain ⟨x',sig',hx',hs',he'⟩ := hz
  rw [hx,Option.some.injEq] at hx'
  rw [hs,Except.ok.injEq] at hs'
  subst hx' hs'
  rw [he,Except.ok.injEq] at he'
  exact he'

theorem tryExtractFPSK_cons {b : Bytes} {y : ZMod B.curve.n}
    (hg : covSigMap.get c.covPk = some b) (h : Reveals B fpIdx c b y) :
    tryExtractFPSK B covSigMap fpIdx (some pk) (c :: covSigs) =
      if pk = pubKeyOf B y then .ok y else tryExtractFPSK B covSigMap fpIdx (some pk) covSigs := by
  obtain ⟨x,sig,hx,hs,he⟩ := h
  simp only [covSigAt,ok_iff] at hs
  obtain ⟨bytes,hb,hs⟩ := hs
  simp only [tryExtractFPSK,hg,hx,hb,hs,he,orFail,ok_bind]
  rfl

theorem tryExtractFPSK_pubKey {sk : ZMod B.curve.n}
    (h : tryExtractFPSK B covSigMap fpIdx (some pk) covSigs = .ok sk) : pubKeyOf B sk = pk := by
  induction covSigs with
  | nil => cases h
  | cons c cs ih =>
    rw [tryExtractFPSK] at h
    split at h
    case h_1 => exact ih h
    case h_2 =>
      simp only [ok_iff,Option.some.injEq] at h
      obtain ⟨_,_,_,_,_,_,y,_,_,rfl,h⟩ := h
      split at h
      case isTrue hy =>
        rw [pure_eq_ok] at h
        rw [← h,hy]
      case isFalse => exact ih h

/-- When a member reveals either the key or one of another provider, the loop finds the key
exactly if some member reveals it. -/
theorem tryExtractFPSK_iff {key : ZMod B.curve.n} (hk : pubKeyOf B key = pk)
    (ha : ∀ c ∈ covSigs, ∀ b, covSigMap.get c.covPk = some b →
      ∃ y, Reveals B fpIdx c b y ∧ (y = key ∨ pubKeyOf B y ≠ pk)) :
    tryExtractFPSK B covSigMap fpIdx (some pk) covSigs = .ok key ↔
      ∃ c ∈ covSigs, ∃ b, covSigMap.get c.covPk = some b ∧ Reveals B fpIdx c b key := by
  induction covSigs with
  | nil => simp [tryExtractFPSK]
  | cons c cs ih =>
    have hr := ih fun c' hc' => ha c' (mem_cons_of_mem c hc')
    simp only [exists_mem_cons_iff]
    cases hg : covSigMap.get c.covPk with
    | none => simp only [tryExtractFPSK,hg,hr,reduceCtorEq,false_and,exists_false,false_or]
    | some b =>
      obtain ⟨y,hy,ho⟩ := ha c mem_cons_self b hg
      rw [tryExtractFPSK_cons hg hy]
      cases ho with
      | inl he =>
        subst he
        rw [if_pos hk.symm]
        exact ⟨fun _ => .inl ⟨b,rfl,hy⟩,fun _ => rfl⟩
      | inr hn =>
        rw [if_neg (Ne.symm hn),hr]
        refine ⟨.inr,?_⟩
        rintro (⟨b',hb',hk'⟩ | hcs)
        · rw [Option.some.injEq] at hb'
          subst hb'
          exact absurd (hy.unique hk' ▸ hk) hn
        · exact hcs

end

/-- Extraction is right on matching signatures only: no decrypted signature is zero, and the
signature of one member with that of another does not give a key of the provider. -/
structure ExtractsOnlyMatching (B : Bitcoin) (fps : List BIP340PubKey)
    (covSigs : List CovenantAdaptorSignatures) (fp : BIP340PubKey) (sk : ZMod B.curve.n) :
    Prop where
  nonzero : ∀ fpIdx, fps[fpIdx]? = some fp → ∀ c ∈ covSigs, ∀ sig x, covSigAt B fpIdx c = .ok sig →
    sig.decrypt (evenScalar B.curve sk) = .ok x → x.s ≠ 0
  others : ∀ fpIdx, fps[fpIdx]? = some fp → ∀ c ∈ covSigs, ∀ c' ∈ covSigs, c.covPk ≠ c'.covPk →
    ∀ sig sig' x y, covSigAt B fpIdx c = .ok sig → covSigAt B fpIdx c' = .ok sig' →
      sig'.decrypt (evenScalar B.curve sk) = .ok x → sig.extract x = .ok y → pubKeyOf B y ≠ fp

/-- The provider stands in the delegation where it stands in descending order, and so does, in
the parameters, some member whose signature the witness takes. -/
structure KeysInPlace (p : Params) (d : BTCDelegation) (fp : BIP340PubKey) : Prop where
  provider : ∃ i : Nat, d.fpBtcPkList[i]? = some fp ∧ (sortBIP340PKs d.fpBtcPkList)[i]? = some fp
  member : ∃ (i : Nat) (pk : BIP340PubKey), p.covenantPks[i]? = some pk ∧
    (sortBIP340PKs p.covenantPks)[i]? = some pk ∧
    pk ∈ d.covenantSigs.map covPk ∧
    ((sortBIP340PKs p.covenantPks).take i).countP
      (fun pk => pk ∈ d.covenantSigs.map covPk) < p.covenantQuorum

def extractsOnlyMatching (B : Bitcoin) [DecidableEq (ZMod B.curve.n)] (fps : List BIP340PubKey)
    (covSigs : List CovenantAdaptorSignatures) (fp : BIP340PubKey) (sk : ZMod B.curve.n) : Bool :=
  (List.range fps.length).all fun i => fps[i]? ≠ some fp || covSigs.all fun c' =>
    match covSigAt B i c' with
    | .error _ => true
    | .ok sig' =>
      match sig'.decrypt (evenScalar B.curve sk) with
      | .error _ => true
      | .ok x => x.s ≠ 0 && covSigs.all fun c => c.covPk = c'.covPk ||
          match covSigAt B i c with
          | .error _ => true
          | .ok sig =>
            match sig.extract x with
            | .error _ => true
            | .ok y => pubKeyOf B y ≠ fp

theorem extractsOnlyMatching_spec {B : Bitcoin} [DecidableEq (ZMod B.curve.n)]
    {fps : List BIP340PubKey}
    {covSigs : List CovenantAdaptorSignatures} {fp : BIP340PubKey} {sk : ZMod B.curve.n}
    (h : extractsOnlyMatching B fps covSigs fp sk = true) :
    ExtractsOnlyMatching B fps covSigs fp sk := by
  have hp : ∀ i, fps[i]? = some fp → ∀ c' ∈ covSigs, ∀ sig' x, covSigAt B i c' = .ok sig' →
      sig'.decrypt (evenScalar B.curve sk) = .ok x → x.s ≠ 0 ∧ ∀ c ∈ covSigs, c.covPk ≠ c'.covPk →
        ∀ sig y, covSigAt B i c = .ok sig → sig.extract x = .ok y → pubKeyOf B y ≠ fp := by
    intro i hi c' hc' sig' x hs' hx
    obtain ⟨hlt,_⟩ := List.getElem?_eq_some_iff.mp hi
    simp only [extractsOnlyMatching,List.all_eq_true,List.mem_range] at h
    have hm := h i hlt
    simp only [hi,ne_eq,not_true,decide_false,Bool.false_or,List.all_eq_true] at hm
    have hx' := hm c' hc'
    simp only [hs',hx,Bool.and_eq_true,decide_eq_true_eq,List.all_eq_true,Bool.or_eq_true] at hx'
    refine ⟨hx'.1,?_⟩
    intro c hc hn sig y hs hy
    have hl := (hx'.2 c hc).resolve_left hn
    simpa only [hs,hy,decide_eq_true_eq] using hl
  exact ⟨fun i hi c hc sig x hs hx => (hp i hi c hc sig x hs hx).1,
    fun i hi c hc c' hc' hn sig sig' x y hs hs' hx hy =>
      (hp i hi c' hc' sig' x hs' hx).2 c hc hn sig y hs hy⟩

section

variable {B : Bitcoin} {p : Params} {d : BTCDelegation} {info : OutputInfo}
  {fundingTx slashingTx : MsgTx}
  {outputIdx : Nat} {delegatorSig : Bytes} {covSigs : List CovenantAdaptorSignatures}
  {fp : BIP340PubKey} {sk : ZMod B.curve.n}

theorem keys_nodup (h : Slashable B p d info fundingTx outputIdx slashingTx delegatorSig covSigs) :
    d.fpBtcPkList.Nodup ∧ p.covenantPks.Nodup := by
  obtain ⟨_,hp⟩ := h.paths
  simp only [newAnonScriptPaths,ok_iff] at hp
  have ha := (nodup_cons.mp hp.1).2
  exact ⟨ha.of_append_left,ha.of_append_right⟩

/-- Under the key of a member the witness holds the decrypted signature of the member at the same
position of the descending order. -/
theorem completed_place {hash : Bytes}
    (w : CompletedWitness B p d covSigs hash fp sk) (hp : 0 < p.covenantQuorum)
    (distinct : (covSigs.map covPk).Nodup) (i : Nat) (x : Signature B.curve) :
    w.covenantSigs[i]? = some (some x) ↔ ∃ c ∈ covSigs, ∃ sig,
      (sortBIP340PKs p.covenantPks)[i]? = some c.covPk ∧ covSigAt B w.fpIdx c = .ok sig ∧
      sig.decrypt (evenScalar B.curve sk) = .ok x ∧
      ((sortBIP340PKs p.covenantPks).take i).countP
        (fun pk => pk ∈ covSigs.map covPk) < p.covenantQuorum := by
  obtain ⟨hg,hcn⟩ := getOrderedCovenantSignatures_get w.ordered distinct i
  rw [decryptCovenantSigs_get w.decrypted hp]
  simp only [hg,hcn,Nat.zero_add]
  constructor
  · rintro ⟨sig,⟨c,hc,hk,hs⟩,hd,hl⟩
    exact ⟨c,hc,sig,hk,hs,hd,hl⟩
  · rintro ⟨c,hc,sig,hk,hs,hd,hl⟩
    exact ⟨sig,⟨c,hc,hk,hs⟩,hd,hl⟩

theorem reveals_pair (h : Slashable B p d info fundingTx outputIdx slashingTx delegatorSig covSigs)
    (het : ExtractsOnlyMatching B d.fpBtcPkList covSigs fp sk) {fpIdx : Nat}
    (hf : d.fpBtcPkList[fpIdx]? = some fp) {c c' : CovenantAdaptorSignatures} (hc : c ∈ covSigs)
    (hc' : c' ∈ covSigs) {sig' : AdaptorSignature B.curve} {x : Signature B.curve}
    (hx : x.r < B.curve.p)
    (hsg' : covSigAt B fpIdx c' = .ok sig') (hd : sig'.decrypt (evenScalar B.curve sk) = .ok x) :
    ∃ y, Reveals B fpIdx c x.serialize y ∧
      (c.covPk = c'.covPk ∧ y = evenScalar B.curve sk ∨ c.covPk ≠ c'.covPk ∧
        pubKeyOf B y ≠ fp) := by
  have hs := het.nonzero fpIdx hf c' hc' sig' x hsg' hd
  by_cases hk : c.covPk = c'.covPk
  · have heq : c = c' := inj_on_of_nodup_map h.distinct hc hc' hk
    subst heq
    exact ⟨_,⟨x,sig',parseSignature_serialize hx,hsg',extract_decrypt hd hs⟩,.inl ⟨rfl,rfl⟩⟩
  · obtain ⟨sig,hv,hsg⟩ := (h.verified c hc).covSigAt hf
    obtain ⟨_,_,he⟩ := hv
    simp only [encVerifyTransactionSigWithOutput,ok_iff] at he
    obtain ⟨y,hy⟩ := extract_succeeds (encVerify_spec he.2).2.1 hs
    exact ⟨y,⟨x,sig,parseSignature_serialize hx,hsg,hy⟩,
      .inr ⟨hk,het.others fpIdx hf c hc c' hc' hk sig sig' x y hsg hsg' hd hy⟩⟩

theorem tryExtract_completed {hash : Bytes}
    (h : Slashable B p d info fundingTx outputIdx slashingTx delegatorSig covSigs)
    (hp : 0 < p.covenantQuorum) (hsk : IsSecretKey B.curve sk fp)
    (het : ExtractsOnlyMatching B d.fpBtcPkList covSigs fp sk)
    (w : CompletedWitness B p d covSigs hash fp sk) {m : KVStore BIP340PubKey Bytes}
    (hg : ∀ pk b, m.get pk = some b ↔ ∃ (i : Nat) (x : Signature B.curve),
      p.covenantPks[i]? = some pk ∧ w.covenantSigs[i]? = some (some x) ∧ b = x.serialize) :
    tryExtractFPSK B m w.fpIdx (some fp) covSigs = .ok (evenScalar B.curve sk) ↔
      ∃ (i : Nat) (pk : BIP340PubKey), p.covenantPks[i]? = some pk ∧
        (sortBIP340PKs p.covenantPks)[i]? = some pk ∧
        pk ∈ covSigs.map covPk ∧
        ((sortBIP340PKs p.covenantPks).take i).countP
          (fun pk => pk ∈ covSigs.map covPk) < p.covenantQuorum := by
  have hk : pubKeyOf B (evenScalar B.curve sk) = fp := (IsSecretKey.even hsk).pubKey
  have hv : ∀ {i : Nat} {x : Signature B.curve}, w.covenantSigs[i]? = some (some x) →
      x.r < B.curve.p := by
    intro i x hi
    obtain ⟨hl,hx⟩ := List.getElem?_eq_some_iff.mp hi
    have hd := List.Forall₂.get w.covenantValid (w.covenantValid.length_eq ▸ hl) hl
    exact (hd x hx).1
  -- each entry of the map comes from some member `c'`, which may be another than the key says
  have he : ∀ c ∈ covSigs, ∀ b, m.get c.covPk = some b →
      ∃ i, p.covenantPks[i]? = some c.covPk ∧ ∃ c' ∈ covSigs,
        (sortBIP340PKs p.covenantPks)[i]? = some c'.covPk ∧
        ((sortBIP340PKs p.covenantPks).take i).countP
          (fun pk => pk ∈ covSigs.map covPk) < p.covenantQuorum ∧
        ∃ y, Reveals B w.fpIdx c b y ∧
          (c.covPk = c'.covPk ∧ y = evenScalar B.curve sk ∨ c.covPk ≠ c'.covPk ∧
            pubKeyOf B y ≠ fp) := by
    intro c hc b hb
    obtain ⟨i,x,hi,hx,hse⟩ := (hg c.covPk b).mp hb
    obtain ⟨c',hc',sig',hsr,hs',hd,hl⟩ := (completed_place w hp h.distinct i x).mp hx
    obtain ⟨y,hy⟩ := reveals_pair h het w.fpAt hc hc' (hv hx) hs' hd
    rw [← hse] at hy
    exact ⟨i,hi,c',hc',hsr,hl,y,hy⟩
  rw [tryExtractFPSK_iff hk]
  · constructor
    · rintro ⟨c,hc,b,hb,hrv⟩
      obtain ⟨i,hi,c',hc',hsr,hl,y,hy,ho⟩ := he c hc b hb
      rcases ho with ⟨hsm,_⟩ | ⟨_,hf⟩
      · exact ⟨i,c.covPk,hi,hsm ▸ hsr,mem_map_of_mem hc,hl⟩
      · exact absurd (hy.unique hrv ▸ hk) hf
    · rintro ⟨i,pk,hi,hsr,hpk,hl⟩
      obtain ⟨c,hc,rfl⟩ := mem_map.mp hpk
      obtain ⟨sig,hvr,hs⟩ := (h.verified c hc).covSigAt w.fpAt
      obtain ⟨x,hd,hr,_⟩ := decrypt_verifies (evenScalar_ne hsk.ne_zero) (hvr.encVerify hsk)
      have hx := (completed_place w hp h.distinct i x).mpr ⟨c,hc,sig,hsr,hs,hd,hl⟩
      refine ⟨c,hc,x.serialize,(hg _ _).mpr ⟨i,x,hi,hx,rfl⟩,x,sig,parseSignature_serialize hr,hs,?_⟩
      exact extract_decrypt hd (het.nonzero _ w.fpAt c hc sig x hs hd)
  · intro c hc b hb
    obtain ⟨_,_,_,_,_,_,y,hy,ho⟩ := he c hc b hb
    exact ⟨y,hy,ho.imp And.right And.right⟩

theorem extracted_iff
    (h : Slashable B p d info fundingTx outputIdx slashingTx delegatorSig covSigs)
    (hps : 0 < p.covenantQuorum) (hq : p.covenantQuorum ≤ covSigs.length)
    (hsg : covSigs.map covPk =
      d.covenantSigs.map covPk)
    (hfp : fp ∈ d.fpBtcPkList) (hs : IsSecretKey B.curve sk fp)
    (he : ExtractsOnlyMatching B d.fpBtcPkList covSigs fp sk) {tx : MsgTx}
    (ht : d.completeSlashingTx B p sk info fundingTx outputIdx slashingTx delegatorSig covSigs =
      .ok tx) :
    extractedFPSK B tx p d covSigs = .ok (evenScalar B.curve sk) ↔ KeysInPlace p d fp := by
  obtain ⟨i,_,w,hw⟩ := h.completed hps hq hfp hs
  rw [hw,Except.ok.injEq] at ht
  subst ht
  obtain ⟨hf,hc⟩ := keys_nodup h
  obtain ⟨m,hm,hg⟩ := parse_completed w hc ⟨info.paths.slashingPathScript,
    B.controlBlock info.scriptHolder info.paths.slashingPathScript⟩
  simp only [extractedFPSK,withWitness,getElem?_cons_zero,orFail,ok_bind,hm]
  by_cases hp : d.fpBtcPkList[w.fpIdxInWitness]? = some fp
  · have hi : w.fpIdxInWitness = w.fpIdx := by
      obtain ⟨hl,_⟩ := List.getElem?_eq_some_iff.mp hp
      exact (List.getElem?_inj hl hf).mp (hp.trans w.fpAt.symm)
    rw [hp,hi,tryExtract_completed h hps hs he w hg,hsg]
    exact ⟨fun hmm => ⟨⟨_,hp,w.fpAtWitness⟩,hmm⟩,KeysInPlace.member⟩
  · -- the parser names another provider, so no key it accepts is this one
    obtain ⟨hl,_⟩ := List.getElem?_eq_some_iff.mp w.fpAtWitness
    constructor
    · intro ho
      have hl' : w.fpIdxInWitness < d.fpBtcPkList.length := (sortBIP340PKs_perm _).length_eq ▸ hl
      rw [getElem?_eq_getElem hl'] at ho hp
      have hpk := tryExtractFPSK_pubKey ho
      rw [show pubKeyOf B (evenScalar B.curve sk) = fp from (IsSecretKey.even hs).pubKey] at hpk
      exact absurd (congrArg some hpk.symm) hp
    · intro hk
      obtain ⟨j,hj,hsr⟩ := hk.provider
      have hn : (sortBIP340PKs d.fpBtcPkList).Nodup := (sortBIP340PKs_perm _).nodup_iff.mpr hf
      have hjw := (List.getElem?_inj hl hn).mp (w.fpAtWitness.trans hsr.symm)
      exact absurd (hjw ▸ hj) hp

end

/-- The two slashing transactions a provider completes are attributed to it exactly when the keys
stand in the order of the witness. -/
theorem selective_slashing_attributed {E : BtcStaking.Env} {B : Bitcoin} {s : BtcStaking.State}
    (h : Reached (E.withScripts B) s) {k : Hash} {d : BTCDelegation} {p : Params}
    (hd : s.btcDelegations.get k = some d) (hp : s.params.get d.paramsVersion = some p)
    {quorumPrev : Nat}
    (hquorum : d.hasCovenantQuorums p.covenantQuorum quorumPrev = true) {fp : BIP340PubKey}
    (hfp : fp ∈ d.fpBtcPkList) {sk : ZMod B.curve.n} (hsk : IsSecretKey B.curve sk fp)
    (hext : ExtractsOnlyMatching B d.fpBtcPkList d.covenantSigs fp sk)
    (hextUnbonding : ExtractsOnlyMatching B d.fpBtcPkList
      d.btcUndelegation.covenantSlashingSigs fp sk)
    {tx utx : MsgTx} (htx : d.buildSlashingTxWithWitness B p sk = .ok tx)
    (hutx : d.buildUnbondingSlashingTxWithWitness B p sk = .ok utx) :
    (extractedFPSK B tx p d d.covenantSigs = .ok (evenScalar B.curve sk) ↔ KeysInPlace p d fp) ∧
      (extractedFPSK B utx p d d.btcUndelegation.covenantSlashingSigs =
        .ok (evenScalar B.curve sk) ↔ KeysInPlace p d fp) := by
  obtain ⟨p',hp',hc,hs⟩ := h.contracts.delegations k d hd
  rw [hp,Option.some.injEq] at hp'
  subst hp'
  have hps := quorum_pos (h.contracts.params _ _ hp)
  obtain ⟨hl,hul⟩ := hasCovenantQuorums_length hquorum
  obtain ⟨info,hi,hsl⟩ := hc.slashable hs
  obtain ⟨uinfo,hun,hu⟩ := hc.unbondingSlashable hs
  simp only [BTCDelegation.buildSlashingTxWithWitness,hi,Result.wrap,ok_bind] at htx
  simp only [BTCDelegation.buildUnbondingSlashingTxWithWitness,hun,Result.wrap,ok_bind] at hutx
  exact ⟨extracted_iff hsl hps hl rfl hfp hsk hext htx,
    extracted_iff hu hps hul hs.slashingKeys hfp hsk hextUnbonding hutx⟩

namespace Regtest

instance : DecidableEq (ZMod bitcoin.curve.n) := inferInstanceAs (DecidableEq (ZMod 11))

/-- A delegation under a committee of two, which both signed, completed by the provider with secret
key two. -/
def completedTest (covs fps : List Nat) (found : Bool) (s : BtcStaking.State) : Bool :=
  match s.btcDelegations.get (txHash (stakeTx (committee covs 2) fps 1)) with
  | none => false
  | some d => d.hasCovenantQuorums 2 0 && d.paramsVersion = 0 && d.fpBtcPkList = fps.map bytes &&
      d.covenantSigs.map covPk = [bytes 4,bytes 5] &&
      extractsOnlyMatching bitcoin d.fpBtcPkList d.covenantSigs (bytes 2) (2 : ZMod 11) &&
      extractsOnlyMatching bitcoin d.fpBtcPkList d.btcUndelegation.covenantSlashingSigs (bytes 2)
        (2 : ZMod 11) &&
      holds (d.buildSlashingTxWithWitness bitcoin (committee covs 2) (2 : ZMod 11))
        (fun tx => (extractedFPSK bitcoin tx (committee covs 2) d d.covenantSigs).isOk = found) &&
      holds (d.buildUnbondingSlashingTxWithWitness bitcoin (committee covs 2) (2 : ZMod 11))
        (fun tx => (extractedFPSK bitcoin tx (committee covs 2) d
          d.btcUndelegation.covenantSlashingSigs).isOk = found)

theorem completed_of_test (covs fps : List Nat) {found : Bool}
    (hvl : BtcStaking.Params.validate scripts (committee covs 2) = .ok ())
    (hk : ∀ k ∈ fps, validPubKey bitcoin (bytes k) = true)
    (h : holds (signedBy (committee covs 2) fps 1 [4,5]) (completedTest covs fps found) = true) :
    ∃ (s : BtcStaking.State) (k : Hash) (d : BTCDelegation) (tx utx : MsgTx), Reached scripts s ∧
      s.btcDelegations.get k = some d ∧ s.params.get d.paramsVersion = some (committee covs 2) ∧
      d.hasCovenantQuorums 2 0 = true ∧ d.fpBtcPkList = fps.map bytes ∧
      d.covenantSigs.map covPk = [bytes 4,bytes 5] ∧
      ExtractsOnlyMatching bitcoin d.fpBtcPkList d.covenantSigs (bytes 2) (2 : ZMod 11) ∧
      ExtractsOnlyMatching bitcoin d.fpBtcPkList d.btcUndelegation.covenantSlashingSigs (bytes 2)
        (2 : ZMod 11) ∧
      d.buildSlashingTxWithWitness bitcoin (committee covs 2) (2 : ZMod 11) = .ok tx ∧
      d.buildUnbondingSlashingTxWithWitness bitcoin (committee covs 2) (2 : ZMod 11) = .ok utx ∧
      (extractedFPSK bitcoin tx (committee covs 2) d d.covenantSigs).isOk = found ∧
      (extractedFPSK bitcoin utx (committee covs 2) d d.btcUndelegation.covenantSlashingSigs).isOk =
        found := by
  obtain ⟨s,hr,ht⟩ := holds_iff.mp h
  have hrc := signedBy_reached hvl hk hr
  unfold completedTest at ht
  split at ht
  case h_1 => cases ht
  case h_2 d hd =>
    simp only [Bool.and_eq_true,decide_eq_true_eq,holds_iff] at ht
    obtain ⟨⟨⟨⟨⟨⟨⟨hq,hv⟩,hfp⟩,hc⟩,he⟩,hux⟩,tx,htx,hf⟩,utx,hut,hu⟩ :=
      ht
    have hp : s.params.get d.paramsVersion = some (committee covs 2) := by
      rw [hv]
      exact signedBy_params hr
    exact ⟨s,_,d,tx,utx,hrc,hd,hp,hq,hfp,hc,extractsOnlyMatching_spec he,
      extractsOnlyMatching_spec hux,htx,hut,hf,hu⟩

end Regtest

/-- A committee whose keys are listed in ascending order: the signature of each member is looked up
under the key of the other, and no key is extracted. -/
theorem ascending_committee_unattributed :
    ∃ (s : BtcStaking.State) (k : Hash) (d : BTCDelegation) (tx utx : MsgTx),
      Reached Regtest.scripts s ∧ s.btcDelegations.get k = some d ∧
      s.params.get d.paramsVersion = some (committee [4,5] 2) ∧
      d.hasCovenantQuorums 2 0 = true ∧ bytes 2 ∈ d.fpBtcPkList ∧
      IsSecretKey secp (2 : ZMod 11) (bytes 2) ∧
      ExtractsOnlyMatching bitcoin d.fpBtcPkList d.covenantSigs (bytes 2) (2 : ZMod 11) ∧
      ExtractsOnlyMatching bitcoin d.fpBtcPkList d.btcUndelegation.covenantSlashingSigs
        (bytes 2) (2 : ZMod 11) ∧
      d.buildSlashingTxWithWitness bitcoin (committee [4,5] 2) (2 : ZMod 11) = .ok tx ∧
      d.buildUnbondingSlashingTxWithWitness bitcoin (committee [4,5] 2)
        (2 : ZMod 11) = .ok utx ∧
      (extractedFPSK bitcoin tx (committee [4,5] 2) d d.covenantSigs).isOk = false ∧
      (extractedFPSK bitcoin utx (committee [4,5] 2) d
        d.btcUndelegation.covenantSlashingSigs).isOk = false := by
  obtain ⟨s,k,d,tx,utx,hr,hd,hp,hq,hfp,_,he,hux,ht,hut,hf,hu⟩ :=
    completed_of_test [4,5] [2] rfl (by decide +kernel)
      (by decide +kernel : holds _ (completedTest [4,5] [2] false) = true)
  exact ⟨s,k,d,tx,utx,hr,hd,hp,hq,by rw [hfp]; simp,secretKey_two,he,hux,ht,hut,hf,hu⟩

theorem descending_keys_attributed :
    ∃ (d : BTCDelegation) (tx utx : MsgTx),
      extractedFPSK bitcoin tx (committee [5,4] 2) d d.covenantSigs =
        .ok (evenScalar secp (2 : ZMod 11)) ∧
      extractedFPSK bitcoin utx (committee [5,4] 2) d
        d.btcUndelegation.covenantSlashingSigs = .ok (evenScalar secp (2 : ZMod 11)) := by
  obtain ⟨s,k,d,tx,utx,hr,hd,hp,hq,hf,hc,he,hu,ht,hut,_⟩ :=
    completed_of_test [5,4] [3,2] rfl (by decide +kernel)
      (by decide +kernel : holds _ (completedTest [5,4] [3,2] true) = true)
  have hpl : KeysInPlace (committee [5,4] 2) d (bytes 2) := by
    constructor
    · rw [hf]
      exact ⟨1,rfl,by decide +kernel⟩
    · rw [hc]
      exact ⟨0,bytes 5,rfl,by decide +kernel,by simp,by decide⟩
  obtain ⟨hi,huf⟩ := selective_slashing_attributed hr hd hp hq
    (by rw [hf]; simp) secretKey_two he hu ht hut
  exact ⟨d,tx,utx,hi.mpr hpl,huf.mpr hpl⟩

end AnonChain
