import AnonChain.EotsManager
import AnonChain.Regtest

/-! No two messages are signed for one height: a record is on disk before its signature leaves. -/

namespace AnonChain.EotsManager

open Lib Eots Discipline List

variable {E : Env} {disk disk' : Disk E}

theorem uint64ToBigEndian_inj {a b : Uint64} (h : uint64ToBigEndian a = uint64ToBigEndian b) :
    a = b := by
  have ha : readBE (uint64ToBigEndian a) = a.val := readBE_writeBE a.isLt
  have hb : readBE (uint64ToBigEndian b) = b.val := readBE_writeBE b.isLt
  exact Fin.ext (by rw [← ha,← hb,h])

theorem length_uint64ToBigEndian (a : Uint64) : (uint64ToBigEndian a).length = 8 :=
  length_writeBE 8 a.val

theorem getSignRecordKey_inj {c c' pk pk' : Bytes} {h h' : Uint64} (hl : pk.length = pk'.length)
    (hk : getSignRecordKey c pk h = getSignRecordKey c' pk' h') : c = c' ∧ pk = pk' ∧ h = h' := by
  have hb : (uint64ToBigEndian h).length = (uint64ToBigEndian h').length := by
    rw [length_uint64ToBigEndian,length_uint64ToBigEndian]
  obtain ⟨hcp,hh⟩ := append_inj' hk hb
  obtain ⟨hc,hp⟩ := append_inj' hcp hl
  exact ⟨hc,hp,uint64ToBigEndian_inj hh⟩

theorem randomnessInput_inj {c c' : Bytes} {h h' i i' : Uint64}
    (he : randomnessInput c h i = randomnessInput c' h' i') : c = c' ∧ h = h' := by
  have hb : ∀ a b : Uint64, (uint64ToBigEndian a).length = (uint64ToBigEndian b).length := by
    intro a b
    rw [length_uint64ToBigEndian,length_uint64ToBigEndian]
  obtain ⟨hhc, -⟩ := append_inj' he (hb i i')
  obtain ⟨hh,hc⟩ := append_inj hhc (hb h h')
  exact ⟨hc,uint64ToBigEndian_inj hh⟩

theorem sampleFrom_spec {key c : Bytes} {h i : Uint64} {rounds : Nat} {k : ZMod E.curve.n}
    (hk : sampleFrom E key c h rounds i = some k) : ∃ j, sample E key c h j = some k := by
  induction rounds generalizing i with
  | zero => cases hk
  | succ _ ih =>
    simp only [sampleFrom] at hk
    cases hs : sample E key c h i with
    | some k' =>
      rw [hs] at hk
      exact ⟨i,hs.trans hk⟩
    | none =>
      rw [hs] at hk
      exact ih hk

theorem sample_spec {key c : Bytes} {h i : Uint64} {k : ZMod E.curve.n}
    (hk : sample E key c h i = some k) : readBE (E.hmac key (randomnessInput c h i)) = k.val := by
  simp only [sample] at hk
  split at hk
  case isTrue ho =>
    rw [← Option.some.inj hk,toModNScalar,ZMod.val_natCast,Nat.mod_eq_of_lt ho.1]
  case isFalse => cases hk

/-- The signature was made with the private key `d` of its public key and the nonce of its
height. -/
structure Signed.MadeWith (e : Signed E) (d k : ZMod E.curve.n) : Prop where
  key : derivedPubKey E d = e.eotsPk
  nonce : generateRandomness E (serialize E d) e.chainID e.height = some k
  signed : sign E.curve E.hashes d k e.msg = .ok e.sig

def Signed.Made (e : Signed E) : Prop := ∃ d k, e.MadeWith d k

def Signed.recordKey (e : Signed E) : Bytes := getSignRecordKey e.chainID e.eotsPk e.height

def Signed.record (e : Signed E) : SigningRecord := ⟨e.msg,serialize E e.sig⟩

def Recorded (disk : Disk E) (e : Signed E) : Prop :=
  e.Made ∧ disk.signRecords.get e.recordKey = some e.record

/-- Records stand for signatures of the manager and are never changed. -/
def records (E : Env) : Discipline (Disk E) where
  inv disk := ∀ key r, disk.signRecords.get key = some r →
    ∃ e : Signed E, e.eotsPk.length = BIP340PubKeyLen ∧ e.Made ∧ e.recordKey = key ∧ e.record = r
  le disk disk' := ∀ key r, disk.signRecords.get key = some r → disk'.signRecords.get key = some r
  refl _ _ _ h := h
  trans h h' key r hr := h' key r (h key r hr)

theorem Recorded.of_le {e : Signed E} (h : Recorded disk e) (hl : (records E).le disk disk') :
    Recorded disk' e :=
  ⟨h.1,hl _ _ h.2⟩

theorem toModNScalar_serialize (hn : E.curve.n ≤ 2^256) (s : ZMod E.curve.n) :
    toModNScalar E.curve (serialize E s) = s := by
  have hl : s.val < 256^32 := lt_of_lt_of_le (ZMod.val_lt s) hn
  rw [toModNScalar,serialize,readBE_writeBE hl]
  exact ZMod.natCast_zmod_val s

theorem recorded_of_get (hn : E.curve.n ≤ 2^256) {disk : Disk E} (hi : (records E).inv disk)
    {eotsPk chainID : Bytes} {height : Uint64} {r : SigningRecord}
    (hpk : eotsPk.length = BIP340PubKeyLen)
    (hr : disk.signRecords.get (getSignRecordKey chainID eotsPk height) = some r) :
    Recorded disk ⟨eotsPk,chainID,height,r.msg,toModNScalar E.curve r.signature⟩ := by
  obtain ⟨e,hl,hm,hk,hrc⟩ := hi _ r hr
  obtain ⟨hc,hp,hh⟩ := getSignRecordKey_inj (hl.trans hpk.symm) hk
  obtain ⟨pk,c,h,msg,sig⟩ := e
  subst hc hp hh hrc
  simp only [Signed.record,toModNScalar_serialize hn]
  exact ⟨hm,hr⟩

theorem putSignRecord_spec {e : Signed E}
    (hp : e.eotsPk.length = BIP340PubKeyLen) (hm : e.Made) (hi : (records E).inv disk)
    (h : putSignRecord disk ⟨e.height,e.chainID,e.msg,e.eotsPk,serialize E e.sig⟩ = .ok disk') :
    (records E).inv disk' ∧ (records E).le disk disk' ∧ Recorded disk' e := by
  simp only [putSignRecord,ok_iff] at h
  obtain ⟨hnw,rfl⟩ := h
  refine ⟨?_,?_,hm,?_⟩
  · exact KVStore.forall_set ⟨e,hp,hm,rfl,rfl⟩ hi
  · intro key r hr
    have hne : key ≠ e.recordKey := by
      rintro rfl
      exact absurd (hnw.symm.trans hr) (by simp)
    exact (KVStore.get_set_ne _ _ hne).trans hr
  · simp [Signed.recordKey,Signed.record]

theorem putSignRecords_spec {es : List (Signed E)}
    (hes : ∀ e ∈ es, e.eotsPk.length = BIP340PubKeyLen ∧ e.Made) (hi : (records E).inv disk)
    (h : (es.map fun e => (⟨e.height,e.chainID,e.msg,e.eotsPk,serialize E e.sig⟩ :
      BatchSignRecord)).foldlM putSignRecord disk = .ok disk') :
    (records E).inv disk' ∧ (records E).le disk disk' ∧ ∀ e ∈ es, Recorded disk' e := by
  induction es generalizing disk with
  | nil =>
    rw [map_nil,foldlM_nil,pure_eq_ok] at h
    subst h
    exact ⟨hi,(records E).refl _,fun e he => by cases he⟩
  | cons e es ih =>
    rw [map_cons,foldlM_cons,bind_eq_ok] at h
    obtain ⟨disk₁,hpt,hrs⟩ := h
    obtain ⟨hp,hm⟩ := hes e mem_cons_self
    obtain ⟨hi₁,hl₁,hr₁⟩ := putSignRecord_spec hp hm hi hpt
    obtain ⟨hi',hl',hr'⟩ :=
      ih (fun e' he' => hes e' (mem_cons_of_mem e he')) hi₁ hrs
    refine ⟨hi',(records E).trans hl₁ hl',fun e' he' => ?_⟩
    rw [mem_cons] at he'
    obtain rfl | he' := he'
    · exact hr₁.of_le hl'
    · exact hr' e' he'

theorem eotsPrivKey_succeeds {disk : Disk E} {eotsPk : Bytes} :
    (records E).Succeeds (fun _ d => derivedPubKey E d = eotsPk) (eotsPrivKey eotsPk) disk := by
  have hnm : ∀ t, (records E).Succeeds (fun _ _ => True) (getEOTSKeyName eotsPk) t :=
    fun t => succeeds_view fun _ _ _ _ _ => trivial
  have hk : ∀ t name, (records E).Succeeds (fun _ _ => True) (eotsPrivKeyFromKeyName name) t :=
    fun t name => succeeds_view fun _ _ _ _ _ => trivial
  refine (hnm disk).bind fun t name _ => (hk t name).bind fun t d _ => ?_
  by_cases hd : derivedPubKey E d = eotsPk
  · rw [if_pos hd]
    exact succeeds_pure hd
  · rw [if_neg hd]
    exact succeeds_throw

theorem getRandomnessPair_succeeds {disk : Disk E} {d : ZMod E.curve.n} {chainID : Bytes}
    {height : Uint64} :
    (records E).Succeeds
      (fun t p => t = disk ∧ generateRandomness E (serialize E d) chainID height = some p.1)
      (getRandomnessPair d chainID height) disk := by
  unfold getRandomnessPair
  cases hk : generateRandomness E (serialize E d) chainID height with
  | some k => exact succeeds_pure ⟨rfl,rfl⟩
  | none => exact succeeds_stuck

section

variable (hn : E.curve.n ≤ 2^256)

include hn

theorem signEOTS_succeeds {disk : Disk E} {eotsPk chainID msg : Bytes} {height : Uint64}
    (hpk : eotsPk.length = BIP340PubKeyLen) :
    (records E).Succeeds (fun t sig => Recorded t ⟨eotsPk,chainID,height,msg,sig⟩)
      (signEOTS eotsPk chainID msg height) disk := by
  have hl : (records E).Succeeds
      (fun t r => (records E).inv t ∧
        t.signRecords.get (getSignRecordKey chainID eotsPk height) = r)
      (getSignRecord eotsPk chainID height) disk := by
    refine succeeds_view fun t ht _ r hr => ⟨ht,?_⟩
    exact Except.ok.inj hr
  refine hl.bind fun t r ht => ?_
  obtain ⟨hi,hg⟩ := ht
  cases r with
  | some record =>
    have hrc := recorded_of_get hn hi hpk hg
    by_cases hms : msg = record.msg
    · simp only [hms,if_true]
      exact succeeds_pure hrc
    · simp only [hms,if_false]
      exact succeeds_throw
  | none =>
    refine eotsPrivKey_succeeds.bind fun t₁ d hd => ?_
    refine getRandomnessPair_succeeds.bind fun t₂ p hp => ?_
    obtain ⟨-,hnonce⟩ := hp
    refine (succeeds_compute (Q := fun _ sig => sign E.curve E.hashes d p.1 msg = .ok sig)
      fun _ h => h).bind fun t₃ sig hs => ?_
    have hm : Signed.Made (⟨eotsPk,chainID,height,msg,sig⟩ : Signed E) :=
      ⟨d,p.1,hd,hnonce,hs⟩
    refine (succeeds_transact
      fun t ht _ u t' hpt => ?_).bind fun t' _ hrc => succeeds_pure hrc
    simp only [ok_iff,Prod.mk.injEq,true_and] at hpt
    obtain ⟨disk',hpt,rfl⟩ := hpt
    exact putSignRecord_spec hpk hm ht hpt

omit hn in
theorem get_collected {disk : Disk E} {eotsPk chainID : Bytes} {heights : List Uint64}
    {height : Uint64} {r : SigningRecord}
    (hg : (heights.foldl (collectSignRecord disk eotsPk chainID) .empty).get height = some r) :
    disk.signRecords.get (getSignRecordKey chainID eotsPk height) = some r := by
  refine foldl_keeps (P := fun (results : KVStore Uint64 SigningRecord) =>
    ∀ h r, results.get h = some r →
    disk.signRecords.get (getSignRecordKey chainID eotsPk h) = some r) ?_ ?_ height r hg
  · intro a _ results hrs
    unfold collectSignRecord
    cases hd : disk.signRecords.get (getSignRecordKey chainID eotsPk a) with
    | none => exact hrs
    | some _ => exact KVStore.forall_set hd hrs
  · intro h r hr
    cases hr

def Signed.toBatch (e : Signed E) : BatchSignRecord :=
  ⟨e.height,e.chainID,e.msg,e.eotsPk,serialize E e.sig⟩

/-- The signature that answers `q` within a batch. -/
def answerOf (req : SignBatchEOTSRequest) (q : SignDataRequest) (r : SignDataResponse E) :
    Signed E :=
  ⟨req.uid,req.chainID,r.height,q.msg,r.signature⟩

/-- Every answer collected so far is on disk already or among the records to save. -/
def Collected (disk : Disk E) (req : SignBatchEOTSRequest)
    (acc : List (SignDataResponse E) × List BatchSignRecord) : Prop :=
  ∃ es : List (Signed E), acc.2 = es.map Signed.toBatch ∧
    (∀ e ∈ es, e.eotsPk.length = BIP340PubKeyLen ∧ e.Made) ∧
    ∀ r ∈ acc.1, ∃ q ∈ req.signRequest, q.height = r.height ∧
      (Recorded disk (answerOf req q r) ∨ answerOf req q r ∈ es)

theorem signBatchRound_succeeds {disk : Disk E} {req : SignBatchEOTSRequest}
    {existing : KVStore Uint64 SigningRecord} {d : ZMod E.curve.n} {q : SignDataRequest}
    {acc : List (SignDataResponse E) × List BatchSignRecord}
    (hpk : req.uid.length = BIP340PubKeyLen) (hd : derivedPubKey E d = req.uid)
    (hi : (records E).inv disk)
    (het : ∀ h r, existing.get h = some r →
      disk.signRecords.get (getSignRecordKey req.chainID req.uid h) = some r)
    (hq : q ∈ req.signRequest) (ha : Collected disk req acc) :
    (records E).Succeeds (fun t acc => t = disk ∧ Collected disk req acc)
      (signBatchRound d req.uid req.chainID existing acc q) disk := by
  obtain ⟨es,hs,hes,hrs⟩ := ha
  unfold signBatchRound
  cases hg : existing.get q.height with
  | some record =>
    have hrc := recorded_of_get hn hi hpk (het _ _ hg)
    by_cases hms : q.msg = record.msg
    · simp only [hms,if_true]
      refine succeeds_pure ⟨rfl,es,hs,hes,?_⟩
      intro r hr
      rw [mem_append,mem_singleton] at hr
      obtain hr | rfl := hr
      · exact hrs r hr
      · refine ⟨q,hq,rfl,.inl ?_⟩
        rw [answerOf,hms]
        exact hrc
    · simp only [hms,if_false]
      exact succeeds_pure ⟨rfl,es,hs,hes,hrs⟩
  | none =>
    refine getRandomnessPair_succeeds.bind fun t p hp => ?_
    obtain ⟨rfl,hnonce⟩ := hp
    refine (succeeds_compute
      (Q := fun u sig => u = t ∧ sign E.curve E.hashes d p.1 q.msg = .ok sig)
      fun _ h => ⟨rfl,h⟩).bind fun u sig hu => ?_
    obtain ⟨rfl,hsg⟩ := hu
    let e : Signed E := ⟨req.uid,req.chainID,q.height,q.msg,sig⟩
    have hm : e.Made := ⟨d,p.1,hd,hnonce,hsg⟩
    refine succeeds_pure ⟨rfl,es ++ [e],?_,?_,?_⟩
    · rw [hs,map_append]
      rfl
    · intro e' he'
      rw [mem_append,mem_singleton] at he'
      obtain he' | rfl := he'
      · exact hes e' he'
      · exact ⟨hpk,hm⟩
    · intro r hr
      rw [mem_append,mem_singleton] at hr
      obtain hr | rfl := hr
      · obtain ⟨q',hq',hh,hrc⟩ := hrs r hr
        exact ⟨q',hq',hh,hrc.imp_right (mem_append_left [e])⟩
      · exact ⟨q,hq,rfl,.inr (mem_append_right es (mem_singleton_self e))⟩

omit hn in
theorem saveSignRecordsBatch_succeeds {disk : Disk E} {es : List (Signed E)}
    (hes : ∀ e ∈ es, e.eotsPk.length = BIP340PubKeyLen ∧ e.Made) :
    (records E).Succeeds (fun t _ => (records E).le disk t ∧ ∀ e ∈ es, Recorded t e)
      (saveSignRecordsBatch (es.map Signed.toBatch)) disk := by
  unfold saveSignRecordsBatch
  by_cases hnl : es.map Signed.toBatch = []
  · rw [map_eq_nil_iff] at hnl
    subst hnl
    exact succeeds_pure ⟨(records E).refl _,fun e he => by cases he⟩
  · rw [if_neg hnl]
    refine succeeds_transact fun t ht hl u t' hp => ?_
    simp only [ok_iff,Prod.mk.injEq,true_and] at hp
    obtain ⟨disk',hp,rfl⟩ := hp
    obtain ⟨hi',hl',hr⟩ := putSignRecords_spec hes ht hp
    exact ⟨hi',hl',(records E).trans hl hl',hr⟩

theorem signBatchEOTS_succeeds {disk : Disk E} {req : SignBatchEOTSRequest}
    (hp : req.uid.length = BIP340PubKeyLen) :
    (records E).Succeeds (fun t sigs => ∀ r ∈ sigs, ∀ q ∈ req.signRequest, q.height = r.height →
      Recorded t (answerOf req q r)) (signBatchEOTS req) disk := by
  unfold signBatchEOTS
  by_cases hdp : hasDuplicateHeights [] (req.signRequest.map (·.height)) = none
  case neg =>
    rw [if_neg hdp]
    exact succeeds_throw
  rw [if_pos hdp]
  have hnd := (hasDuplicateHeights_eq_none.mp hdp).1
  refine eotsPrivKey_succeeds.bind fun t d hd => ?_
  have hl : (records E).Succeeds
      (fun t existing => (records E).inv t ∧ ∀ h r, existing.get h = some r →
        t.signRecords.get (getSignRecordKey req.chainID req.uid h) = some r)
      (getSignRecordsBatch req.uid req.chainID (req.signRequest.map (·.height))) t := by
    refine succeeds_view fun u hu _ existing hex => ⟨hu,fun h r hr => ?_⟩
    rw [← Except.ok.inj hex] at hr
    exact get_collected hr
  refine hl.bind fun u existing hu => ?_
  obtain ⟨hi,he⟩ := hu
  have hlp : (records E).Succeeds (fun t acc => t = u ∧ Collected u req acc)
      (req.signRequest.foldlM (signBatchRound d req.uid req.chainID existing) ([],[])) u := by
    refine succeeds_foldlM ⟨rfl,[],rfl,by simp,by simp⟩ ?_
    rintro q hq _ acc ⟨rfl,ha⟩
    exact signBatchRound_succeeds hn hp hd hi he hq ha
  refine hlp.bind fun _ acc ha => ?_
  obtain ⟨rfl,es,hs,hes,hrs⟩ := ha
  obtain ⟨response,toSave⟩ := acc
  subst hs
  refine (saveSignRecordsBatch_succeeds hes).bind fun t' _ ht' => succeeds_pure ?_
  obtain ⟨hle,hrc⟩ := ht'
  intro r hr q hq hh
  obtain ⟨q',hq',hh',ho⟩ := hrs r hr
  -- the heights of a request are distinct, so the answer is to this message
  have heq : q' = q := inj_on_of_nodup_map hnd hq' hq (hh'.trans hh.symm)
  subst heq
  obtain hold | hnw := ho
  · exact hold.of_le hle
  · exact hrc _ hnw

theorem serve_guarantees (r : Request) (disk : Disk E) (hp : r.eotsPk.length = BIP340PubKeyLen) :
    (records E).Guarantees (fun t a => ∀ e ∈ signaturesOf r a, Recorded t e) (serve E r) disk := by
  have hsr : (records E).Succeeds (fun t a => ∀ e ∈ signaturesOf r (.ok a), Recorded t e)
      (serve E r) disk := by
    cases r with
    | signEOTS _ _ _ _ =>
      refine (signEOTS_succeeds hn hp).bind fun t sig hsi => succeeds_pure ?_
      intro e he
      rw [signaturesOf,mem_singleton] at he
      rw [he]
      exact hsi
    | signBatchEOTS _ =>
      refine (signBatchEOTS_succeeds hn hp).bind fun t sigs hs => succeeds_pure ?_
      intro e he
      simp only [signaturesOf,mem_flatMap,mem_map,mem_filter,decide_eq_true_eq] at he
      obtain ⟨r,hr,q,⟨hq,hh⟩,rfl⟩ := he
      exact hs r hr q hq hh
  refine hsr.guarantees.mono fun t a ha => ?_
  cases a with
  | ok a => exact ha a rfl
  | error e =>
    intro e' he'
    cases r <;> cases he'

end

section

variable {ι : Type} [DecidableEq ι] {s : Server ι Request (Disk E) (Result (Response E))}

theorem recorded_of_reachable (hn : E.curve.n ≤ 2^256) (h : (system E ι).Reachable s)
    {e : Signed E} (he : e ∈ signatures s) : Recorded s.store e := by
  have hs := Server.sound_of_reachable (D := records E)
    (fun disk hd key r hr => by rw [hd] at hr; cases hr)
    (fun disk disk' hk hi => by
      exact ⟨fun key r hr => hi key r (hk ▸ hr),fun key r hr => hk ▸ hr⟩)
    (fun r disk hpk _ => serve_guarantees hn r disk hpk)
    (fun r _ _ a _ hl hrc e he => (hrc e he).of_le hl) h
  obtain ⟨p,hp,he⟩ := mem_flatMap.mp he
  exact hs.returned p hp e he

theorem Recorded.msg_eq {disk : Disk E} {e₁ e₂ : Signed E} (h₁ : Recorded disk e₁)
    (h₂ : Recorded disk e₂)
    (hp : e₁.eotsPk = e₂.eotsPk) (hc : e₁.chainID = e₂.chainID) (hh : e₁.height = e₂.height) :
    e₁.msg = e₂.msg := by
  have hk : e₁.recordKey = e₂.recordKey := by
    rw [Signed.recordKey,Signed.recordKey,hp,hc,hh]
  have hg₁ := h₁.2
  rw [hk,h₂.2] at hg₁
  exact (congrArg SigningRecord.msg (Option.some.inj hg₁)).symm

/-- No two inputs that may have been hashed for the nonces of these signatures collide. -/
def CollisionFree (es : List (Signed E)) : Prop :=
  ∀ e₁ ∈ es, ∀ e₂ ∈ es, ∀ d₁ d₂ i₁ i₂, derivedPubKey E d₁ = e₁.eotsPk →
    derivedPubKey E d₂ = e₂.eotsPk →
    E.hmac (serialize E d₁) (randomnessInput e₁.chainID e₁.height i₁) =
      E.hmac (serialize E d₂) (randomnessInput e₂.chainID e₂.height i₂) →
    randomnessInput e₁.chainID e₁.height i₁ = randomnessInput e₂.chainID e₂.height i₂

theorem same_height_of_same_nonce (hh : ∀ key m, (E.hmac key m).length = 32)
    {es : List (Signed E)} (hf : CollisionFree es) {e₁ e₂ : Signed E} (h₁ : e₁ ∈ es)
    (h₂ : e₂ ∈ es) {d₁ d₂ k : ZMod E.curve.n} (hm₁ : e₁.MadeWith d₁ k) (hm₂ : e₂.MadeWith d₂ k) :
    e₁.chainID = e₂.chainID ∧ e₁.height = e₂.height := by
  obtain ⟨i₁,hs₁⟩ := sampleFrom_spec hm₁.nonce
  obtain ⟨i₂,hs₂⟩ := sampleFrom_spec hm₂.nonce
  -- a nonce determines the digest it was read from
  have hr := (sample_spec hs₁).trans (sample_spec hs₂).symm
  have hd := congrArg (writeBE 32) hr
  rw [writeBE_readBE (hh _ _),writeBE_readBE (hh _ _)] at hd
  exact randomnessInput_inj
    (hf e₁ h₁ e₂ h₂ d₁ d₂ i₁ i₂ hm₁.key hm₂.key hd)

end

/-- In every interleaving of signing calls, with crashes between transactions, all signatures for
one key, chain and height are over one message, and no nonce of a key is used for two. -/
theorem eots_one_message_per_height (E : Env) (hn : E.curve.n ≤ 2^256)
    (hhmac : ∀ key m, (E.hmac key m).length = 32) (ι : Type) [DecidableEq ι]
    (s : Server ι Request (Disk E) (Result (Response E))) (h : (system E ι).Reachable s) :
    (∀ e₁ ∈ signatures s, ∀ e₂ ∈ signatures s, e₁.eotsPk = e₂.eotsPk → e₁.chainID = e₂.chainID →
      e₁.height = e₂.height → e₁.msg = e₂.msg) ∧
    (∀ e ∈ signatures s, ∃ d k, e.MadeWith d k) ∧
    (CollisionFree (signatures s) → ∀ e₁ ∈ signatures s, ∀ e₂ ∈ signatures s, ∀ d₁ d₂ k,
      e₁.MadeWith d₁ k → e₂.MadeWith d₂ k → e₁.eotsPk = e₂.eotsPk → e₁.msg = e₂.msg) := by
  have hr : ∀ e ∈ signatures s, Recorded s.store e :=
    fun e he => recorded_of_reachable hn h he
  refine ⟨?_,fun e he => (hr e he).1,?_⟩
  · intro e₁ h₁ e₂ h₂ hp hc hh
    exact (hr e₁ h₁).msg_eq (hr e₂ h₂) hp hc hh
  · intro hf e₁ h₁ e₂ h₂ d₁ d₂ k hm₁ hm₂ hp
    obtain ⟨hc,hh⟩ := same_height_of_same_nonce hhmac hf h₁ h₂ hm₁ hm₂
    exact (hr e₁ h₁).msg_eq (hr e₂ h₂) hp hc hh

def regtest : Env where
  curve := Regtest.curve
  hashes := Regtest.hashes
  hmac key m := writeBE 32 (readBE (m ++ key.drop 31))

def regtestSecret : ZMod 11 := 3

def regtestStart : Server Nat Request (Disk regtest) (Result (Response regtest)) where
  store := ⟨KVStore.empty.set (writeBE 32 3) "key",.empty,fun _ => .ok regtestSecret⟩
  mu := none
  threads _ := none
  returned := []

/-- The manager crashes after it has saved the record of a first signature; asked again, for two
messages, it answers the first one. -/
def regtestRun : List (Server.Action Nat Request) :=
  let sign msg := Request.signEOTS (writeBE 32 3) [] msg 0
  [.call 0 (sign [5]),.call 1 (sign [6]),.lock 0,.transact 0,.transact 0,.transact 0,
    .transact 0,.crash,.call 0 (sign [6]),.call 1 (sign [5]),.lock 0,.transact 0,.reply 0,
    .lock 1,.transact 1,.reply 1]

def regtestSigned : Option (List (Bytes × Uint64 × Bytes)) :=
  (regtestRun.foldlM (Server.next (serve regtest)
    (fun r => r.eotsPk.length = BIP340PubKeyLen)) regtestStart).map fun s =>
      (signatures s).map fun e => (e.chainID,e.height,e.msg)

theorem regtest_collisionFree {es : List (Signed regtest)} (h : ∀ e ∈ es, e.chainID = []) :
    CollisionFree es := by
  intro e₁ h₁ e₂ h₂ d₁ d₂ i₁ i₂ _ _ he
  rw [h e₁ h₁,h e₂ h₂] at he ⊢
  have hl : ∀ (h i : Uint64) (d : ZMod regtest.curve.n),
      (randomnessInput [] h i ++ (serialize regtest d).drop 31).length = 17 := by
    intro h i d
    simp [randomnessInput,serialize,uint64ToBigEndian]
  have hi : ∀ h i : Uint64, (randomnessInput [] h i).length = 16 := by
    intro h i
    simp [randomnessInput,uint64ToBigEndian]
  have hlt : ∀ (h i : Uint64) (d : ZMod regtest.curve.n),
      readBE (randomnessInput [] h i ++ (serialize regtest d).drop 31) < 256^32 := by
    intro h i d
    exact lt_of_lt_of_le (readBE_lt (hl h i d)) (Nat.pow_le_pow_right (by decide) (by decide))
  have hh : ∀ key m, regtest.hmac key m = writeBE 32 (readBE (m ++ key.drop 31)) :=
    fun _ _ => rfl
  have hr := congrArg readBE he
  rw [hh,hh,readBE_writeBE (hlt _ _ _),readBE_writeBE (hlt _ _ _)] at hr
  have hb := congrArg (writeBE 17) hr
  rw [writeBE_readBE (hl _ _ _),writeBE_readBE (hl _ _ _)] at hb
  exact (append_inj hb ((hi _ _).trans (hi _ _).symm)).1

theorem eots_one_message_after_crash :
    ∃ s : Server Nat Request (Disk regtest) (Result (Response regtest)), ∃ e d k,
      (system regtest Nat).Reachable s ∧ signatures s = [e] ∧ e.msg = [5] ∧ e.MadeWith d k ∧
        ∀ e₁ ∈ signatures s, ∀ d₁, e₁.MadeWith d₁ k → e₁.eotsPk = e.eotsPk → e₁.msg = [5] := by
  have ho : regtestSigned = some [([],0,[5])] := by decide +kernel
  obtain ⟨s,hs,hsg⟩ := Option.map_eq_some_iff.mp ho
  have hr : (system regtest Nat).Reachable s :=
    Server.reachable_of_next (.init ⟨rfl,rfl,fun _ => rfl,rfl⟩) hs
  obtain ⟨e,hsi,he⟩ := map_eq_singleton_iff.mp hsg
  have hmm : e ∈ signatures s := by
    rw [hsi]
    exact mem_singleton_self e
  have hf : CollisionFree (signatures s) := by
    refine regtest_collisionFree fun e' he' => ?_
    rw [hsi,mem_singleton] at he'
    rw [he']
    exact congrArg (fun p => p.1) he
  have hms : e.msg = [5] := congrArg (fun p => p.2.2) he
  obtain ⟨-,hmd,hnonce⟩ := eots_one_message_per_height regtest (by decide +kernel)
    (fun key m => length_writeBE 32 _) Nat s hr
  obtain ⟨d,k,hd⟩ := hmd e hmm
  refine ⟨s,e,d,k,hr,hsi,hms,hd,fun e₁ h₁ d₁ hm₁ hp => ?_⟩
  rw [← hms]
  exact hnonce hf e₁ h₁ e hmm d₁ d k hm₁ hd hp

end AnonChain.EotsManager
