import AnonChain.BtcTxFormatter

/-! The two payloads of a checkpoint; each function has one rule for what it accepts. -/

namespace AnonChain.BtcTxFormatter

open Lib List

structure RawBtcCheckpoint.WellFormed (c : RawBtcCheckpoint) : Prop where
  epoch : c.epoch < 2^64
  blockHash : c.blockHash.length = blockHashLength
  bitMap : c.bitMap.length = bitMapLength
  submitterAddress : c.submitterAddress.length = addressLength
  blsSig : c.blsSig.length = blsSigLength

def readParts (sha256 : Bytes → Bytes) (tag f s : Bytes) : Result RawBtcCheckpoint := do
  let first ← getCheckpointData tag currentVersion 0 f
  let second ← getCheckpointData tag currentVersion 1 s
  let raw ← connectParts sha256 currentVersion first second
  decodeRawCheckpoint currentVersion raw

def firstData (c : RawBtcCheckpoint) : Bytes :=
  u64ToBEBytes c.epoch ++ c.blockHash ++ c.bitMap ++ c.submitterAddress

def partLength (partIndex : Nat) : Nat :=
  if partIndex = 0 then firstPartLength-headerLength else secondPartLength-headerLength

theorem length_firstData {c : RawBtcCheckpoint} (h : c.WellFormed) :
    (firstData c).length = partLength 0 := by
  simp [firstData,u64ToBEBytes,h.blockHash,h.bitMap,h.submitterAddress]
  rfl

section

variable {tag data : Bytes} {partIndex : Nat}

theorem length_encodeHeader (htag : tag.length = tagLength) (partIndex : Nat) :
    (encodeHeader tag currentVersion partIndex).length = headerLength := by
  simp [encodeHeader,htag,headerLength]

theorem getVerHalf_val (h : partIndex ≤ 1) :
    (getVerHalf currentVersion partIndex).val = 16*partIndex := by
  obtain rfl | rfl : partIndex = 0 ∨ partIndex = 1 := by omega
  · rfl
  · rfl

theorem parseHeader_encodeHeader (htag : tag.length = tagLength) (h : partIndex ≤ 1)
    (body : Bytes) : parseHeader (encodeHeader tag currentVersion partIndex ++ body) =
      ⟨tag,currentVersion,partIndex⟩ := by
  have hb : (encodeHeader tag currentVersion partIndex ++ body).getD tagLength 0 =
      getVerHalf currentVersion partIndex := by simp [encodeHeader,getD,← htag]
  have ht : (encodeHeader tag currentVersion partIndex ++ body).take tagLength = tag := by
    simp [encodeHeader,← htag]
  have hv := getVerHalf_val h
  simp only [parseHeader,hb,ht,hv,FormatHeader.mk.injEq,true_and]
  exact ⟨Nat.mul_mod_right 16 partIndex,Nat.mul_div_cancel_left partIndex (by decide)⟩

theorem eq_encodeHeader (h : partIndex ≤ 1) (hln : headerLength ≤ data.length)
    (hh : (parseHeader data).validateHeader tag partIndex = .ok ()) :
    data = encodeHeader tag currentVersion partIndex ++ data.drop headerLength := by
  simp only [FormatHeader.validateHeader,ok_iff] at hh
  obtain ⟨htag,hv,hp⟩ := hh
  simp only [parseHeader] at htag hv hp
  have hl : tagLength < data.length := hln
  have hg : data.getD tagLength 0 = data[tagLength] := by
    simp [getD,getElem?_eq_getElem hl]
  have hb : data[tagLength] = getVerHalf currentVersion partIndex := by
    apply Fin.ext
    rw [getVerHalf_val h,← hg]
    have hz : (data.getD tagLength 0).val%16 = 0 := Nat.le_zero.mp hv
    omega
  calc data = data.take tagLength ++ data.drop tagLength := (take_append_drop _ _).symm
    _ = tag ++ (data[tagLength] :: data.drop (tagLength+1)) := by
        rw [htag,drop_eq_getElem_cons hl]
    _ = encodeHeader tag currentVersion partIndex ++ data.drop headerLength := by
        rw [hb]
        simp [encodeHeader,headerLength]

end

variable {c : RawBtcCheckpoint}

theorem getCheckpointData_eq_ok {tag data body : Bytes} {partIndex : Nat}
    (htag : tag.length = tagLength) (hp : partIndex ≤ 1) :
    getCheckpointData tag currentVersion partIndex data = .ok body ↔
      data = encodeHeader tag currentVersion partIndex ++ body ∧
        body.length = partLength partIndex := by
  have hh := length_encodeHeader htag partIndex
  simp only [getCheckpointData,ok_iff]
  constructor
  · rintro ⟨_,_,hf,hs,_,hv,rfl⟩
    have hl : data.length = partLength partIndex+headerLength := by
      obtain rfl | rfl : partIndex = 0 ∨ partIndex = 1 := by omega
      · exact hf rfl
      · exact hs rfl
    have he := eq_encodeHeader hp (by omega) hv
    exact ⟨he,by rw [length_drop]; omega⟩
  · rintro ⟨rfl,hl⟩
    have hd : (encodeHeader tag currentVersion partIndex ++ body).drop headerLength = body := by
      rw [← hh,drop_left]
    rw [parseHeader_encodeHeader htag hp,hd]
    refine ⟨hp,le_refl _,?_,?_,(),?_,rfl⟩
    · rintro rfl
      rw [length_append,hh,hl]
      rfl
    · rintro rfl
      rw [length_append,hh,hl]
      rfl
    · simp [FormatHeader.validateHeader,ok_iff]

theorem connectParts_eq_ok {sha256 : Bytes → Bytes} {f s raw : Bytes}
    (hsha : ∀ b, (sha256 b).length = 32) : connectParts sha256 currentVersion f s = .ok raw ↔
      ∃ sig, sig.length = blsSigLength ∧ f.length = partLength 0 ∧
        s = sig ++ getCheckSum sha256 f ∧ raw = f ++ sig := by
  have hsm : (getCheckSum sha256 f).length = firstPartHashLength := by
    simp [getCheckSum,hsha,firstPartHashLength]
  simp only [connectParts,ok_iff]
  constructor
  · rintro ⟨_,hf,hs,hc,rfl⟩
    have hi : s.length-firstPartHashLength = blsSigLength := by
      rw [hs]
      rfl
    rw [hi] at hc ⊢
    refine ⟨s.take blsSigLength,?_,hf,?_,rfl⟩
    · rw [length_take,hs]
      rfl
    · rw [getCheckSum,hc,take_append_drop]
  · rintro ⟨sig,hsg,hf,rfl,rfl⟩
    have hi : (sig ++ getCheckSum sha256 f).length-firstPartHashLength = sig.length := by
      rw [length_append,hsm,Nat.add_sub_cancel]
    rw [hi,drop_left,take_left]
    refine ⟨le_refl _,hf,?_,rfl,rfl⟩
    rw [length_append,hsm,hsg]
    rfl

theorem decodeRawCheckpoint_eq_ok {raw : Bytes} :
    decodeRawCheckpoint currentVersion raw = .ok c ↔
      c.WellFormed ∧ raw = firstData c ++ c.blsSig := by
  simp only [decodeRawCheckpoint,ok_iff,splitAt_eq]
  constructor
  · rintro ⟨_,hl,rfl⟩
    have he : (raw.take epochLength).length = epochLength := by
      rw [length_take,hl]
      rfl
    constructor
    · constructor
      · exact readBE_lt he
      all_goals
        simp only [length_take,length_drop,hl]
        rfl
    · have hrs : (raw.drop epochLength |>.drop blockHashLength |>.drop bitMapLength
          |>.drop addressLength).take blsSigLength =
          (raw.drop epochLength |>.drop blockHashLength |>.drop bitMapLength
          |>.drop addressLength) := by
        apply take_of_length_le
        simp only [length_drop,hl]
        decide
      simp only [firstData,u64ToBEBytes,writeBE_readBE he,hrs,append_assoc,take_append_drop]
  · rintro ⟨hc,rfl⟩
    have hl := length_firstData hc
    have hb : (u64ToBEBytes c.epoch).length = epochLength := length_writeBE _ _
    refine ⟨le_refl _,?_,?_⟩
    · rw [length_append,hl,hc.blsSig]
      rfl
    · have hr : readBE (u64ToBEBytes c.epoch) = c.epoch := readBE_writeBE hc.epoch
      simp only [firstData,append_assoc,← hb,← hc.blockHash,← hc.bitMap,
        ← hc.submitterAddress,← hc.blsSig,take_left,drop_left,take_length,hr]

theorem encodeCheckpointData_eq_ok {sha256 : Bytes → Bytes} {tag f s : Bytes}
    (htag : tag.length = tagLength) (hc : c.WellFormed) :
    encodeCheckpointData sha256 tag currentVersion c = .ok (f,s) ↔
      f = encodeHeader tag currentVersion 0 ++ firstData c ∧
        s = encodeHeader tag currentVersion 1 ++ c.blsSig ++ getCheckSum sha256 (firstData c) := by
  have hf : encodeFirstOpRetrun tag currentVersion c.epoch c.blockHash c.bitMap
      c.submitterAddress = encodeHeader tag currentVersion 0 ++ firstData c := by
    simp [encodeFirstOpRetrun,firstData]
  have hd : (encodeHeader tag currentVersion 0 ++ firstData c).drop headerLength =
      firstData c := by rw [← length_encodeHeader htag 0,drop_left]
  simp only [encodeCheckpointData,ok_iff,htag,hc.blockHash,hc.bitMap,hc.blsSig,hc.submitterAddress,
    le_refl,true_and,hf,encodeSecondOpReturn,hd,Prod.mk.injEq]
  constructor
  · rintro ⟨rfl,rfl⟩
    exact ⟨rfl,rfl⟩
  · rintro ⟨rfl,rfl⟩
    exact ⟨rfl,rfl⟩

theorem encode_wellFormed (sha256 : Bytes → Bytes) {tag : Bytes}
    (htag : tag.length = tagLength) (hc : c.WellFormed) :
    ∃ f s, encodeCheckpointData sha256 tag currentVersion c = .ok (f,s) :=
  ⟨_,_,(encodeCheckpointData_eq_ok htag hc).mpr ⟨rfl,rfl⟩⟩

section

variable {sha256 : Bytes → Bytes} {tag : Bytes} (hsha : ∀ b, (sha256 b).length = 32)
  (htag : tag.length = tagLength)

include hsha htag

/-- The pipeline accepts a pair of payloads exactly when it is the encoding of what it reads. -/
theorem readParts_eq_ok {f s : Bytes} {c : RawBtcCheckpoint} :
    readParts sha256 tag f s = .ok c ↔
      c.WellFormed ∧ encodeCheckpointData sha256 tag currentVersion c = .ok (f,s) := by
  simp only [readParts,bind_eq_ok,getCheckpointData_eq_ok htag (Nat.zero_le 1),
    getCheckpointData_eq_ok htag (Nat.le_refl 1),connectParts_eq_ok hsha,decodeRawCheckpoint_eq_ok]
  constructor
  · rintro ⟨first,⟨rfl,hf⟩,second,⟨rfl,_⟩,raw,⟨sig,_,_,rfl,rfl⟩,hc,hr⟩
    -- both parts have fixed lengths, so the joined bytes split in one way only
    have hl : first.length = (firstData c).length := by rw [hf,length_firstData hc]
    obtain ⟨rfl,rfl⟩ := append_inj hr hl
    refine ⟨hc,(encodeCheckpointData_eq_ok htag hc).mpr ⟨rfl,?_⟩⟩
    rw [append_assoc]
  · rintro ⟨hc,he⟩
    obtain ⟨rfl,rfl⟩ := (encodeCheckpointData_eq_ok htag hc).mp he
    have hs : (getCheckSum sha256 (firstData c)).length = firstPartHashLength := by
      simp [getCheckSum,hsha,firstPartHashLength]
    have hf := length_firstData hc
    refine ⟨firstData c,⟨rfl,hf⟩,c.blsSig ++ getCheckSum sha256 (firstData c),⟨?_,?_⟩,_,
      ⟨c.blsSig,hc.blsSig,hf,rfl,rfl⟩,hc,rfl⟩
    · rw [append_assoc]
    · rw [length_append,hs,hc.blsSig]
      rfl

theorem encode_injective {c d : RawBtcCheckpoint} {p : Bytes × Bytes} (hc : c.WellFormed)
    (hd : d.WellFormed) (hcp : encodeCheckpointData sha256 tag currentVersion c = .ok p)
    (hdp : encodeCheckpointData sha256 tag currentVersion d = .ok p) : c = d := by
  have h₁ := (readParts_eq_ok hsha htag).mpr ⟨hc,hcp⟩
  have h₂ := (readParts_eq_ok hsha htag).mpr ⟨hd,hdp⟩
  exact Except.ok.inj (h₁.symm.trans h₂)

/-- The first payload of one checkpoint is read together with the second payload of another
exactly when the checksums of their first parts agree. -/
theorem readParts_mixed {c d : RawBtcCheckpoint} {f s f' s' : Bytes} (hc : c.WellFormed)
    (hd : d.WellFormed) (hcf : encodeCheckpointData sha256 tag currentVersion c = .ok (f,s))
    (hdf : encodeCheckpointData sha256 tag currentVersion d = .ok (f',s')) :
    (∃ r, readParts sha256 tag f s' = .ok r) ↔
      getCheckSum sha256 (f.drop headerLength) = getCheckSum sha256 (f'.drop headerLength) := by
  obtain ⟨rfl,rfl⟩ := (encodeCheckpointData_eq_ok htag hc).mp hcf
  obtain ⟨rfl,rfl⟩ := (encodeCheckpointData_eq_ok htag hd).mp hdf
  have hh := length_encodeHeader htag 0
  rw [← hh,drop_left,drop_left]
  constructor
  · rintro ⟨r,hr⟩
    obtain ⟨hw,he⟩ := (readParts_eq_ok hsha htag).mp hr
    obtain ⟨hf,hs⟩ := (encodeCheckpointData_eq_ok htag hw).mp he
    have hfr : firstData c = firstData r := append_cancel_left hf
    rw [append_assoc,append_assoc] at hs
    have hsc := append_cancel_left hs
    have hl : d.blsSig.length = r.blsSig.length := by rw [hd.blsSig,hw.blsSig]
    rw [hfr]
    exact (append_inj hsc hl).2.symm
  · intro hsm
    refine ⟨{ c with blsSig := d.blsSig },(readParts_eq_ok hsha htag).mpr ?_⟩
    have hw : RawBtcCheckpoint.WellFormed { c with blsSig := d.blsSig } :=
      { hc with blsSig := hd.blsSig }
    refine ⟨hw,(encodeCheckpointData_eq_ok htag hw).mpr ⟨rfl,?_⟩⟩
    rw [← hsm]
    rfl

end

/-- What is encoded is read back, checkpoints and accepted pairs of payloads correspond one to one,
and payloads of different checkpoints go together only on a collision of the truncated hashes. -/
theorem checkpoint_wire_format (sha256 : Bytes → Bytes) (hsha : ∀ b, (sha256 b).length = 32)
    (tag : Bytes) (htag : tag.length = tagLength) :
    (∀ c : RawBtcCheckpoint, c.WellFormed →
      ∃ f s, encodeCheckpointData sha256 tag currentVersion c = .ok (f,s) ∧
        readParts sha256 tag f s = .ok c) ∧
    (∀ f s c, readParts sha256 tag f s = .ok c →
      c.WellFormed ∧ encodeCheckpointData sha256 tag currentVersion c = .ok (f,s)) ∧
    Set.BijOn (encodeCheckpointData sha256 tag currentVersion)
      {c | c.WellFormed} {r | ∃ f s c, r = .ok (f,s) ∧ readParts sha256 tag f s = .ok c} ∧
    ∀ (c d : RawBtcCheckpoint) (f s f' s' : Bytes), c.WellFormed → d.WellFormed →
      encodeCheckpointData sha256 tag currentVersion c = .ok (f,s) →
      encodeCheckpointData sha256 tag currentVersion d = .ok (f',s') →
      ((∃ r, readParts sha256 tag f s' = .ok r) ↔
        getCheckSum sha256 (f.drop headerLength) = getCheckSum sha256 (f'.drop headerLength)) := by
  refine ⟨fun c hc => ?_,fun f s c h => (readParts_eq_ok hsha htag).mp h,⟨?_,?_,?_⟩,
    fun c d f s f' s' hc hd hcf hdf => readParts_mixed hsha htag hc hd hcf hdf⟩
  · obtain ⟨f,s,he⟩ := encode_wellFormed sha256 htag hc
    exact ⟨f,s,he,(readParts_eq_ok hsha htag).mpr ⟨hc,he⟩⟩
  · intro c hc
    obtain ⟨f,s,he⟩ := encode_wellFormed sha256 htag hc
    exact ⟨f,s,c,he,(readParts_eq_ok hsha htag).mpr ⟨hc,he⟩⟩
  · intro c hc d hd heq
    obtain ⟨f,s,he⟩ := encode_wellFormed sha256 htag hd
    exact encode_injective hsha htag hc hd (heq.trans he) he
  · rintro r ⟨f,s,c,rfl,hr⟩
    obtain ⟨hc,he⟩ := (readParts_eq_ok hsha htag).mp hr
    exact ⟨c,hc,he⟩

theorem checkpoint_wire_format_zero :
    readParts (fun _ => List.replicate 32 0) [1,2,3,4]
        ([1,2,3,4,0] ++ writeBE 8 7 ++ List.replicate 65 9)
        ([1,2,3,4,16] ++ List.replicate 48 5 ++ List.replicate 10 0) =
      .ok ⟨7,List.replicate 32 9,List.replicate 13 9,List.replicate 20 9,List.replicate 48 5⟩ := by
  obtain ⟨hr, -⟩ := checkpoint_wire_format (fun _ => replicate 32 0) (fun _ => by simp)
    [1,2,3,4] rfl
  obtain ⟨f,s,he,ho⟩ := hr ⟨7,replicate 32 9,replicate 13 9,
    replicate 20 9,replicate 48 5⟩ ⟨by decide,rfl,rfl,rfl,rfl⟩
  obtain ⟨rfl,rfl⟩ : f = _ ∧ s = _ := Prod.mk.inj (Except.ok.inj he).symm
  exact ho

end AnonChain.BtcTxFormatter
