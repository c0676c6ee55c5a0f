import AnonChain.Lib.Rebuild
import AnonChain.RandCommitter
import AnonChain.Safety.VoteRandomness

/-! An attempt overwrites the proofs of its heights before the chain has seen its commitment. -/

namespace AnonChain.RandCommitter

open Lib EotsManager FinalitySubmitter Option
open Finality (MerkleProof)

def PubRandCommit.Covers (c : PubRandCommit) (h : Uint64) : Prop :=
  c.startHeight ≤ h ∧ h.val < c.startHeight.val+c.numPubRand

def Verifies (M : Merkle) (c : PubRandCommit) (h : Uint64) (proof : MerkleProof)
    (pubRand : Nat) : Prop :=
  c.startHeight+Fin.ofNat _ proof.index.toUInt64.toNat = h ∧
    proof.total.toUInt64.toNat = c.numPubRand ∧
    M.verify proof c.commitment (pubRandBytes pubRand) = true

section

variable {E : Env} (M : Merkle) (cfg : Config) (key : ZMod E.curve.n)

/-- The proof stored for a height verifies the randomness of the height against a commitment. -/
def Proven (proofs : KVStore Bytes Bytes) (c : PubRandCommit) (h : Uint64) : Prop :=
  ∃ proofBytes proof pubRand, proofs.get (getKey cfg.chainID cfg.btcPk h) = some proofBytes ∧
    M.unmarshal proofBytes = some proof ∧ PubRandAt key cfg.chainID h pubRand ∧
    Verifies M c h proof pubRand

end

theorem val_heightAt {start : Uint64} {i : Nat} (num : Nat) (hi : i < num)
    (hn : start.val+num ≤ 2^64) : (heightAt start i).val = start.val+i := by
  simp only [heightAt,Fin.val_add,Fin.ofNat_eq_cast,Fin.val_natCast]
  omega

theorem getKey_inj {chainID pk : Bytes} {h h' : Uint64}
    (he : getKey chainID pk h = getKey chainID pk h') : h = h' :=
  uint64ToBigEndian_inj (List.append_cancel_left he)

variable {E : Env} {M : Merkle} {cfg : Config} {key : ZMod E.curve.n}
  {bucket bucket' : KVStore Bytes Bytes} {start : Uint64} {c : PubRandCommit}

theorem keys_nodup (chainID pk : Bytes) {num : Nat} (hn : start.val+num ≤ 2^64) :
    (buildKeys chainID pk 1 num start).Nodup := by
  rw [buildKeys_eq]
  refine List.Nodup.map_on ?_ List.nodup_range
  intro i hi j hj he
  have hv := congrArg Fin.val (getKey_inj he)
  rw [val_heightAt _ (List.mem_range.mp hi) hn,val_heightAt _ (List.mem_range.mp hj) hn] at hv
  omega

theorem addPubRandProofList_spec {proofList : List MerkleProof}
    (hn : start.val+cfg.numPubRand ≤ 2^64)
    (h : addPubRandProofList M cfg bucket start proofList = .ok bucket') :
    (∀ i p, proofList[i]? = some p →
      bucket'.get (getKey cfg.chainID cfg.btcPk (heightAt start i)) = some (M.marshal p)) ∧
    ∀ k, k ∉ buildKeys cfg.chainID cfg.btcPk 1 cfg.numPubRand start →
      bucket'.get k = bucket.get k := by
  simp only [addPubRandProofList,ok_iff] at h
  obtain ⟨hl,rfl⟩ := h
  have hl' : (buildKeys cfg.chainID cfg.btcPk 1 cfg.numPubRand start).length =
      (proofList.map M.marshal).length := by
    rw [hl,List.length_map]
  have hky : ((buildKeys cfg.chainID cfg.btcPk 1 cfg.numPubRand start).zip
      (proofList.map M.marshal)).map Prod.fst =
      buildKeys cfg.chainID cfg.btcPk 1 cfg.numPubRand start := List.map_fst_zip (Nat.le_of_eq hl')
  have hw := KVStore.writesAt_set (Prod.fst : Bytes × Bytes → Bytes) Prod.snd
  refine ⟨fun i p hp => ?_,fun k hk => hw.foldl_elsewhere (by rw [hky]; exact hk)⟩
  have hi : i < cfg.numPubRand := by
    have hlt := (List.getElem?_eq_some_iff.mp hp).1
    rw [buildKeys_eq,List.length_map,List.length_range] at hl
    omega
  have hm : (getKey cfg.chainID cfg.btcPk (heightAt start i),M.marshal p) ∈
      (buildKeys cfg.chainID cfg.btcPk 1 cfg.numPubRand start).zip (proofList.map M.marshal) := by
    refine List.mem_of_getElem? (i := i) ?_
    rw [List.getElem?_zip_eq_some,buildKeys_eq]
    simp [hi,hp]
  exact hw.foldl_here (by rw [hky]; exact keys_nodup _ _ hn) hm

theorem commit_spec {disk : Disk E} (hn : start.val+cfg.numPubRand ≤ 2^64)
    (hk : ∀ d t, Call.run (eotsPrivKey cfg.btcPk) disk = some (.ok d,t) → d = key)
    (h : commit M cfg disk bucket start = some (.ok (bucket',c))) :
    c.startHeight = start ∧ c.numPubRand = cfg.numPubRand ∧
      (∀ h, c.Covers h → Proven M cfg key bucket' c h) ∧
      ∀ h, ¬ c.Covers h → bucket'.get (getKey cfg.chainID cfg.btcPk h) =
        bucket.get (getKey cfg.chainID cfg.btcPk h) := by
  obtain ⟨l,hl,h⟩ := rpc_bind_eq_ok h
  obtain ⟨b,hb,h⟩ := rpc_bind_eq_ok h
  obtain ⟨rfl,rfl⟩ := Prod.mk.inj (Except.ok.inj (some.inj h))
  obtain ⟨t,hr⟩ := ask_eq_ok (mapError_eq_ok.mp hl)
  obtain ⟨d,s,hd,hr⟩ := Call.run_bind_eq_ok hr
  obtain rfl := hk d s hd
  obtain ⟨hln,hpl⟩ := randomnessFrom_places hr
  obtain ⟨hst,he⟩ := addPubRandProofList_spec hn (Result.wrap_eq_ok.mp (some.inj hb))
  have hs : (l.map pubRandBytes).length < 2^32 := by
    rw [List.length_map,hln]
    exact cfg.numPubRand_lt
  refine ⟨rfl,hln,?_,?_⟩
  · intro h hc
    obtain ⟨hlo,hh⟩ := hc
    -- the place of the height in the range
    obtain ⟨i,hi,rfl⟩ : ∃ i, i < cfg.numPubRand ∧ h = heightAt start i := by
      have hle : start.val ≤ h.val := hlo
      have hlt : h.val < start.val+l.length := hh
      refine ⟨h.val-start.val,by omega,Fin.ext ?_⟩
      rw [val_heightAt cfg.numPubRand (by omega) hn]
      omega
    have hil : i < l.length := by omega
    obtain ⟨p,hp⟩ : ∃ p, (M.proofsFromByteSlices (l.map pubRandBytes)).2[i]? = some p := by
      have hpn := M.length_proofs (l.map pubRandBytes)
      rw [List.length_map] at hpn
      exact ⟨_,List.getElem?_eq_getElem (by omega)⟩
    obtain ⟨hin,ht⟩ := M.proof_index _ hs i p hp
    have hlf : (l.map pubRandBytes)[i]? = some (pubRandBytes l[i]) := by simp [hil]
    have hby : ∀ b ∈ l.map pubRandBytes, b.length = SchnorrPubRandLen := by
      intro b hb
      obtain ⟨x, -,rfl⟩ := List.mem_map.mp hb
      exact length_writeBE _ _
    refine ⟨M.marshal p,p,l[i],hst i p hp,?_,hpl i _ (List.getElem?_eq_getElem hil),?_,?_,?_⟩
    · exact M.unmarshal_marshal _ hs p (List.mem_of_getElem? hp)
    · rw [hin]
      rfl
    · rw [ht,List.length_map]
    · exact M.proof_verifies _ hs hby i p _ hp hlf
  · intro h hc
    refine he _ fun hm => hc ?_
    rw [buildKeys_eq] at hm
    obtain ⟨i,hi,heq⟩ := List.mem_map.mp hm
    have hv := val_heightAt _ (List.mem_range.mp hi) hn
    rw [getKey_inj heq] at hv
    have hi := List.mem_range.mp hi
    refine ⟨?_,?_⟩
    · change start.val ≤ h.val
      omega
    · change h.val < start.val+l.length
      omega

theorem getEndHeight_val (hp : 0 < c.numPubRand) (hl : c.startHeight.val+c.numPubRand < 2^64) :
    c.getEndHeight.val = c.startHeight.val+c.numPubRand-1 := by
  have ho : (1 : Uint64).val = 1 := rfl
  simp only [PubRandCommit.getEndHeight,Fin.val_sub,Fin.val_add,Fin.ofNat_eq_cast,
    Fin.val_natCast,ho]
  omega

/-- An attempt is made with nothing in flight and from the last accepted commitment, and its range
stays below the largest machine word. -/
def Fresh (cfg : Config) (s : State) : Action E → Prop
  | .attempt a =>
    s.pending = [] ∧ (∀ last, a.last = .ok last → last = s.accepted.getLast?) ∧
      (∀ tip, a.tip = .ok tip →
        tip.val+cfg.timestampingDelayBlocks.toNat+2*cfg.numPubRand < 2^64) ∧
      ∀ activation, a.activation = .ok activation → activation.val+cfg.numPubRand < 2^64
  | _ => True

theorem shouldCommit_spec {last : Option PubRandCommit} {tip activation : Uint64}
    (ht : tip.val+cfg.timestampingDelayBlocks.toNat+2*cfg.numPubRand < 2^64)
    (ha : activation.val+cfg.numPubRand < 2^64)
    (h : shouldCommit cfg (.ok last) (.ok tip) (.ok activation) = .ok (some start)) :
    (∀ c ∈ last, c.getEndHeight < start) ∧ start.val+cfg.numPubRand < 2^64 := by
  have ho : (1 : Uint64).val = 1 := rfl
  simp only [shouldCommit,ok_iff,Except.ok.injEq,exists_eq_left'] at h
  obtain ⟨-,h⟩ := h
  generalize he : ((last.map PubRandCommit.getEndHeight).getD 0 : Uint64) = lastEnd at h
  have hd : (tip+Fin.ofNat (2^64) cfg.timestampingDelayBlocks.toNat : Uint64).val =
      tip.val+cfg.timestampingDelayBlocks.toNat := by
    simp only [Fin.val_add,Fin.ofNat_eq_cast,Fin.val_natCast]
    omega
  generalize hw : (tip+Fin.ofNat (2^64) cfg.timestampingDelayBlocks.toNat : Uint64) = wait at h hd
  have hn : (wait+Fin.ofNat (2^64) cfg.numPubRand : Uint64).val = wait.val+cfg.numPubRand := by
    simp only [Fin.val_add,Fin.ofNat_eq_cast,Fin.val_natCast]
    omega
  have hs : ∀ x : Uint64, lastEnd < x → x.val+cfg.numPubRand < 2^64 → max x activation = start →
      lastEnd < start ∧ start.val+cfg.numPubRand < 2^64 := by
    rintro x hx hxn rfl
    refine ⟨lt_of_lt_of_le hx (le_max_left x activation),?_⟩
    rcases max_choice x activation with hm | hm
    · rw [hm]
      exact hxn
    · rw [hm]
      exact ha
  have hg : lastEnd < start ∧ start.val+cfg.numPubRand < 2^64 := by
    split at h
    case h_1 => cases h
    case h_2 x hx =>
      simp only [ok_iff,Except.ok.injEq,exists_eq_left',some.injEq] at h
      refine hs x ?_ ?_ h
      · split at hx
        · cases hx
          assumption
        · split at hx
          · rename_i hl
            cases hx
            have hl : lastEnd.val < (wait+Fin.ofNat (2^64) cfg.numPubRand : Uint64).val := hl
            change lastEnd.val < (lastEnd+1).val
            omega
          · cases hx
      · split at hx
        · cases hx
          omega
        · split at hx
          · rename_i hl
            cases hx
            have hl : lastEnd.val < (wait+Fin.ofNat (2^64) cfg.numPubRand : Uint64).val := hl
            omega
          · cases hx
  refine ⟨fun c hc => ?_,hg.2⟩
  rw [mem_def.mp hc,map_some,getD_some] at he
  rw [he]
  exact hg.1

structure Matched (M : Merkle) (cfg : Config) (key : ZMod E.curve.n) (s : State) : Prop where
  proven : ∀ c ∈ s.accepted ++ s.pending, ∀ h, c.Covers h → Proven M cfg key s.proofs c h
  bounded : ∀ c ∈ s.accepted, 0 < c.numPubRand ∧ c.startHeight.val+c.numPubRand < 2^64
  last : ∀ c ∈ s.accepted, ∀ l ∈ s.accepted.getLast?, c.getEndHeight ≤ l.getEndHeight

variable {s s' : State}

theorem Proven.congr {h : Uint64} (hp : Proven M cfg key bucket c h)
    (he : bucket'.get (getKey cfg.chainID cfg.btcPk h) =
      bucket.get (getKey cfg.chainID cfg.btcPk h)) :
    Proven M cfg key bucket' c h := by
  obtain ⟨proofBytes,proof,pubRand,hg,hr⟩ := hp
  exact ⟨proofBytes,proof,pubRand,he.trans hg,hr⟩

theorem Matched.attempt {a : Attempt E} (hm : Matched M cfg key s)
    (ha : Answers cfg key s (.attempt a))
    (hf : Fresh cfg s (.attempt a)) (hs : s.next M cfg (.attempt a) = some s') :
    Matched M cfg key s' := by
  obtain ⟨hp,hlt,htp,hac⟩ := hf
  simp only [State.next] at hs
  split at hs
  case h_2 => exact some.inj hs ▸ hm
  case h_1 start hsl =>
    split at hs
    case h_2 => exact some.inj hs ▸ hm
    case h_1 proofs c hcm =>
      cases hs
      -- all three queries were answered
      have hal := hsl
      simp only [shouldCommit,bind_eq_ok,Result.wrap_eq_ok] at hal
      obtain ⟨last,hl,tip,ht,hal⟩ := hal
      have hat : ∃ activation, a.activation = .ok activation := by
        obtain ⟨-, -,hal⟩ := hal
        split at hal
        · cases hal
        · simp only [bind_eq_ok,Result.wrap_eq_ok] at hal
          obtain ⟨activation,hac, -⟩ := hal
          exact ⟨activation,hac⟩
      obtain ⟨activation,hat⟩ := hat
      rw [hl,ht,hat] at hsl
      obtain ⟨hab,hnm⟩ := shouldCommit_spec (htp tip ht) (hac activation hat) hsl
      obtain ⟨hst,hln,hpr,he⟩ := commit_spec (Nat.le_of_lt hnm) ha.2 hcm
      rw [hlt last hl] at hab
      have hold : ∀ d ∈ s.accepted, ∀ h, d.Covers h → Proven M cfg key proofs d h := by
        intro d hd h hc
        refine (hm.proven d (List.mem_append_left _ hd) h hc).congr (he h fun hn => ?_)
        -- the range of the attempt lies after every accepted one
        obtain ⟨l,hl⟩ : ∃ l, s.accepted.getLast? = some l :=
          ⟨_,List.getLast?_eq_some_getLast (List.ne_nil_of_mem hd)⟩
        have hdl : d.getEndHeight.val ≤ l.getEndHeight.val := hm.last d hd l hl
        have hls : l.getEndHeight.val < start.val := hab l hl
        have hsh : c.startHeight.val ≤ h.val := hn.1
        have hdh := hc.2
        rw [getEndHeight_val (hm.bounded d hd).1 (hm.bounded d hd).2] at hdl
        rw [hst] at hsh
        omega
      refine ⟨?_,hm.bounded,hm.last⟩
      intro d hd
      rcases List.mem_append.mp hd with hd | hd
      · exact hold d hd
      · rw [hp] at hd
        split at hd
        · rw [List.mem_singleton.mp hd]
          exact hpr
        · cases hd

theorem Matched.accept {i : Nat} (hm : Matched M cfg key s)
    (hs : s.next M cfg (.accept i : Action E) = some s') : Matched M cfg key s' := by
  simp only [State.next] at hs
  split at hs
  case h_2 => cases hs
  case h_1 c hc =>
    rw [ite_none_right_eq_some,some.injEq] at hs
    obtain ⟨⟨hp,hb,ha⟩,rfl⟩ := hs
    refine ⟨?_,?_,?_⟩
    · intro d hd
      refine hm.proven d ?_
      rcases List.mem_append.mp hd with hd | hd
      · rcases List.mem_append.mp hd with hd | hd
        · exact List.mem_append_left _ hd
        · rw [List.mem_singleton.mp hd]
          exact List.mem_append_right _ (List.mem_of_getElem? hc)
      · exact List.mem_append_right _ (List.mem_of_mem_eraseIdx hd)
    · intro d hd
      rcases List.mem_append.mp hd with hd | hd
      · exact hm.bounded d hd
      · rw [List.mem_singleton.mp hd]
        exact ⟨hp,hb⟩
    · intro d hd l hl
      rw [List.getLast?_append_of_ne_nil _ (by simp),List.getLast?_singleton,mem_some_iff] at hl
      subst hl
      rcases List.mem_append.mp hd with hd | hd
      · obtain ⟨l,hl⟩ : ∃ l, s.accepted.getLast? = some l :=
          ⟨_,List.getLast?_eq_some_getLast (List.ne_nil_of_mem hd)⟩
        have hdl : d.getEndHeight.val ≤ l.getEndHeight.val := hm.last d hd l hl
        have hls : l.getEndHeight.val < c.startHeight.val := ha l hl
        change d.getEndHeight.val ≤ c.getEndHeight.val
        rw [getEndHeight_val hp hb]
        omega
      · rw [List.mem_singleton.mp hd]

theorem stored_proofs_match
    (h : ((system M cfg key).restrict fun s a _ => Fresh cfg s a).Reachable s) :
    ∀ c ∈ s.accepted, ∀ h, c.Covers h → Proven M cfg key s.proofs c h := by
  have hm : Matched M cfg key s := by
    refine System.Reachable.invariant ?_ ?_ h
    · rintro s rfl
      refine ⟨?_,?_,?_⟩
      · intro c hc
        cases hc
      · intro c hc
        cases hc
      · intro c hc
        cases hc
    · intro s a s' _ hm ⟨⟨ha,hs⟩,hf⟩
      cases a with
      | attempt a => exact hm.attempt ha hf hs
      | accept i => exact hm.accept hs
      | reject i =>
        cases hs
        refine ⟨fun c hc => hm.proven c ?_,hm.bounded,hm.last⟩
        rcases List.mem_append.mp hc with hc | hc
        · exact List.mem_append_left _ hc
        · exact List.mem_append_right _ (List.mem_of_mem_eraseIdx hc)
  exact fun c hc => hm.proven c (List.mem_append_left _ hc)

namespace Devnet

theorem take_drop_flatten {items : List Bytes} (h : ∀ b ∈ items, b.length = SchnorrPubRandLen)
    {i : Nat} {leaf : Bytes} (hi : items[i]? = some leaf) :
    (items.flatten.drop (SchnorrPubRandLen*i)).take SchnorrPubRandLen = leaf := by
  induction items generalizing i with
  | nil => cases hi
  | cons b items ih =>
    have hb := h b List.mem_cons_self
    rw [List.flatten_cons]
    cases i with
    | zero =>
      cases hi
      simp [← hb]
    | succ i =>
      have hd : (b ++ items.flatten).drop (SchnorrPubRandLen*(i+1)) =
          items.flatten.drop (SchnorrPubRandLen*i) := by
        have hl : SchnorrPubRandLen*(i+1) = b.length+SchnorrPubRandLen*i := by
          rw [hb,Nat.mul_succ,Nat.add_comm]
        rw [hl,List.drop_append]
        simp
      rw [hd]
      exact ih (fun c hc => h c (List.mem_cons_of_mem b hc)) hi

def proofOf (total i : Nat) : MerkleProof :=
  ⟨(UInt64.ofNat total).toInt64,(UInt64.ofNat i).toInt64,[],[]⟩

def merkle : Merkle where
  proofsFromByteSlices items := (items.flatten,(List.range items.length).map (proofOf items.length))
  marshal p := writeBE 8 p.total.toUInt64.toNat ++ writeBE 8 p.index.toUInt64.toNat
  unmarshal b := some (proofOf (readBE (b.take 8)) (readBE (b.drop 8)))
  verify p root leaf :=
    (root.drop (SchnorrPubRandLen*p.index.toUInt64.toNat)).take SchnorrPubRandLen == leaf
  length_proofs items := by simp
  unmarshal_marshal items hlen p hp := by
    obtain ⟨i,hi,rfl⟩ := List.mem_map.mp hp
    have hi := List.mem_range.mp hi
    have htake : (writeBE 8 items.length ++ writeBE 8 i).take 8 = writeBE 8 items.length :=
      List.take_left' (length_writeBE 8 _)
    have hdrop : (writeBE 8 items.length ++ writeBE 8 i).drop 8 = writeBE 8 i :=
      List.drop_left' (length_writeBE 8 _)
    simp only [proofOf,UInt64.toUInt64_toInt64,UInt64.toNat_ofNat',
      Nat.mod_eq_of_lt (show items.length < 2^64 by omega),
      Nat.mod_eq_of_lt (show i < 2^64 by omega)]
    rw [htake,hdrop,readBE_writeBE (by omega),readBE_writeBE (by omega)]
  proof_index items hlen i p hp := by
    rw [List.getElem?_map,Option.map_eq_some_iff] at hp
    obtain ⟨j,hj,rfl⟩ := hp
    obtain ⟨hi,rfl⟩ := List.getElem?_eq_some_iff.mp hj
    rw [List.length_range] at hi
    simp only [proofOf,UInt64.toUInt64_toInt64,UInt64.toNat_ofNat',List.getElem_range]
    omega
  proof_verifies items hlen hbytes i p leaf hp hleaf := by
    rw [List.getElem?_map,Option.map_eq_some_iff] at hp
    obtain ⟨j,hj,rfl⟩ := hp
    obtain ⟨hi,rfl⟩ := List.getElem?_eq_some_iff.mp hj
    rw [List.length_range] at hi
    have hindex : (proofOf items.length i).index.toUInt64.toNat = i := by
      simp only [proofOf,UInt64.toUInt64_toInt64,UInt64.toNat_ofNat']
      omega
    rw [List.getElem_range,hindex,beq_iff_eq]
    exact take_drop_flatten hbytes hleaf

def env : Env where
  curve := AnonChain.Regtest.curve
  hashes := AnonChain.Regtest.hashes
  hmac _ m := writeBE 32 (readBE (m.take 8)%10+1)

theorem two_lt_uint32 : 2 < 2^32 := by decide

def config : Config where
  btcPk := writeBE 32 3
  chainID := []
  numPubRand := 2
  numPubRand_lt := two_lt_uint32
  timestampingDelayBlocks := 0

def secret : ZMod env.curve.n := regtestSecret

def disk : Disk env := ⟨KVStore.empty.set (writeBE 32 3) "key",.empty,fun _ => .ok secret⟩

theorem disk_key {d : ZMod env.curve.n} {t : Disk env}
    (h : Call.run (eotsPrivKey config.btcPk) disk = some (.ok d,t)) : d = secret := by
  have hr : Call.run (eotsPrivKey config.btcPk) disk = some (.ok secret,disk) := by rfl
  exact (Except.ok.inj (Prod.mk.inj (some.inj h)).1).symm

abbrev provider : System State (Action env) := system merkle config secret

/-- An attempt that is told of no commitment, one that is told of the last, and the fate of the one
transaction in flight. -/
inductive Move where
  | attemptStale (tip : Uint64)
  | attempt (tip : Uint64)
  | accept
  | reject

def toAction (s : State) : Move → Action env
  | .attemptStale tip => .attempt ⟨.ok none,.ok tip,.ok 1,disk,true⟩
  | .attempt tip => .attempt ⟨.ok s.accepted.getLast?,.ok tip,.ok 1,disk,true⟩
  | .accept => .accept 0
  | .reject => .reject 0

def next (s : State) (m : Move) : Option State := s.next merkle config (toAction s m)

def freshNext (s : State) : Move → Option State
  | .attemptStale _ => none
  | .attempt tip => if s.pending = [] ∧ tip.val < 100 then next s (.attempt tip) else none
  | m => next s m

theorem next_step {s s' : State} {m : Move} (h : next s m = some s') :
    provider.step s (toAction s m) s' := by
  refine ⟨?_,h⟩
  cases m with
  | attemptStale _ => exact ⟨fun c hc => (by cases hc),fun _ _ => disk_key⟩
  | attempt _ => exact ⟨fun c hc => List.mem_of_getLast? (Except.ok.inj hc),fun _ _ => disk_key⟩
  | accept => trivial
  | reject => trivial

theorem freshNext_step {s s' : State} {m : Move} (h : freshNext s m = some s') :
    (provider.restrict fun s a _ => Fresh config s a).step s (toAction s m) s' := by
  cases m with
  | attemptStale _ => cases h
  | attempt tip =>
    rw [freshNext,ite_none_right_eq_some] at h
    obtain ⟨⟨hp,htp⟩,hs⟩ := h
    have hn : config.numPubRand = 2 := rfl
    have hd : config.timestampingDelayBlocks.toNat = 0 := rfl
    refine ⟨next_step hs,hp,fun l hl => (Except.ok.inj hl).symm,?_,?_⟩
    · intro t ht
      have he : tip = t := Except.ok.inj ht
      rw [← he]
      omega
    · intro t ht
      have he : 1 = t := Except.ok.inj ht
      rw [← he,hn]
      decide
  | accept => exact ⟨next_step h,trivial⟩
  | reject => exact ⟨next_step h,trivial⟩

def ranges (s : State) : List (Uint64 × Nat) := s.accepted.map fun c => (c.startHeight,c.numPubRand)

end Devnet

open Devnet

theorem proofs_after_two_commits :
    ∃ s, (provider.restrict fun s a _ => Fresh config s a).Reachable s ∧
      ranges s = [(10,2),(12,2)] ∧
      ∀ c ∈ s.accepted, ∀ h, c.Covers h → Proven merkle config secret s.proofs c h := by
  have hrn : (([.attempt 10,.accept,.attempt 11,.accept] : List Move).foldlM freshNext
      ⟨.empty,[],[]⟩).any
      (fun s => ranges s == [(10,2),(12,2)]) = true := by decide +kernel
  obtain ⟨s,hr,ht⟩ :=
    System.Reachable.follow (fun _ _ _ hn => ⟨_,freshNext_step hn⟩) (.init rfl) hrn
  exact ⟨s,hr,beq_iff_eq.mp ht,stored_proofs_match hr⟩

/-- The heights 10 and 11 are committed. The next attempt covers the heights 11 and 12 and is
rejected, and the proof of height 11 is for the first place. -/
theorem stale_attempt_damages_proof :
    ∃ s, provider.Reachable s ∧ ∃ c ∈ s.accepted, c.Covers 11 ∧
      ¬ Proven merkle config secret s.proofs c 11 := by
  have hru : (([.attempt 10,.accept,.attemptStale 11,.reject] : List Move).foldlM next
      ⟨.empty,[],[]⟩).any
      (fun s => ranges s == [(10,2)] &&
        ((s.proofs.get (getKey config.chainID config.btcPk 11)).bind merkle.unmarshal).any
          (fun p => p.index.toUInt64.toNat == 0)) = true := by decide +kernel
  obtain ⟨s,hr,ht⟩ :=
    System.Reachable.follow (fun _ _ _ hn => ⟨_,next_step hn⟩) (.init rfl) hru
  simp only [Bool.and_eq_true,beq_iff_eq,any_eq_true,bind_eq_some_iff] at ht
  obtain ⟨hrn,p,⟨b,hb,hp⟩,hi⟩ := ht
  obtain ⟨c,hc,hrg⟩ : ∃ c ∈ s.accepted, (c.startHeight,c.numPubRand) = (10,2) := by
    rw [← List.mem_map,← ranges,hrn]
    exact List.mem_singleton_self _
  obtain ⟨hs,hnm⟩ := Prod.mk.inj hrg
  refine ⟨s,hr,c,hc,⟨?_,?_⟩,?_⟩
  · rw [hs]
    decide
  · rw [hs,hnm]
    decide
  · rintro ⟨b',p',pubRand,hb',hp', -,hv⟩
    rw [hb'] at hb
    cases hb
    rw [hp'] at hp
    cases hp
    have hh := hv.1
    rw [hs,hi] at hh
    exact absurd hh (by decide)

end AnonChain.RandCommitter
