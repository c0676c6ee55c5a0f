import AnonChain.FinalitySubmitter
import AnonChain.Safety.EotsSigning

/-! Randomness and proofs are fetched for consecutive heights and matched with the blocks by
position. -/

namespace AnonChain.FinalitySubmitter

open Lib EotsManager List Option

variable {E : Env}

theorem ask_eq_ok {α : Type} {call : Manager E α} {disk : Disk E} {a : α}
    (h : ask call disk = some (.ok a)) : ∃ t, Call.run call disk = some (.ok a,t) := by
  unfold ask at h
  match hr : Call.run call disk with
  | some (r,t) =>
    rw [hr] at h
    exact ⟨t,congrArg (fun r => some (r,t)) (some.inj h)⟩
  | none =>
    rw [hr] at h
    cases h

theorem mapError_eq_ok {α : Type} {x : Rpc α} {f : Failure → Failure} {a : α} :
    x.mapError f = some (.ok a) ↔ x = some (.ok a) := by
  match x with
  | some (.ok b) => exact Iff.rfl
  | some (.error e) =>
    constructor
    · intro h
      cases some.inj h
    · intro h
      cases some.inj h
  | none =>
    constructor
    · intro h
      cases h
    · intro h
      cases h

theorem rpc_bind_eq_ok {α β : Type} {x : Rpc α} {k : α → Rpc β} {b : β}
    (h : (x >>= k) = some (.ok b)) : ∃ a, x = some (.ok a) ∧ k a = some (.ok b) := by
  match x, h with
  | some (.ok a), h => exact ⟨a,rfl,h⟩

def newBlocks (lastVotedHeight : Uint64) (blocks : List BlockDescription) : List BlockDescription :=
  blocks.filter fun b => lastVotedHeight < b.height

theorem filterLoop_power {hasPower : Uint64 → Result Bool} {last : Uint64}
    {blocks processed : List BlockDescription}
    {flag power : Bool} (h : filterLoop hasPower last blocks flag = .ok (processed,power)) :
    processed = (newBlocks last blocks).filter (fun b => (hasPower b.height).toOption = some true) ∧
      (newBlocks last blocks = [] → power = flag) ∧
      ∀ b, (newBlocks last blocks).getLast? = some b → hasPower b.height = .ok power := by
  induction blocks generalizing flag processed with
  | nil =>
    cases h
    simp [newBlocks]
  | cons blk blocks ih =>
    by_cases hle : blk.height ≤ last
    · have hold : newBlocks last (blk :: blocks) = newBlocks last blocks := by simp [newBlocks,hle]
      rw [filterLoop,if_pos hle] at h
      rw [hold]
      exact ih h
    · have hn : newBlocks last (blk :: blocks) = blk :: newBlocks last blocks := by
        simp [newBlocks,not_le.mp hle]
      simp only [filterLoop,if_neg hle,ok_iff] at h
      obtain ⟨answer,ha,⟨rest,f⟩,hr,he⟩ := h
      cases he
      obtain ⟨hp,hnn,hls⟩ := ih hr
      rw [hn]
      refine ⟨?_,by simp,?_⟩
      · cases answer <;> simp [ha,hp,Except.toOption]
      · intro b hb
        rw [getLast?_cons] at hb
        cases hl : (newBlocks last blocks).getLast? with
        | none =>
          simp only [hl,getD_none,some.injEq] at hb
          rw [← hb,ha,hnn (getLast?_eq_none_iff.mp hl)]
        | some b' =>
          simp only [hl,getD_some,some.injEq] at hb
          exact hb ▸ hls b' hl

theorem filterLoop_spec {hasPower : Uint64 → Result Bool} {last : Uint64}
    {blocks kept : List BlockDescription} {flag flag' : Bool}
    (h : filterLoop hasPower last blocks flag = .ok (kept,flag')) :
    kept.Sublist blocks ∧
      ∀ b, b ∈ kept ↔ b ∈ blocks ∧ last < b.height ∧ hasPower b.height = .ok true := by
  rw [(filterLoop_power h).1]
  refine ⟨filter_sublist.trans filter_sublist,fun b => ?_⟩
  cases hb : hasPower b.height <;> simp [newBlocks,hb,Except.toOption,and_comm,and_left_comm]

def heightAt (start : Uint64) (i : Nat) : Uint64 := start+Fin.ofNat _ i

theorem heightAt_zero (start : Uint64) : heightAt start 0 = start := by simp [heightAt]

theorem heightAt_succ (start : Uint64) (i : Nat) : heightAt (start+1) i = heightAt start (i+1) := by
  have ho : (1 : Uint64).val = 1 := rfl
  apply Fin.ext
  simp only [heightAt,Fin.val_add,Fin.ofNat_eq_cast,Fin.val_natCast,ho]
  omega

theorem buildKeys_eq (chainID pk : Bytes) (num : Nat) (start : Uint64) :
    buildKeys chainID pk 1 num start =
      (List.range num).map (fun i => getKey chainID pk (heightAt start i)) := by
  induction num generalizing start with
  | zero => rfl
  | succ _ ih =>
    rw [buildKeys,ih,List.range_succ_eq_map,map_cons,List.map_map,heightAt_zero]
    congr 1
    refine map_congr_left fun i _ => ?_
    rw [heightAt_succ]
    rfl

section

variable {start : Uint64} {num : Nat} {d : ZMod E.curve.n} {chainID : Bytes}

def PubRandAt (d : ZMod E.curve.n) (chainID : Bytes) (height : Uint64) (x : Nat) : Prop :=
  ∃ k, generateRandomness E (serialize E d) chainID height = some k ∧ x = pubRandOf E k

theorem getRandomnessPair_run {disk t : Disk E} {p : ZMod E.curve.n × Nat}
    (hr : Call.run (getRandomnessPair d chainID start) disk = some (.ok p,t)) :
    t = disk ∧ PubRandAt d chainID start p.2 := by
  unfold getRandomnessPair at hr
  split at hr
  case h_1 k hk =>
    obtain ⟨hp,rfl⟩ := Prod.mk.inj (some.inj hr)
    rw [← Except.ok.inj hp]
    exact ⟨rfl,k,hk,rfl⟩
  case h_2 => cases hr

theorem randomnessFrom_places {disk t : Disk E} {l : List Nat}
    (h : Call.run (randomnessFrom d chainID num start) disk = some (.ok l,t)) :
    l.length = num ∧ ∀ i x, l[i]? = some x → PubRandAt d chainID (heightAt start i) x := by
  induction num generalizing start l disk t with
  | zero =>
    obtain ⟨hl, -⟩ := Prod.mk.inj (some.inj h)
    rw [← Except.ok.inj hl]
    simp
  | succ _ ih =>
    obtain ⟨p,s,hp,h⟩ := Call.run_bind_eq_ok h
    obtain ⟨l',s',hl',h⟩ := Call.run_bind_eq_ok h
    obtain ⟨hl, -⟩ := Prod.mk.inj (some.inj h)
    obtain ⟨hln,hpl⟩ := ih hl'
    rw [← Except.ok.inj hl]
    refine ⟨by rw [length_cons,hln],fun i x hx => ?_⟩
    cases i with
    | zero =>
      cases hx
      rw [heightAt_zero]
      exact (getRandomnessPair_run hp).2
    | succ i =>
      rw [← heightAt_succ]
      exact hpl i x hx

end

variable {blocks : List BlockDescription} {req : SubmitBatchFinalitySigsRequest E}
  {ds : Submitter E} {st : FinalityProviderState}

/-- The message carries what belongs to the height of its block: the randomness and a signature of
the EOTS manager, and the stored proof. -/
structure Carries (ds : Submitter E) (a : Attempt E)
    (m : BlockDescription × Nat × Bytes × ZMod E.curve.n) : Prop where
  pubRand : getPubRandList ds a m.1.height 1 = some (.ok [m.2.1])
  proof : a.proofs.get (getKey ds.chainID ds.btcPk m.1.height) = some m.2.2.1
  sig : ∃ req resp, ask (signBatchEOTS ⟨ds.btcPk,ds.chainID,req⟩) a.signDisk = some (.ok resp) ∧
    ⟨m.1.msgToSign,m.1.height⟩ ∈ req ∧ ⟨m.2.2.2,m.1.height⟩ ∈ resp

def regtest : Env where
  curve := Regtest.curve
  hashes := Regtest.hashes
  hmac _ m := writeBE 32 ((m.getD 7 0).val%4+1)

def regtestDisk : Disk regtest :=
  ⟨KVStore.empty.set (writeBE 32 3) "key",.empty,fun _ => .ok regtestSecret⟩

def regtestSubmitter (hasPower : Uint64 → Result Bool) : Submitter regtest where
  btcPk := writeBE 32 3
  chainID := []
  maxSubmissionRetries := 0
  hasPower := hasPower
  isFailedPrecondition _ := false
  isUnrecoverable _ := false
  isExpected _ := false
  attempts _ :=
    { randDisk := regtestDisk
      proofs := ((KVStore.empty.set (getKey [] (writeBE 32 3) 1) [1]).set
        (getKey [] (writeBE 32 3) 2) [2]).set (getKey [] (writeBE 32 3) 3) [3]
      signDisk := regtestDisk
      submit := fun _ => .ok "tx"
      finalized := .ok false
      shutDown := false }

def regtestBlocks : List BlockDescription := [⟨1,[1]⟩,⟨2,[2]⟩,⟨3,[3]⟩]

end AnonChain.FinalitySubmitter
