import AnonChain.Epoching.Calendar
import AnonChain.Lib.Rebuild

/-! The validator sets of the epochs with their totals, and the hashes of the sealing blocks. -/

namespace AnonChain.Epoching

open Lib List KVStore Store
open KVStore (sumBy get₂ get_set forall_set get_set_cases)

def totalPower (set : KVStore Address Int) : Int := set.entries.foldl (fun total v => total+v.2) 0

theorem foldl_add_eq {α : Type} (f : α → Int) (l : List α) (c : Int) :
    l.foldl (fun total a => total+f a) c = c+(l.map f).sum := by
  induction l generalizing c with
  | nil => simp
  | cons a l ih => simp only [foldl_cons,ih,map_cons,sum_cons,Int.add_assoc]

theorem totalPower_eq_sumBy (set : KVStore Address Int) :
    totalPower set = sumBy (fun _ p => p) set := by simp [totalPower,foldl_add_eq,sumBy]

theorem totalPower_set {set : KVStore Address Int} {v : Address} (p : Int) (h : set.get v = none) :
    totalPower (set.set v p) = totalPower set+p := by
  rw [totalPower_eq_sumBy,totalPower_eq_sumBy,sumBy_set_new _ p h,Int.add_comm]

/-- The sets of the epochs `0, …, n` and their totals. -/
structure Store.Records (s : Store) (n : Nat) : Prop where
  future : ∀ m, n < m → s.valSet.sub m = .empty
  powers : ∀ m, s.votingPower.get m = if m ≤ n then some (totalPower (s.valSet.sub m)) else none
  nonneg : ∀ m v p, s.valSet.get₂ m v = some p → 0 ≤ p
  slashed : ∀ m v p, s.slashedValSet.get₂ m v = some p → s.valSet.get₂ m v = some p
  slashedPowers : ∀ m, s.slashedVotingPower.get m =
    if m ≤ n then some (totalPower (s.slashedValSet.sub m)) else none
  lives : s.Lives

namespace Store.Records

variable {s t : Store} {n : Nat}

theorem congr (h : s.Records n) (hv : t.valSet = s.valSet) (hp : t.votingPower = s.votingPower)
    (hs : t.slashedValSet = s.slashedValSet) (hsl : t.slashedVotingPower = s.slashedVotingPower)
    (hl : t.Lives) : t.Records n := by
  refine ⟨?_,?_,?_,?_,?_,hl⟩
  · rw [hv]
    exact h.future
  · rw [hp,hv]
    exact h.powers
  · rw [hv]
    exact h.nonneg
  · rw [hs,hv]
    exact h.slashed
  · rw [hsl,hs]
    exact h.slashedPowers

theorem agree (h : s.Records n) (ha : Agree s t) : t.Records n :=
  h.congr ha.valSet ha.votingPower ha.slashedValSet ha.slashedVotingPower (ha.lives h.lives)

theorem setEpochInfo (h : s.Records n) (i : Nat) (ep : Epoch) : (s.setEpochInfo i ep).Records n :=
  h.congr rfl rfl rfl rfl ⟨h.lives.validators,h.lives.delegations⟩

theorem slashed_future (h : s.Records n) {m : Nat} (hm : n < m) :
    s.slashedValSet.sub m = .empty := by
  refine ext_get fun v => ?_
  cases hg : (s.slashedValSet.sub m).get v with
  | none => rfl
  | some p =>
    have hv := h.slashed m v p hg
    rw [get₂,h.future m hm] at hv
    cases hv

theorem sub_nextEpoch (h : s.Records n) (e : Epoch) (header : Header)
    (last : ValidatorPowers) (m : Nat) :
    (s.nextEpoch n e header last).valSet.sub m =
      if m = n+1 then last.powers else s.valSet.sub m := by
  simp only [Store.nextEpoch,sub_foldl_set₂]
  split
  · rw [h.future (n+1) (by omega)]
    exact foldl_set_entries last.powers
  · rfl

theorem nextEpoch (h : s.Records n) (e : Epoch) (header : Header) (last : ValidatorPowers) :
    (s.nextEpoch n e header last).Records (n+1) := by
  have hs := h.sub_nextEpoch e header last
  refine ⟨?_,?_,?_,?_,?_,⟨h.lives.validators,h.lives.delegations⟩⟩
  · intro m hm
    rw [hs,if_neg (by omega)]
    exact h.future m (by omega)
  · intro m
    rw [hs]
    simp only [Store.nextEpoch,get_set]
    by_cases hm : m = n+1
    · simp [hm,totalPower]
    · have hl : m ≤ n+1 ↔ m ≤ n := by omega
      simp [hm,hl,h.powers m]
  · intro m v p hp
    rw [get₂,hs] at hp
    split at hp
    · exact last.nonneg v p hp
    · exact h.nonneg m v p hp
  · intro m v p hp
    have hold : s.slashedValSet.get₂ m v = some p := hp
    have hv := h.slashed m v p hold
    rw [get₂,hs]
    split
    · rename_i hm
      rw [get₂,hm,h.future (n+1) (by omega)] at hv
      cases hv
    · exact hv
  · intro m
    change (s.slashedVotingPower.set (n+1) 0).get m =
        if m ≤ n+1 then some (totalPower (s.slashedValSet.sub m)) else none
    rw [get_set]
    by_cases hm : m = n+1
    · rw [hm,h.slashed_future (by omega)]
      simp [totalPower,KVStore.empty]
    · have hl : m ≤ n+1 ↔ m ≤ n := by omega
      simp [hm,hl,h.slashedPowers m]

theorem slash (h : s.Records n) {v : Address} {slashed power : Int}
    (hp : s.valSet.get₂ n v = some power)
    (hs : s.slashedVotingPower.get n = some slashed) (hf : s.slashedValSet.get₂ n v = none) :
    Store.Records { s with slashedValSet := s.slashedValSet.set₂ n v power
                           slashedVotingPower := s.slashedVotingPower.set n
                             (slashed+power) } n := by
  refine ⟨h.future,h.powers,h.nonneg,forall_set₂ hp h.slashed,?_,
    ⟨h.lives.validators,h.lives.delegations⟩⟩
  · intro m
    have hold := h.slashedPowers n
    rw [hs,if_pos (Nat.le_refl n)] at hold
    rw [get_set,sub_set₂]
    by_cases hm : m = n
    · rw [if_pos hm,if_pos hm,if_pos (by omega),totalPower_set power hf]
      cases hold
      rfl
    · rw [if_neg hm,if_neg hm]
      exact h.slashedPowers m

end Store.Records

namespace World

variable {R : Type} {k : StakingKeeper R} {w w' : World R} {n n' : Nat}
  {e e' : Epoch} {a : Action R}

/-- No validator is slashed that was slashed in the current epoch before. -/
def SlashedOnce (w : World R) (a : Action R) (_ : World R) : Prop :=
  ∀ v epoch, a = .slash v → w.store.getEpoch = .ok epoch →
    w.store.slashedValSet.get₂ epoch.epochNumber v = none

def DistinctHashes (s : Store) : Prop :=
  ∀ i j ei ej, s.epochInfo.get i = some ei → s.epochInfo.get j = some ej → ei.sealerBlockHash ≠ [] →
    ei.sealerBlockHash = ej.sealerBlockHash → i = j

structure Recorded (w : World R) (n : Nat) : Prop where
  records : w.store.Records n
  hashes : DistinctHashes w.store
  fresh : w.phase = .started → ∀ i ep, w.store.epochInfo.get i = some ep →
    ep.sealerBlockHash ≠ w.header.hash
  powers : w.phase ≠ .idle → w.staking.lastValidatorPowers.powers.entries ≠ []
  members : w.header.height ≠ 0 ∨ w.staking.lastValidatorPowers.powers.entries ≠ [] →
    ∀ m, m ≤ n → (w.store.valSet.sub m).entries ≠ []

theorem DistinctHashes.set {s : Store} {i : Nat} {ep : Epoch} (h : DistinctHashes s) (ep' : Epoch)
    (hg : s.epochInfo.get i = some ep) (hhs : ep'.sealerBlockHash = ep.sealerBlockHash) :
    DistinctHashes (s.setEpochInfo i ep') := by
  have hr : ∀ j ej, (s.setEpochInfo i ep').epochInfo.get j = some ej →
      ∃ e₀, s.epochInfo.get j = some e₀ ∧ e₀.sealerBlockHash = ej.sealerBlockHash := by
    exact forall_set ⟨ep,hg,hhs.symm⟩ fun _ ej hj => ⟨ej,hj,rfl⟩
  intro i' j ei ej hi hj hn he
  obtain ⟨e₁,h₁,hh₁⟩ := hr i' ei hi
  obtain ⟨e₂,h₂,hh₂⟩ := hr j ej hj
  exact h i' j e₁ e₂ h₁ h₂ (hh₁ ▸ hn) (by rw [hh₁,hh₂,he])

theorem DistinctHashes.seal {s : Store} {i : Nat} {ep' : Epoch} (h : DistinctHashes s)
    (hf : ∀ j ej, s.epochInfo.get j = some ej → ej.sealerBlockHash ≠ ep'.sealerBlockHash) :
    DistinctHashes (s.setEpochInfo i ep') := by
  intro j j' ej ej' hj hj' hn he
  rcases get_set_cases hj with ⟨rfl,rfl⟩ | ⟨_,hold⟩
  · rcases get_set_cases hj' with ⟨rfl,_⟩ | ⟨_,hj'⟩
    · rfl
    · exact absurd he.symm (hf j' ej' hj')
  · rcases get_set_cases hj' with ⟨_,rfl⟩ | ⟨_,hj'⟩
    · exact absurd he (hf j ej hold)
    · exact h j j' ej ej' hold hj' hn he

theorem DistinctHashes.congr {s t : Store} (h : DistinctHashes s) (hi : t.epochInfo = s.epochInfo) :
    DistinctHashes t := by
  unfold DistinctHashes
  rw [hi]
  exact h

theorem DistinctHashes.nextEpoch {s : Store} (hc : s.Calendar n e) (h : DistinctHashes s)
    (header : Header) (last : ValidatorPowers) : DistinctHashes (s.nextEpoch n e header last) := by
  have hr : ∀ j ej, (s.nextEpoch n e header last).epochInfo.get j = some ej →
      ej.sealerBlockHash ≠ [] →
      ∃ e₀, s.epochInfo.get j = some e₀ ∧ e₀.sealerBlockHash = ej.sealerBlockHash := by
    exact forall_set (fun _ => ⟨e,hc.current,rfl⟩)
      (forall_set (fun hn => absurd rfl hn) fun _ ej hj _ => ⟨ej,hj,rfl⟩)
  intro i j ei ej hi hj hn he
  obtain ⟨e₁,h₁,hh₁⟩ := hr i ei hi hn
  obtain ⟨e₂,h₂,hh₂⟩ := hr j ej hj (he ▸ hn)
  exact h i j e₁ e₂ h₁ h₂ (hh₁ ▸ hn) (by rw [hh₁,hh₂,he])

theorem Recorded.frame (h : Recorded w n) (hh : w'.header = w.header) (hp : w'.phase = w.phase)
    (hpw : w'.staking.lastValidatorPowers = w.staking.lastValidatorPowers)
    (hi : w'.store.epochInfo = w.store.epochInfo)
    (hv : w'.store.valSet = w.store.valSet) (hr : w'.store.Records n) : Recorded w' n := by
  refine ⟨hr,h.hashes.congr hi,?_,?_,?_⟩
  · rw [hp,hi,hh]
    exact h.fresh
  · rw [hp,hpw]
    exact h.powers
  · rw [hh,hpw,hv]
    exact h.members

theorem moves_recorded (hc : OnCalendar w n e) (h : Recorded w n) (hm : Moves k n e w a n' e' w')
    (hg : SlashedOnce w a w') : Recorded w' n' := by
  cases hm with
  | startBlock _ _ _ hash powers =>
    refine ⟨h.records,h.hashes,?_,fun _ => powers,fun _ => h.members (.inr powers)⟩
    intro _ i ep he heq
    refine hash (mem_map.mpr ⟨ep,?_,heq⟩)
    exact mem_map.mpr ⟨(i,ep),mem_entries.mpr he,rfl⟩
  | nextEpoch started _ =>
    have hs := h.records.sub_nextEpoch e w.header w.staking.lastValidatorPowers
    have hp := h.powers (by simp [started])
    refine ⟨h.records.nextEpoch e w.header w.staking.lastValidatorPowers,
      h.hashes.nextEpoch hc.calendar _ _,by simp,fun _ => hp,?_⟩
    intro _ m hmn
    simp only [hs]
    split
    · exact hp
    · exact h.members (.inr hp) m (by omega)
  | lastBlock started _ =>
    have hfs := h.fresh started
    exact ⟨h.records.setEpochInfo n _,h.hashes.seal hfs,
      by simp,fun _ => h.powers (by simp [started]),h.members⟩
  | innerBlock started _ =>
    exact ⟨h.records,h.hashes,by simp,fun _ => h.powers (by simp [started]),h.members⟩
  | deliver _ _ lock =>
    have hf := frame_lock lock
    have hr := h.records.agree hf.store
    have hp := congrArg Staking.lastValidatorPowers (staking_lock lock)
    refine h.frame hf.header hf.phase hp hf.store.epochInfo hf.store.valSet ?_
    exact hr.congr rfl rfl rfl rfl ⟨hr.lives.validators,hr.lives.delegations⟩
  | updateParams _ _ =>
    exact h.frame rfl rfl rfl rfl rfl
      (h.records.congr rfl rfl rfl rfl ⟨h.records.lives.validators,h.records.lives.delegations⟩)
  | slash _ _ hasSlashed hasPower =>
    have hfr := hg _ e rfl hc.calendar.getEpoch
    rw [hc.calendar.number] at hfr
    exact h.frame rfl rfl rfl rfl rfl (h.records.slash hasPower hasSlashed hfr)
  | finalize _ _ _ _ unbonding =>
    exact h.frame unbonding.header unbonding.phase unbonding.powers unbonding.store.epochInfo
      unbonding.store.valSet (h.records.agree unbonding.store)
  | other _ =>
    exact h.frame rfl rfl rfl (frame_write w _).store.epochInfo (frame_write w _).store.valSet
      (h.records.agree (frame_write w _).store)
  | endBlock _ _ => exact ⟨h.records,h.hashes,by simp,by simp,h.members⟩
  | endEpoch running _ =>
    have hf := frame_endEpoch (k := k) (n := n) (w.store.getEpochMsgs n) (w.closed n e)
    have hps := hc.positive (by simp [running])
    refine ⟨(h.records.setEpochInfo n _).agree hf.store,?_,by simp,by simp,?_⟩
    · exact (h.hashes.set { e with lastBlockTime := some w.header.time }
        hc.calendar.current rfl).congr
        hf.store.epochInfo
    · intro _ m hmn
      simp only [hf.store.valSet]
      exact h.members (.inl (by omega)) m hmn

theorem starts_recorded {gs : GenesisState} (h : Starts gs w) : Recorded w 0 := by
  obtain ⟨interval,time, -,hs⟩ := initGenesis_fresh h.fresh h.genesis
  have hr := foldl_set_entries w.staking.lastValidatorPowers.powers
  have hsb : ∀ m, w.store.valSet.sub m = if m = 0 then w.staking.lastValidatorPowers.powers
      else .empty := by
    intro m
    rw [hs]
    simp only [atGenesis,sub_foldl_set₂,sub_empty]
    split
    · exact hr
    · rfl
  refine ⟨⟨?_,?_,?_,?_,?_,?_⟩,?_,?_,?_,?_⟩
  · intro m hm
    rw [hsb,if_neg (by omega)]
  · intro m
    rw [hsb]
    simp only [hs,atGenesis,get_set,Nat.le_zero]
    split <;> rfl
  · intro m v p hp
    rw [get₂,hsb] at hp
    split at hp
    · exact w.staking.lastValidatorPowers.nonneg v p hp
    · cases hp
  · intro m v p hp
    rw [hs] at hp
    cases hp
  · intro m
    simp only [hs,atGenesis,get_set,Nat.le_zero]
    split <;> rfl
  · rw [hs]
    refine ⟨?_,?_⟩
    · intro a lc hl
      cases hl
    · intro a lc hl
      cases hl
  · intro i j ei ej hi hj hn he
    rw [hs] at hi
    rcases get_set_cases hi with ⟨_,rfl⟩ | ⟨_,hi⟩
    · exact absurd rfl hn
    · cases hi
  · simp [h.phase]
  · simp [h.phase]
  · rintro (hh | hpw) m hm
    · exact absurd h.height hh
    · rw [hsb,if_pos (by omega)]
      exact hpw

end World

end AnonChain.Epoching
