import AnonChain.Finality.Keeper

/-! Which blocks one pass finalizes, and what a finalized block says about the votes for it. -/

namespace AnonChain.Finality

open Lib KVStore State Result

section

variable {s s' : State}

def State.BlocksKeyed (s : State) : Prop := ∀ h b, s.blocks.get h = some b → b.height = h

/-- Blocks stay with their app hash, and only the current height `H` may be new. -/
structure BlocksGrow (H : Nat) (s s' : State) : Prop where
  keeps : ∀ h b, s.blocks.get h = some b →
    ∃ b', s'.blocks.get h = some b' ∧ b'.height = b.height ∧ b'.appHash = b.appHash
  news : ∀ h b', s'.blocks.get h = some b' → (∃ b, s.blocks.get h = some b) ∨ h = H
  keyed : s'.BlocksKeyed

theorem BlocksGrow.refl {H : Nat} (hk : s.BlocksKeyed) : BlocksGrow H s s :=
  ⟨fun _ b hb => ⟨b,hb,rfl,rfl⟩,fun _ b hb => .inl ⟨b,hb⟩,hk⟩

theorem BlocksGrow.trans {H : Nat} {t : State} (h₁ : BlocksGrow H s s') (h₂ : BlocksGrow H s' t) :
    BlocksGrow H s t := by
  refine ⟨?_,?_,h₂.keyed⟩
  · intro h b hb
    obtain ⟨b',hb',hh',ha'⟩ := h₁.keeps h b hb
    obtain ⟨b'',hb'',hh'',ha''⟩ := h₂.keeps h b' hb'
    exact ⟨b'',hb'',hh''.trans hh',ha''.trans ha'⟩
  · intro h b hb
    cases h₂.news h b hb with
    | inl hex =>
      obtain ⟨b',hb'⟩ := hex
      exact h₁.news h b' hb'
    | inr he => exact .inr he

theorem get_finalizeBlock (s : State) {b : IndexedBlock} {i : Nat} (hi : b.height = i) (h : Nat) :
    (s.finalizeBlock b).blocks.get h = if h = i then some { b with finalized := true }
      else s.blocks.get h := by
  rw [← hi]
  exact get_set _ _ _ _

theorem get_indexBlock (s : State) (header : HeaderInfo) (h : Nat) :
    (s.indexBlock header).blocks.get h =
    if h = header.height then some ⟨header.height,header.appHash,false⟩ else s.blocks.get h :=
  get_set _ _ _ _

theorem finalizeBlock_grow {H i : Nat} {b : IndexedBlock} (hk : s.BlocksKeyed)
    (hb : s.blocks.get i = some b) : BlocksGrow H s (s.finalizeBlock b) := by
  have hi : b.height = i := hk i b hb
  have hg := get_finalizeBlock s hi
  refine ⟨?_,?_,?_⟩
  · intro h c hc
    by_cases hh : h = i
    · subst hh
      rw [hb,Option.some.injEq] at hc
      subst hc
      exact ⟨{ b with finalized := true },by rw [hg,if_pos rfl],rfl,rfl⟩
    · exact ⟨c,by rw [hg,if_neg hh]; exact hc,rfl,rfl⟩
  · intro h c hc
    by_cases hh : h = i
    · exact .inl ⟨b,by rw [hh]; exact hb⟩
    · rw [hg,if_neg hh] at hc
      exact .inl ⟨c,hc⟩
  · intro h c hc
    by_cases hh : h = i
    · rw [hg,if_pos hh,Option.some.injEq] at hc
      rw [← hc,hh]
      exact hi
    · rw [hg,if_neg hh] at hc
      exact hk h c hc

theorem indexBlock_grow {header : HeaderInfo} (hk : s.BlocksKeyed)
    (hnn : s.blocks.get header.height = none) :
    BlocksGrow header.height s (s.indexBlock header) := by
  have hg := get_indexBlock s header
  refine ⟨?_,?_,?_⟩
  · intro h b hb
    have hn : h ≠ header.height := by
      intro he
      rw [he,hnn] at hb
      simp at hb
    exact ⟨b,by rw [hg,if_neg hn]; exact hb,rfl,rfl⟩
  · intro h b hb
    by_cases hh : h = header.height
    · exact .inr hh
    · rw [hg,if_neg hh] at hb
      exact .inl ⟨b,hb⟩
  · intro h b hb
    by_cases hh : h = header.height
    · rw [hg,if_pos hh,Option.some.injEq] at hb
      rw [← hb,hh]
    · rw [hg,if_neg hh] at hb
      exact hk h b hb

end

theorem tally_iff {t : KVStore BIP340PubKey Nat} {voters : BIP340PubKey → Bool}
    (h : 3*t.total < 2^64) : tally t voters = true ↔ 2*t.total < 3*t.weight voters := by
  have hl : t.weight voters ≤ t.total := weight_le_total
  have h₁ : t.total%2^64 = t.total := Nat.mod_eq_of_lt (by omega)
  have h₂ : t.weight voters%2^64 = t.weight voters := Nat.mod_eq_of_lt (by omega)
  have h₃ : t.total*2%2^64 = t.total*2 := Nat.mod_eq_of_lt (by omega)
  have h₄ : t.weight voters*3%2^64 = t.weight voters*3 := Nat.mod_eq_of_lt (by omega)
  simp only [tally,uint64,h₁,h₂,h₃,h₄,decide_eq_true_eq]
  omega

/-- The voters of a height hold more than two thirds of its table, whose powers the tally can
add up without overflow. -/
def State.QuorumAt (s : State) (height : Nat) : Prop :=
  ∃ table, s.getVotingPowerTable height = some table ∧
    (3*table.total < 2^64 → 2*table.total < 3*table.weight (s.isVoter height))

/-- The voters of a height hold more than two thirds of its table. -/
def State.MajorityAt (s : State) (height : Nat) : Prop :=
  ∃ table, s.getVotingPowerTable height = some table ∧
    2*table.total < 3*table.weight (s.isVoter height)

/-- No table holds more satoshi than the 21 million coins that Bitcoin issues. -/
def State.WithinSupply (s : State) : Prop :=
  ∀ height table, s.getVotingPowerTable height = some table → table.total ≤ 21*10^14

def State.FinalizedAt (s : State) (height : Nat) : Prop :=
  ∃ b, s.blocks.get height = some b ∧ b.finalized = true

section

variable {s s' : State} {height : Nat}

theorem State.QuorumAt.majority (h : s.QuorumAt height) (hs : s.WithinSupply) :
    s.MajorityAt height := by
  obtain ⟨table,ht,hq⟩ := h
  have hl := hs height table ht
  exact ⟨table,ht,hq (by omega)⟩

theorem State.getVotingPowerTable_congr (h : s'.votingPower.get height = s.votingPower.get height) :
    s'.getVotingPowerTable height = s.getVotingPowerTable height := by
  have hs : s'.votingPower.sub height = s.votingPower.sub height := by
    simp only [sub,getD,h]
  unfold getVotingPowerTable
  rw [hs]

theorem State.QuorumAt.mono (hq : s.QuorumAt height)
    (htb : s'.getVotingPowerTable height = s.getVotingPowerTable height)
    (hv : ∀ pk, s.isVoter height pk = true → s'.isVoter height pk = true) : s'.QuorumAt height := by
  obtain ⟨table,ht,hl⟩ := hq
  refine ⟨table,htb.trans ht,?_⟩
  intro hf
  have hm : table.weight (s.isVoter height) ≤ table.weight (s'.isVoter height) :=
    weight_mono hv
  omega

theorem State.FinalizedAt.congr (h : s'.blocks.get height = s.blocks.get height) :
    s'.FinalizedAt height ↔ s.FinalizedAt height := by simp only [State.FinalizedAt,h]

theorem getBTCStakingActivatedHeight_eq_ok {a : Nat} :
    s.getBTCStakingActivatedHeight = .ok a ↔ ∃ t, s.votingPower.first = some (a,t) := by
  simp [getBTCStakingActivatedHeight,orFail_eq_ok]

end

variable {s s' t : State} {i k n a : Nat}

/-- What tallying has done when it has passed `k` heights from `i` on. -/
structure Tallied (i k : Nat) (s s' : State) : Prop where
  newly : ∀ j, s'.FinalizedAt j → s.FinalizedAt j ∨ (i ≤ j ∧ j < i+k ∧ s.QuorumAt j)
  stays : ∀ j, s.FinalizedAt j → s'.FinalizedAt j
  passed : ∀ j, i ≤ j → j < i+k → s'.FinalizedAt j ∨ s.getVotingPowerTable j = none
  next : s'.nextHeightToFinalize = if k = 0 then s.nextHeightToFinalize else i+k
  frame : ∃ b m, s' = { s with blocks := b, nextHeightToFinalize := m }

theorem Tallied.refl : Tallied i 0 s s :=
  ⟨fun _ hf => .inl hf,fun _ hf => hf,by omega,rfl,_,_,rfl⟩

theorem Tallied.trans {k' : Nat} (h : Tallied i k s t) (h' : Tallied (i+k) k' t s') :
    Tallied i (k+k') s s' := by
  obtain ⟨b,m,rfl⟩ := h.frame
  refine ⟨?_,fun j hf => h'.stays j (h.stays j hf),?_,?_,?_⟩
  · intro j hf
    rcases h'.newly j hf with hf | ⟨hl,hlt,hq⟩
    · exact (h.newly j hf).imp_right fun ⟨hl,hlt,hq⟩ => ⟨hl,by omega,hq⟩
    · exact .inr ⟨by omega,by omega,hq⟩
  · intro j hl hlt
    by_cases hj : j < i+k
    · exact (h.passed j hl hj).imp_left (h'.stays j)
    · exact h'.passed j (by omega) (by omega)
  · have := h.next
    rw [h'.next]
    split_ifs at * <;> omega
  · obtain ⟨b',m',rfl⟩ := h'.frame
    exact ⟨b',m',rfl⟩

theorem tallied_finalizeBlock {ib : IndexedBlock} {table : KVStore BIP340PubKey Nat}
    (hi : ib.height = i)
    (ht : s.getVotingPowerTable i = some table) (htl : tally table (s.isVoter i) = true) :
    Tallied i 1 s (s.finalizeBlock ib) := by
  have hg := get_finalizeBlock s hi
  have ho : ∀ j, j ≠ i → ((s.finalizeBlock ib).FinalizedAt j ↔ s.FinalizedAt j) :=
    fun j hj => State.FinalizedAt.congr (by rw [hg,if_neg hj])
  have hd : (s.finalizeBlock ib).FinalizedAt i := ⟨_,by rw [hg,if_pos rfl],rfl⟩
  refine ⟨?_,?_,fun j hl hlt => .inl ((show j = i by omega) ▸ hd),
    by simp [finalizeBlock,hi],_,_,rfl⟩
  · intro j hf
    by_cases hj : j = i
    · exact .inr ⟨by omega,by omega,hj ▸ ⟨_,ht,fun hf => (tally_iff hf).mp htl⟩⟩
    · exact .inl ((ho j hj).mp hf)
  · intro j hf
    by_cases hj : j = i
    · exact hj ▸ hd
    · exact (ho j hj).mpr hf

theorem tallied_indexBlock {header : HeaderInfo} (hn : s.blocks.get header.height = none) :
    Tallied i 0 s (s.indexBlock header) := by
  have hfn : ∀ j, (s.indexBlock header).FinalizedAt j ↔ s.FinalizedAt j := by
    intro j
    by_cases hj : j = header.height <;>
      simp [State.FinalizedAt,get_indexBlock,hj,hn]
  exact ⟨fun j hf => .inl ((hfn j).mp hf),fun j => (hfn j).mpr,by omega,rfl,_,_,rfl⟩

theorem tallyLoop_tallied {H : Nat} (hk : s.BlocksKeyed) (h : s.tallyLoop n i = .ok s') :
    BlocksGrow H s s' ∧ ∃ k, k ≤ n ∧ Tallied i k s s' := by
  induction n generalizing s i with
  | zero =>
    cases h
    exact ⟨.refl hk,0,le_rfl,.refl⟩
  | succ n ih =>
    simp only [tallyLoop,getBlock,ok_iff] at h
    obtain ⟨ib,hib,h⟩ := h
    have hi : ib.height = i := hk i ib hib
    rw [hi] at h
    split at h
    case h_1 table ht _ =>
      split at h
      case isTrue htl =>
        have hg : BlocksGrow H s (s.finalizeBlock ib) := finalizeBlock_grow hk hib
        obtain ⟨hg',k,hkn,hr⟩ := ih hg.keyed h
        exact ⟨hg.trans hg',1+k,by omega,(tallied_finalizeBlock hi ht htl).trans hr⟩
      case isFalse =>
        cases h
        exact ⟨.refl hk,0,by omega,.refl⟩
    case h_2 ht _ =>
      obtain ⟨hg,k,hkn,hr⟩ := ih (s := { s with nextHeightToFinalize := i+1 }) hk h
      have hs : Tallied i 1 s { s with nextHeightToFinalize := i+1 } :=
        ⟨fun _ hf => .inl hf,fun _ hf => hf,
          fun j _ _ => .inr ((show j = i by omega) ▸ ht),rfl,_,_,rfl⟩
      exact ⟨⟨hg.keeps,hg.news,hg.keyed⟩,1+k,by omega,hs.trans hr⟩
    case h_3 => cases h
    case h_4 => cases h

theorem tallyBlocks_tallied {header : HeaderInfo} {m : Nat} (hk : s.BlocksKeyed)
    (h : s.tallyBlocks header m = .ok s') : BlocksGrow header.height s s' ∧
      (∃ b, s'.blocks.get header.height = some b) ∧ ∃ a k, s.getBTCStakingActivatedHeight = .ok a ∧
        (k = 0 ∨ max s.nextHeightToFinalize a+k ≤ header.height+1) ∧
        Tallied (max s.nextHeightToFinalize a) k s s' := by
  simp only [tallyBlocks,bind_eq_ok,orPanic_eq_ok] at h
  obtain ⟨a,ha,h⟩ := h
  split at h
  case isTrue hh =>
    obtain ⟨hg,k,hkn,hr⟩ := tallyLoop_tallied hk h
    obtain ⟨b,hb⟩ := has_iff.mp hh
    obtain ⟨b',hb',-⟩ := hg.keeps _ b hb
    exact ⟨hg,⟨b',hb'⟩,a,k,ha,by omega,hr⟩
  case isFalse hh =>
    have hn := has_eq_false.mp (Bool.eq_false_iff.mpr hh)
    have hg := indexBlock_grow hk hn
    obtain ⟨hg',k,hkn,hr⟩ := tallyLoop_tallied hg.keyed h
    obtain ⟨b,hb,-⟩ := hg'.keeps _ _ (get_set_self _ _ _)
    exact ⟨hg.trans hg',⟨b,hb⟩,a,k,ha,by omega,Nat.zero_add k ▸ (tallied_indexBlock hn).trans hr⟩

/-- A pass over indexed, non-finalized heights never panics. -/
theorem tallyLoop_runs (hk : s.BlocksKeyed)
    (hp : ∀ j, i ≤ j → j < i+n → ∃ b, s.blocks.get j = some b ∧ b.finalized = false) :
    ∃ s', s.tallyLoop n i = .ok s' := by
  induction n generalizing s i with
  | zero => exact ⟨s,rfl⟩
  | succ n ih =>
    obtain ⟨ib,hib,hn⟩ := hp i le_rfl (by omega)
    have hi : ib.height = i := hk i ib hib
    have hg : orPanic (s.getBlock i) = .ok ib := by
      simp [getBlock,orPanic_eq_ok,orFail_eq_ok,hib]
    simp only [tallyLoop,hg,ok_bind,hi,hn]
    cases s.getVotingPowerTable i with
    | none => exact ih (s := { s with nextHeightToFinalize := i+1 }) hk fun j hj hl => hp j (by
        omega) (by omega)
    | some _ =>
      dsimp only
      split
      · refine ih (finalizeBlock_grow (H := i) hk hib).keyed fun j hj hl => ?_
        rw [get_finalizeBlock s hi,if_neg (by omega)]
        exact hp j (by omega) (by omega)
      · exact ⟨s,rfl⟩

theorem tallyBlocks_runs {header : HeaderInfo} (m : Nat) (hk : s.BlocksKeyed)
    (ha : s.getBTCStakingActivatedHeight = .ok a) (hn : s.blocks.get header.height = none)
    (hp : ∀ j, max s.nextHeightToFinalize a ≤ j → j < header.height →
      ∃ b, s.blocks.get j = some b ∧
      b.finalized = false) : ∃ s', s.tallyBlocks header m = .ok s' := by
  have hh : s.blocks.has header.height = false := has_eq_false.mpr hn
  simp only [tallyBlocks,ha,orPanic,ok_bind,hh,Bool.false_eq_true,if_false]
  refine tallyLoop_runs (indexBlock_grow hk hn).keyed fun j hj hl => ?_
  rw [get_indexBlock]
  split
  case isTrue => exact ⟨_,rfl,rfl⟩
  case isFalse hne => exact hp j hj (by omega)

end AnonChain.Finality
