import AnonChain.Types
import AnonChain.Lib.RewardIndex

/-! Coins of the SDK, where an operation may leave a zero entry, and the accounts of the bank. -/

namespace AnonChain

open Lib Bool
open KVStore (getD mem_entries readEntry)

abbrev Denom := Bytes

abbrev Coins := KVStore Denom Int

/-- A decimal with 18 digits after the point, as the integer of all its digits. -/
abbrev Dec := Int

def decPrecision : Int := 10^18

namespace Coins

def amountOf (c : Coins) (d : Denom) : Int := c.getD d 0

def isZero (c : Coins) : Bool := c.entries.all (fun e => e.2 = 0)

def isAllPositive (c : Coins) : Bool := !c.entries.isEmpty && c.entries.all (fun e => 0 < e.2)

def isAnyNegative (c : Coins) : Bool := c.entries.any (fun e => e.2 < 0)

def isValid (c : Coins) : Bool := c.entries.all (fun e => 0 < e.2)

def neg (c : Coins) : Coins := c.mapValues (fun a => -a)

def dropZeros (c : Coins) : Coins := ⟨c.entries.filter (fun e => e.2 ≠ 0),c.sorted.filter _⟩

def merge (a b : Coins) : Coins := b.entries.foldl (fun c e => c.set e.1 (amountOf c e.1+e.2)) a

/-- Amounts have 256 bits. -/
def inRange (c : Coins) : Result Coins := do
  ensure (∀ e ∈ c.entries, -2^256 < e.2 ∧ e.2 < 2^256) (.panic "Int overflow")
  pure c

def newCoins (c : Coins) : Result Coins := do
  ensure (isAnyNegative c = false) (.panic "negative coin amount: %v")
  inRange c

def add (a b : Coins) : Result Coins := inRange (dropZeros (merge a b))

def safeSub (a b : Coins) : Result (Coins × Bool) := do
  let diff ← add a (neg b)
  pure (diff,isAnyNegative diff)

def sub (a b : Coins) : Result Coins := do
  let (diff,hasNeg) ← safeSub a b
  ensure (hasNeg = false) (.panic "negative coin amount")
  pure diff

def mulInt (c : Coins) (x : Int) : Result Coins := do
  ensure (x ≠ 0) (.panic "multiplicative factor cannot be zero")
  newCoins (c.mapValues (fun a => a*x))

def quoInt (c : Coins) (x : Int) : Result Coins := do
  ensure (x ≠ 0) (.panic "quotient by zero")
  newCoins (c.mapValues (fun a => a.tdiv x))

def coinsSafeMulInt (c : Coins) (x : Int) : Result Coins := do
  ensure (x ≠ 0) (.err .ErrInvalidAmount "cannot multiply coins by zero")
  let r := c.mapValues (fun a => a*x)
  ensure (∀ e ∈ r.entries, -2^256 < e.2 ∧
    e.2 < 2^256) (.err .ErrInvalidAmount "unable to multiply coins")
  ensure (isAnyNegative r = false) (.errorf "unable to create new coin %s%s: %w")
  pure r

/-- The product has 18 decimals and is then truncated to an integer. -/
def getCoinsPortion (c : Coins) (portion : Dec) : Result Coins := do
  let r := c.mapValues (fun a => ((a*decPrecision*portion).tdiv decPrecision).tdiv decPrecision)
  ensure (isAnyNegative r = false) (.panic "negative coin amount: %v")
  pure (dropZeros r)

variable {a b c r : Coins} {d : Denom} {x : Int}

@[simp] theorem amountOf_empty (d : Denom) : amountOf .empty d = 0 := rfl

theorem amountOf_mapValues {f : Int → Int} (h0 : f 0 = 0) (c : Coins) (d : Denom) :
    amountOf (c.mapValues f) d = f (amountOf c d) := by
  rw [amountOf,amountOf,getD,getD,KVStore.get_mapValues]
  cases c.get d with
  | none => exact h0.symm
  | some v => rfl

theorem amountOf_neg (c : Coins) (d : Denom) : amountOf (neg c) d = -amountOf c d :=
  amountOf_mapValues neg_zero c d

theorem get_dropZeros {v : Int} : (dropZeros c).get d = some v ↔ c.get d = some v ∧ v ≠ 0 := by
  rw [← mem_entries,← mem_entries,dropZeros,List.mem_filter]
  simp

@[simp] theorem amountOf_dropZeros (c : Coins) (d : Denom) :
    amountOf (dropZeros c) d = amountOf c d := by
  rw [amountOf,amountOf,getD,getD]
  cases h : (dropZeros c).get d with
  | some v => rw [(get_dropZeros.mp h).1]
  | none =>
    cases hc : c.get d with
    | none => rfl
    | some v =>
      by_cases hv : v = 0
      · rw [hv]
        rfl
      · rw [get_dropZeros.mpr ⟨hc,hv⟩] at h
        simp at h

theorem amountOf_foldl_set {l : List (Denom × Int)}
    (hs : l.Pairwise (fun e e' => e.1 < e'.1)) (a : Coins) (d : Denom) :
    amountOf (l.foldl (fun c e => c.set e.1 (amountOf c e.1+e.2)) a) d =
      amountOf a d+(readEntry d l).getD 0 := by
  induction l generalizing a with
  | nil => simp
  | cons e l ih =>
    obtain ⟨he,hl⟩ := List.pairwise_cons.mp hs
    rw [List.foldl_cons,ih hl,amountOf,KVStore.getD_set,readEntry]
    by_cases hd : d = e.1
    · have hn : readEntry d l = none := KVStore.readEntry_eq_none_of_lt (hd ▸ he)
      simp [hd,hd ▸ hn]
    · simp [hd,amountOf]

theorem inRange_eq_ok : inRange c = .ok r → r = c := by
  intro h
  simp only [inRange,ok_iff] at h
  exact h.2.symm

theorem amountOf_add (h : add a b = .ok r) (d : Denom) :
    amountOf r d = amountOf a d+amountOf b d := by
  rw [inRange_eq_ok h,amountOf_dropZeros]
  exact amountOf_foldl_set b.sorted a d

theorem get_add_ne_zero (h : add a b = .ok r) {v : Int} (hv : r.get d = some v) : v ≠ 0 := by
  rw [inRange_eq_ok h] at hv
  exact (get_dropZeros.mp hv).2

theorem isAnyNegative_eq_false : isAnyNegative c = false ↔ ∀ d, 0 ≤ amountOf c d := by
  rw [isAnyNegative,List.any_eq_false]
  constructor
  · intro h d
    rw [amountOf,getD]
    cases hd : c.get d with
    | none => rfl
    | some v =>
      have hv := h (d,v) (mem_entries.mpr hd)
      simpa using hv
  · intro h e he
    have hv := h e.1
    rw [amountOf,getD,mem_entries.mp he] at hv
    simpa using hv

theorem safeSub_eq_ok {hasNeg : Bool} (h : safeSub a b = .ok (r,hasNeg)) :
    add a (neg b) = .ok r ∧ hasNeg = isAnyNegative r := by
  simp only [safeSub,ok_iff,Prod.mk.injEq] at h
  obtain ⟨diff,hd,rfl,rfl⟩ := h
  exact ⟨hd,rfl⟩

theorem amountOf_sub (h : sub a b = .ok r) (d : Denom) :
    amountOf r d = amountOf a d-amountOf b d ∧ 0 ≤ amountOf r d := by
  simp only [sub,ok_iff,Prod.exists] at h
  obtain ⟨diff,hasNeg,hs,hn,rfl⟩ := h
  obtain ⟨ha,rfl⟩ := safeSub_eq_ok hs
  rw [amountOf_add ha,amountOf_neg]
  have hp := isAnyNegative_eq_false.mp hn d
  rw [amountOf_add ha,amountOf_neg] at hp
  exact ⟨rfl,hp⟩

theorem newCoins_eq_ok (h : newCoins c = .ok r) : r = c ∧ ∀ d, 0 ≤ amountOf c d := by
  simp only [newCoins,ok_iff] at h
  exact ⟨inRange_eq_ok h.2,isAnyNegative_eq_false.mp h.1⟩

theorem amountOf_mulInt (h : mulInt c x = .ok r) (d : Denom) :
    amountOf r d = amountOf c d*x ∧ 0 ≤ amountOf r d := by
  simp only [mulInt,ok_iff] at h
  obtain ⟨hr,hp⟩ := newCoins_eq_ok h.2
  rw [hr,amountOf_mapValues (zero_mul x)]
  have := hp d
  rw [amountOf_mapValues (zero_mul x)] at this
  exact ⟨rfl,this⟩

theorem amountOf_quoInt (h : quoInt c x = .ok r) (d : Denom) :
    amountOf r d = (amountOf c d).tdiv x ∧ 0 ≤ amountOf r d := by
  simp only [quoInt,ok_iff] at h
  obtain ⟨hr,hp⟩ := newCoins_eq_ok h.2
  rw [hr,amountOf_mapValues (Int.zero_tdiv x)]
  have := hp d
  rw [amountOf_mapValues (Int.zero_tdiv x)] at this
  exact ⟨rfl,this⟩

theorem amountOf_coinsSafeMulInt (h : coinsSafeMulInt c x = .ok r) (d : Denom) :
    amountOf r d = amountOf c d*x ∧ 0 ≤ amountOf r d := by
  simp only [coinsSafeMulInt,ok_iff] at h
  obtain ⟨-, -,hn,rfl⟩ := h
  have hp := isAnyNegative_eq_false.mp hn d
  rw [amountOf_mapValues (zero_mul x)] at hp ⊢
  exact ⟨rfl,hp⟩

theorem getCoinsPortion_le {portion : Dec} (h : getCoinsPortion c portion = .ok r) (d : Denom) :
    0 ≤ amountOf r d ∧ (0 ≤ amountOf c d → 0 ≤ portion →
      decPrecision*amountOf r d ≤ amountOf c d*portion) := by
  simp only [getCoinsPortion,ok_iff] at h
  obtain ⟨hn,rfl⟩ := h
  have hps := isAnyNegative_eq_false.mp hn d
  rw [amountOf_dropZeros]
  refine ⟨hps,?_⟩
  intro hc hpr
  have hp : (0 : Int) < decPrecision := by norm_num [decPrecision]
  rw [amountOf_mapValues (by simp)]
  have he : (amountOf c d*decPrecision*portion).tdiv decPrecision = amountOf c d*portion := by
    rw [mul_right_comm]
    exact Int.mul_tdiv_cancel _ hp.ne'
  rw [he,Int.tdiv_eq_ediv_of_nonneg (mul_nonneg hc hpr)]
  exact Int.mul_ediv_self_le hp.ne'

theorem isAllPositive_nonneg (h : isAllPositive c = true) (d : Denom) : 0 ≤ amountOf c d := by
  rw [isAllPositive,and_eq_true,List.all_eq_true] at h
  refine isAnyNegative_eq_false.mp ?_ d
  rw [isAnyNegative,List.any_eq_false]
  intro e he
  have := h.2 e he
  simp only [decide_eq_true_eq] at this ⊢
  omega

theorem exists_pos_of_isAllPositive (h : isAllPositive c = true) : ∃ d, 0 < amountOf c d := by
  rw [isAllPositive,and_eq_true,List.all_eq_true] at h
  obtain ⟨hn,hp⟩ := h
  cases hc : c.entries with
  | nil => simp [hc] at hn
  | cons e l =>
    have he : e ∈ c.entries := by simp [hc]
    refine ⟨e.1,?_⟩
    rw [amountOf,getD,mem_entries.mp he]
    simpa using hp e he

theorem isAllPositive_valid (h : isAllPositive c = true) : isValid c = true := by
  rw [isAllPositive,and_eq_true] at h
  exact h.2

theorem amountOf_of_not_isAllPositive (h : isAllPositive c = false)
    (hn : ∀ d v, c.get d = some v → v ≠ 0)
    (hp : ∀ d, 0 ≤ amountOf c d) (d : Denom) : amountOf c d = 0 := by
  rw [amountOf,getD]
  cases hd : c.get d with
  | none => rfl
  | some v =>
    have hm := mem_entries.mpr hd
    have hem : c.entries.isEmpty = false := by
      cases hc : c.entries with
      | nil => simp [hc] at hm
      | cons => rfl
    rw [isAllPositive,hem,Bool.not_false,Bool.true_and,List.all_eq_false] at h
    obtain ⟨e,he,hl⟩ := h
    have hg := mem_entries.mp he
    have hnn := hp e.1
    rw [amountOf,getD,hg] at hnn
    have hn' := hn e.1 e.2 hg
    simp only [Option.getD_some,decide_eq_true_eq] at hnn hl
    omega

theorem amountOf_of_isZero (h : isZero c = true) (d : Denom) : amountOf c d = 0 := by
  rw [isZero,List.all_eq_true] at h
  rw [amountOf,getD]
  cases hd : c.get d with
  | none => rfl
  | some v => simpa using h (d,v) (mem_entries.mpr hd)

theorem isAllPositive_eq_isValid (h : isZero c = false) : isAllPositive c = isValid c := by
  have he : c.entries.isEmpty = false := by
    cases hc : c.entries with
    | nil => simp [isZero,hc] at h
    | cons => rfl
  rw [isAllPositive,he]
  rfl

theorem exists_zero_of_not_valid (h : isValid c = false) (hp : ∀ d, 0 ≤ amountOf c d) :
    ∃ d, c.get d = some 0 := by
  rw [isValid,List.all_eq_false] at h
  obtain ⟨e,he,hl⟩ := h
  have hg := mem_entries.mp he
  have hn := hp e.1
  rw [amountOf,getD,hg,Option.getD_some] at hn
  simp only [decide_eq_true_eq] at hl
  have hz : e.2 = 0 := by omega
  exact ⟨e.1,hz ▸ hg⟩

theorem exists_pos_of_not_isZero (h : isZero c = false) (hp : ∀ d, 0 ≤ amountOf c d) :
    ∃ d, 0 < amountOf c d := by
  rw [isZero,List.all_eq_false] at h
  obtain ⟨e,he,hn⟩ := h
  have hnn := hp e.1
  refine ⟨e.1,?_⟩
  rw [amountOf,getD,mem_entries.mp he,Option.getD_some] at hnn ⊢
  simp only [decide_eq_true_eq] at hn
  omega

def overflow : Failure := .panic "Int overflow"

theorem inRange_error {e : Failure} (h : inRange c = .error e) : e = overflow := by
  simp only [inRange,ensure] at h
  split at h
  · cases h
  · cases h
    rfl

theorem sub_error {e : Failure} (hl : ∀ d, amountOf b d ≤ amountOf a d) (h : sub a b = .error e) :
    e = overflow := by
  unfold sub safeSub at h
  cases ha : add a (neg b) with
  | error e' =>
    rw [ha] at h
    cases h
    exact inRange_error ha
  | ok diff =>
    have hn : isAnyNegative diff = false := by
      rw [isAnyNegative_eq_false]
      intro d
      have := hl d
      rw [amountOf_add ha,amountOf_neg]
      omega
    rw [ha] at h
    simp [bind,Except.bind,pure,Except.pure,ensure,hn] at h

end Coins

/-- The transfer of the bank module, with the balances of the sender and the receiver. -/
structure BankKeeper where
  sendCoins : Coins → Coins → Coins → Result (Coins × Coins)
  sendCoins_invalid : ∀ {sender receiver amt : Coins}, Coins.isValid amt = false →
    sendCoins sender receiver amt = .error (.err .ErrInvalidCoins "%s")
  /-- A transfer of valid coins out of sufficient funds fails only when a balance overflows. -/
  sendCoins_error : ∀ {sender receiver amt : Coins} {e : Failure}, Coins.isValid amt = true →
    (∀ d, Coins.amountOf amt d ≤ Coins.amountOf sender d) →
    sendCoins sender receiver amt = .error e → e = Coins.overflow
  sendCoins_amounts : ∀ {sender receiver amt sender' receiver' : Coins},
    sendCoins sender receiver amt = .ok (sender',receiver') → ∀ d,
    Coins.amountOf sender' d = Coins.amountOf sender d-Coins.amountOf amt d ∧
      Coins.amountOf receiver' d = Coins.amountOf receiver d+Coins.amountOf amt d ∧
      0 ≤ Coins.amountOf amt d ∧ Coins.amountOf amt d ≤ Coins.amountOf sender d

structure Bank extends BankKeeper where
  feeCollector : Coins
  incentive : Coins
  costaking : Coins
  distribution : Coins
  accounts : KVStore AccAddress Coins

end AnonChain
