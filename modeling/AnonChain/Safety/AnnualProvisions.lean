import AnonChain.Finality.Types
import AnonChain.Coins
import AnonChain.Lib.Run

/-! The mint module computes its provisions again when the inflation rate changes. -/

namespace AnonChain.Mint

open Lib
open Finality (roundHalfEven)
open BtcStaking (decOne)

def nanosecondsPerYear : Nat := 31556952*10^9

def initialInflationRate : Dec := 55*10^15

def disinflationRate : Dec := 0

def targetInflationRate : Dec := 15*10^15

def maxMintedPerBlock : Int := 600000000

def mul (a b : Dec) : Dec := roundHalfEven (a*b)

def quo (a b : Dec) : Dec := roundHalfEven ((a*decOne*decOne).tdiv b)

/-- Squares `d` and halves `i` until it is one, with the odd factors in `tmp`. -/
def powerLoop : Nat → Nat → Dec → Dec → Dec
  | 0, _, d, tmp => mul d tmp
  | rounds+1, i, d, tmp =>
    if 1 < i then powerLoop rounds (i/2) (mul d d) (if i%2 =
      0 then tmp else mul tmp d) else mul d tmp

def power (d : Dec) (n : Nat) : Dec := if n = 0 then decOne else powerLoop n n d decOne

structure Minter where
  inflationRate : Dec
  annualProvisions : Dec
  previousBlockTime : Option Nat

def defaultMinter : Minter := ⟨initialInflationRate,0,none⟩

/-- A duration is at most the largest signed 64 bit number. -/
def yearsSinceGenesis (genesis current : Nat) : Nat :=
  min (current-genesis) (2^63-1)/nanosecondsPerYear

def calculateInflationRate (years : Nat) : Dec :=
  let inflationRate := mul initialInflationRate (power (decOne-disinflationRate) years)
  if inflationRate < targetInflationRate then targetInflationRate else inflationRate

def maybeUpdateMinter (genesis : Nat) (m : Minter) (time totalSupply : Nat) : Minter :=
  let newInflationRate := calculateInflationRate (yearsSinceGenesis genesis time)
  if newInflationRate = m.inflationRate ∧ m.annualProvisions ≠ 0 then m
  else { m with
    inflationRate := newInflationRate, annualProvisions := newInflationRate*totalSupply }

def calculateBlockProvision (m : Minter) (current previous : Nat) : Result Int := do
  ensure (previous ≤ current) (.errorf "current time %v cannot be before previous time %v")
  let portionOfYear := quo ((current-previous : Nat)*decOne) (nanosecondsPerYear*decOne)
  pure (min ((mul m.annualProvisions portionOfYear).tdiv decOne) maxMintedPerBlock)

def mintBlockProvision (m : Minter) (time : Nat) : Result Int :=
  match m.previousBlockTime with
  | none => pure 0
  | some previous => Result.orPanic (calculateBlockProvision m time previous)

def beginBlocker (genesis : Nat) (m : Minter) (time totalSupply : Nat) : Result (Minter × Int) := do
  let m := maybeUpdateMinter genesis m time totalSupply
  let minted ← mintBlockProvision m time
  pure ({ m with previousBlockTime := some time },minted)

theorem powerLoop_one (rounds i : Nat) : powerLoop rounds i decOne decOne = decOne := by
  have ho : mul decOne decOne = decOne := rfl
  induction rounds generalizing i with
  | zero => exact ho
  | succ _ ih =>
    simp only [powerLoop,ho,ite_self]
    split
    · exact ih (i/2)
    · rfl

theorem calculateInflationRate_eq (years : Nat) :
    calculateInflationRate years = initialInflationRate := by
  have hp : power (decOne-disinflationRate) years = decOne := by
    unfold power
    split
    · rfl
    · exact powerLoop_one years years
  rw [calculateInflationRate,hp]
  rfl

structure Block where
  time : Nat
  totalSupply : Nat

/-- The minter, with the year of the last block, the supply at the first block of that year, and the
supply at the first block that had any. -/
structure State where
  minter : Minter
  year : Nat
  supply : Nat
  firstSupply : Nat

def year (genesis : Nat) (b : Block) : Nat := (b.time-genesis)/nanosecondsPerYear

/-- Blocks with non-decreasing times. -/
def next (genesis : Nat) (s : State) (b : Block) : Option State :=
  match beginBlocker genesis s.minter b.time b.totalSupply with
  | .ok (minter,_) => some ⟨minter,year genesis b,
      if year genesis b = s.year then s.supply else b.totalSupply,
      if s.firstSupply = 0 then b.totalSupply else s.firstSupply⟩
  | .error _ => none

def chain (genesis : Nat) : System State Block where
  init s := s = ⟨defaultMinter,0,0,0⟩
  step s b s' := next genesis s b = some s'

/-- From the first year on, provisions are the year's rate of the supply at its first block. -/
def Follows (s : State) : Prop :=
  1 ≤ s.year → s.minter.annualProvisions = calculateInflationRate s.year*s.supply

structure Fixed (s : State) : Prop where
  rate : s.minter.inflationRate = initialInflationRate
  provisions : s.minter.annualProvisions = initialInflationRate*s.firstSupply

variable {genesis : Nat} {s s' : State} {b : Block}

theorem Fixed.next (hs : Fixed s) (h : next genesis s b = some s') : Fixed s' := by
  unfold Mint.next at h
  split at h
  case h_2 => cases h
  case h_1 hr =>
    cases h
    simp only [beginBlocker,ok_iff] at hr
    obtain ⟨_,_,hm⟩ := hr
    cases hm
    have hz : s.minter.annualProvisions = 0 ↔ s.firstSupply = 0 := by
      rw [hs.provisions,mul_eq_zero_iff_left (by decide),Int.natCast_eq_zero]
    simp only [maybeUpdateMinter,calculateInflationRate_eq,hs.rate,ne_eq,hz,true_and]
    by_cases hf : s.firstSupply = 0
    · exact ⟨by simp [hf],by simp [hf]⟩
    · exact ⟨by simp [hf,hs.rate],by simp [hf,hs.provisions]⟩

/-- In every run the provisions are the rate of the year on the supply at the first block that had
any, so they follow the supply exactly in the years that begin with that supply. -/
theorem annual_provisions_fixed (h : (chain genesis).Reachable s) :
    s.minter.annualProvisions = calculateInflationRate s.year*s.firstSupply ∧
      (Follows s ↔ (1 ≤ s.year → s.supply = s.firstSupply)) := by
  have hf : Fixed s := by
    induction h with
    | init hi =>
      subst hi
      exact ⟨rfl,rfl⟩
    | step _ hs ih => exact ih.next hs
  have hn : initialInflationRate ≠ 0 := by decide
  refine ⟨by rw [calculateInflationRate_eq,hf.provisions],imp_congr_right fun _ => ?_⟩
  rw [calculateInflationRate_eq,hf.provisions,mul_right_inj' hn,Int.natCast_inj,eq_comm]

/-- Blocks a year apart, from genesis on. -/
def yearly (supplies : List Nat) : Option State :=
  (supplies.zipIdx.map (fun p => (⟨p.2*nanosecondsPerYear,p.1⟩ : Block))).foldlM (next 0)
    ⟨defaultMinter,0,0,0⟩

theorem yearly_reachable {supplies : List Nat} {p : State → Bool}
    (h : (yearly supplies).any p = true) : ∃ s, (chain 0).Reachable s ∧ p s = true := by
  have hi : (chain 0).Reachable ⟨defaultMinter,0,0,0⟩ := .init rfl
  exact hi.follow (fun _ b _ hb => ⟨b,hb⟩) h

/-- The supply doubles in the first year and is back at the start of the third. -/
theorem annual_provisions_fixed_back : ∃ s, (chain 0).Reachable s ∧ s.year = 2 ∧ Follows s := by
  have hr : (yearly [100,200,100]).any (fun s =>
      decide (s.year = 2 ∧ s.supply = 100 ∧ s.firstSupply = 100)) = true := by decide +kernel
  obtain ⟨s,hs,ht⟩ := yearly_reachable hr
  obtain ⟨hy,hsp,hf⟩ := of_decide_eq_true ht
  exact ⟨s,hs,hy,(annual_provisions_fixed hs).2.mpr fun _ => hsp.trans hf.symm⟩

/-- The supply doubles in the first year, and the provisions stay. -/
theorem provisions_stay_behind : ∃ s, (chain 0).Reachable s ∧ ¬ Follows s := by
  have hr : (yearly [100,200]).any (fun s => decide (1 ≤ s.year ∧
      s.minter.annualProvisions ≠
        calculateInflationRate s.year*s.supply)) = true := by decide +kernel
  obtain ⟨s,hs,ht⟩ := yearly_reachable hr
  obtain ⟨hy,hn⟩ := of_decide_eq_true ht
  exact ⟨s,hs,fun h => hn (h hy)⟩

end AnonChain.Mint
