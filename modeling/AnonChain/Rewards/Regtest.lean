import AnonChain.Rewards

/-! A chain with small parameters on which rewards are run. -/

namespace AnonChain.Rewards.Regtest

open Lib KVStore
open Coins (isValid amountOf sub add)

def alice : AccAddress := [1]

def bob : AccAddress := [2]

def unblocked : AccAddress → Bool := fun _ => false

def sendCoins (sender receiver amt : Coins) : Result (Coins × Coins) := do
  ensure (isValid amt = true) (.err .ErrInvalidCoins "%s")
  ensure (∀ e ∈ amt.entries, e.2 ≤ amountOf sender e.1)
    (.err .ErrInsufficientFunds "spendable balance %s is smaller than %s")
  let sender' ← sub sender amt
  let receiver' ← add receiver amt
  pure (sender',receiver')

theorem sendCoins_error {sender receiver amt : Coins} {e : Failure} (hv : isValid amt = true)
    (hf : ∀ d, amountOf amt d ≤ amountOf sender d)
    (h : sendCoins sender receiver amt = .error e) : e = Coins.overflow := by
  have hen : ∀ e ∈ amt.entries, e.2 ≤ amountOf sender e.1 := by
    intro e he
    have hl := hf e.1
    rwa [amountOf,getD,mem_entries.mp he] at hl
  simp only [sendCoins,ensure,if_pos hv,if_pos hen] at h
  cases hs : sub sender amt with
  | error e' =>
    rw [hs] at h
    cases h
    exact Coins.sub_error hf hs
  | ok s =>
    cases hr : add receiver amt with
    | error e' =>
      rw [hs,hr] at h
      cases h
      exact Coins.inRange_error hr
    | ok r =>
      rw [hs,hr] at h
      cases h

theorem sendCoins_amounts {sender receiver amt sender' receiver' : Coins}
    (h : sendCoins sender receiver amt = .ok (sender',receiver')) (d : Denom) :
    amountOf sender' d = amountOf sender d-amountOf amt d ∧
      amountOf receiver' d = amountOf receiver d+amountOf amt d ∧
      0 ≤ amountOf amt d ∧ amountOf amt d ≤ amountOf sender d := by
  simp only [sendCoins,ok_iff,Prod.mk.injEq] at h
  obtain ⟨hv,hf,s,hs,r,hr,rfl,rfl⟩ := h
  obtain ⟨hsb,hp⟩ := Coins.amountOf_sub hs d
  refine ⟨hsb,Coins.amountOf_add hr d,?_,by omega⟩
  rw [amountOf,getD]
  cases hd : amt.get d with
  | none => rfl
  | some v =>
    rw [isValid,List.all_eq_true] at hv
    have := hv (d,v) (mem_entries.mpr hd)
    simp only [decide_eq_true_eq] at this
    exact this.le

def bankKeeper : BankKeeper where
  sendCoins := sendCoins
  sendCoins_invalid h := by
    simp only [sendCoins,ensure,h]
    rfl
  sendCoins_error := sendCoins_error
  sendCoins_amounts := sendCoins_amounts

def genesis : World where
  bank := ⟨bankKeeper,.empty,.empty,.empty,.empty,.empty⟩
  ictv := ⟨⟨2*10^17,some (10^17)⟩,.empty,.empty,.empty,.empty,.empty,.empty,.empty,.empty,0,.empty⟩
  costk := ⟨⟨5*10^17,2,0⟩,none,.empty,.empty,none⟩
  stkCache := Costaking.StakingCache.new

theorem genesis_init : Genesis genesis where
  ictvParams _ := rfl
  btcStakingPortion := by decide
  costkParams := rfl
  incentive _ := le_rfl
  costaking _ := le_rfl
  noGauges := rfl
  noStakingGauges := rfl
  noDirectGauges := rfl
  noCurrent := rfl
  noHistorical := rfl
  noTrackers := rfl
  noPairs := rfl
  noEvents := rfl
  noPool := rfl
  noPeriods := rfl
  noCostakers := rfl

def deliverAll (actions : List Action) : World := actions.foldl (deliver unblocked) genesis

theorem reachable_deliverAll (actions : List Action) :
    (rewards unblocked).Reachable (deliverAll actions) :=
  foldl_keeps (P := (rewards unblocked).Reachable) (fun _ _ _ h => h.step rfl) (.init genesis_init)

end AnonChain.Rewards.Regtest
