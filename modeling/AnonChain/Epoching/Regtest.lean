import AnonChain.Epoching.Calendar

/-! A small staking module with one validator, in which runs can be evaluated. -/

namespace AnonChain.Epoching.Regtest

open Lib World

def operator : Address := ⟨[1],by decide⟩
def staker : Address := ⟨[2],by decide⟩
def denom : Denom := [117]

def powers : ValidatorPowers where
  powers := KVStore.empty.set operator 10
  nonneg := KVStore.forall_set (by decide) nofun

def take (o : Outside Unit) (addr : Result Address) (coin : Coin) : Except String (Effect Unit) :=
  match addr with
  | .error _ => .error "invalid address"
  | .ok a =>
    if coin.amount ≤ o.balances a coin.denom then
      .ok ⟨{ o with
        balances := setBalance o.balances a coin.denom (o.balances a coin.denom-coin.amount) },[]⟩
    else .error "insufficient funds"

def keeper : StakingKeeper Unit where
  authority := [7]
  getValidator _ a := a = operator
  checkCommission _ _ := pure ()
  checkPubkey _ _ := pure ()
  checkDetails _ _ := pure ()
  createRegistration _ _ := pure ()
  checkEdit _ _ := pure ()
  validateUnbondAmount _ _ _ _ := pure ()
  hasMaxUnbondingDelegationEntries _ _ _ := false
  hasReceivingRedelegation _ _ _ := false
  hasMaxRedelegationEntries _ _ _ _ := false
  validateParams _ := pure ()
  createValidator _ msg o := take o (valAddressFromBech32 msg.validatorAddress) msg.value
  delegate _ msg o := take o (accAddressFromBech32 msg.delegatorAddress) msg.amount
  undelegate _ _ o := .ok ⟨o,[]⟩
  beginRedelegate _ _ o := .ok ⟨o,[]⟩
  cancelUnbondingDelegation _ _ o := .ok ⟨o,[]⟩
  editValidator _ _ o := .ok ⟨o,[]⟩
  updateParams _ _ o := .ok ⟨o,[]⟩
  keepsEntry _ _ _ := false
  applyAndReturnValidatorSetUpdates _ o := (⟨o,[]⟩,powers)
  getAllMatureValidators _ _ := []
  unbondAllMatureValidators _ o := ⟨o,[]⟩
  completeUnbonding _ _ _ o := some ⟨o,[]⟩
  completeRedelegation _ _ _ _ o := some ⟨o,[]⟩

def params (epochInterval : Nat) : Params := { DefaultParams with epochInterval }

def genesisState (epochInterval : Nat) (epochs : List Epoch) : GenesisState :=
  ⟨params epochInterval,epochs,[],[],[],[],[]⟩

def genesis (epochInterval : Nat) (e : Epoch) : World Unit where
  header := ⟨⟨0,0,[]⟩,[]⟩
  phase := .idle
  store := Store.atGenesis (params epochInterval) e powers
  staking := ⟨50,denom,[],[],powers⟩
  outside := ⟨(),fun _ _ => 100⟩
  pool := fun _ => 0
  lastFinalizedEpoch := 0
  history := []

theorem params_valid {epochInterval : Nat} (h : 2 ≤ epochInterval) :
    (params epochInterval).validate = .ok () := by
  simp [Params.validate,params,ensure,h,validateExecuteGas,DefaultParams,DefaultExecuteGas,
    bind,Except.bind]

theorem genesis_starts (epochInterval interval : Nat) (h : 2 ≤ epochInterval) :
    Starts (genesisState epochInterval [Epoch.new 0 interval 0 (some 0)])
      (genesis epochInterval (Epoch.new 0 interval 0 (some 0))) where
  fresh := ⟨.inr ⟨interval,0,rfl⟩,rfl,rfl,rfl,rfl,rfl⟩
  height := rfl
  genesis := by
    simp only [Store.initGenesis,ok_iff,Store.setParams]
    exact ⟨_,rfl,_,rfl,_,rfl,_,rfl,_,rfl,_,rfl,(),params_valid h,rfl⟩
  phase := rfl
  ubdQueue := rfl
  redelegationQueue := rfl
  pool := rfl
  finalized := rfl
  history := rfl

def next (g : World Unit → Action Unit → Bool) (w : World Unit) (a : Action Unit) :
    Result (World Unit) := do
  ensure (w.enabled a ∧ g w a = true) (.panic "not enabled")
  w.exec keeper a

theorem reachable_run {g : World Unit → Action Unit → Bool}
    {G : World Unit → Action Unit → World Unit → Prop}
    (hG : ∀ w a w', g w a = true → G w a w') {epochInterval interval : Nat} (h : 2 ≤ epochInterval)
    {actions : List (Action Unit)} {test : World Unit → Bool}
    (hr : holds (actions.foldlM (next g) (genesis epochInterval (Epoch.new 0 interval 0 (some 0))))
      test = true) :
    ∃ w, ((system keeper).restrict G).Reachable w ∧ test w = true := by
  obtain ⟨w,hw,hts⟩ := holds_iff.mp hr
  refine ⟨w,?_,hts⟩
  refine foldlM_keeps (P := ((system keeper).restrict G).Reachable) ?_
    (.init ⟨_,genesis_starts _ _ h⟩) hw
  intro a _ t t' ht hn
  simp only [next,ok_iff] at hn
  exact ht.step ⟨⟨hn.1.1,hn.2⟩,hG t a t' hn.1.2⟩

def header (height : Nat) : Header := ⟨⟨height,10*height,[]⟩,[1,Fin.ofNat _ height]⟩

def block (height : Nat) (actions : List (Action Unit)) : List (Action Unit) :=
  [.startBlock (header height),.beginBlock] ++ actions ++ [.endBlock]

end AnonChain.Epoching.Regtest
