import AnonChain.App

/-! A small environment in which runs can be evaluated, over a curve with eleven elements. -/

namespace AnonChain.Regtest

open Lib BtcLightClient

/-- Multiples of a generator; `k` and `-k` share their x coordinate, the larger one is odd. -/
def curve : Eots.Curve where
  Point := ZMod 11
  n := 11
  p := 6
  prime := ⟨by norm_num⟩
  decEq := (inferInstance : DecidableEq (ZMod 11))
  group := (inferInstance : AddCommGroup (ZMod 11))
  scalars := (inferInstance : Module (ZMod 11) (ZMod 11))
  G := 1
  xCoord P := min (ZMod.val P) (11-ZMod.val P)
  yIsOdd P := 5 < ZMod.val P
  liftX x := if 0 < x ∧ x ≤ 5 then some (x : ZMod 11) else none
  liftX_spec := by
    intro x P h
    split at h
    · rename_i hx
      obtain ⟨h0,h5⟩ := hx
      rw [← Option.some.inj h]
      interval_cases x <;> decide
    · simp at h
  point_ext := by decide

def hashes : Eots.Hashes := ⟨id,fun b => b.drop (b.length-1)⟩

/-- A transaction is named by its lock time; the padding makes the hash longer than any hash the
transaction spends. -/
def txHash (tx : MsgTx) : Hash :=
  ⟨tx.lockTime%256,Nat.mod_lt _ (by decide)⟩ ::
    List.replicate (tx.txIn.map (fun i => i.previousOutPoint.hash.length)).sum 0

def btc : BtcLib where
  txHash := txHash
  doubleHash _ := List.replicate 32 0
  blockHash h := writeBE 32 h.nonce
  calcHeaderWork h := h.bits
  checkHeader _ _ _ := true

def stk : BtcStaking.Env where
  btc := btc
  validPubKey _ := true
  verifyPop _ _ _ := true
  paramsScriptsValid _ := true
  stakingOutput _ _ _ _ value := some ⟨value,[0]⟩
  unbondingOutput _ _ _ _ value := some ⟨value,[1]⟩
  slashingTxMatchesFundingTx _ _ _ _ _ _ := true
  delegatorSlashingSigValid _ _ _ _ _ := true
  preSignedUnbondingTxSane _ := true
  parseCovSlashingSigs _ _ _ sigs := some sigs
  covUnbondingSigValid _ _ _ _ := true
  parseCovUnbondingSlashingSigs _ _ _ sigs := some sigs
  stkExpSigValid _ _ _ _ _ := true
  stakeSpendingTxSane _ := true
  spendStakeTxStakerSigValid _ _ _ _ _ := true
  pubKeyOfSk sk := sk

/-- A commitment is the one public randomness it stands for. -/
def env : Finality.Env where
  stk := stk
  curve := curve
  hashes := hashes
  merkleVerify _ root leaf := root = leaf
  filteredPaginate :=
    { page hit keys key _ := ((keys.filter (fun k => key.all (· ≤ k))).filterMap hit,none)
      mem_page h := by
        obtain ⟨k,hk,hv⟩ := List.mem_filterMap.mp h
        exact ⟨k,(List.mem_filter.mp hk).1,hv⟩
      covers _ hk hs hv := by
        refine .inl (List.mem_filterMap.mpr ⟨_,List.mem_filter.mpr ⟨hk,?_⟩,hv⟩)
        simpa [Option.all_eq_true] using hs }
  commitSigValid _ _ _ _ _ := true
  epochByHeight h := h

def bytes (k : Nat) : Bytes := writeBE 32 k

def btcHeader (prev nonce work : Nat) : BlockHeader :=
  ⟨1,writeBE 32 prev,List.replicate 32 0,0,work,nonce⟩

def headerInfo (height : Nat) : BTCHeaderInfo :=
  ⟨btcHeader (height-1) height 1,writeBE 32 height,height,height⟩

def stkParams : BtcStaking.Params where
  covenantPks := [bytes 9]
  covenantQuorum := 1
  minStakingValueSat := 2
  maxStakingValueSat := 1000
  minStakingTimeBlocks := 1
  maxStakingTimeBlocks := 1000
  slashingPkScript := []
  minSlashingTxFeeSat := 1
  slashingRate := 1
  unbondingTimeBlocks := 5
  unbondingFeeSat := 1
  minCommissionRate := 0
  allowListExpirationHeight := 0
  btcActivationHeight := 1

def finParams (maxActive : Nat) : Finality.Params where
  maxActiveFinalityProviders := maxActive
  signedBlocksWindow := 100
  finalitySigTimeout := 50
  minSignedPerWindow := 0
  minPubRand := 1
  jailDuration := 1
  finalityActivationHeight := 1

/-- A light client that knows the Bitcoin heights 100 and 101. -/
def genesis (maxActive : Nat) : Chain where
  ctx :=
    { header := ⟨0,0,[]⟩
      btclc :=
        { headers := (KVStore.empty.set 100 (headerInfo 100)).set 101 (headerInfo 101)
          hashToHeight := (KVStore.empty.set (writeBE 32 100) 100).set (writeBE 32 101) 101
          insertHeadersAllowList := [] }
      btcConfirmationDepth := 1
      checkpointFinalizationTimeout := 1
      currentEpoch := 1
      lastFinalizedEpoch := 1
      authority := [7] }
  inBlock := false
  stores :=
    { stk :=
        { params := KVStore.empty.set 0 stkParams
          heightToVersionMap := [⟨1,0⟩]
          finalityProviders := .empty
          fpAncAddr := []
          finalityProvidersDeleted := []
          allowedStakingTxHashes := []
          btcDelegations := .empty
          powerDistUpdateEvents := .empty
          btcHeights := .empty
          largestBtcReorg := none
          eventLog := [] }
      fin :=
        { params := finParams maxActive
          blocks := .empty
          nextHeightToFinalize := 0
          nextHeightToReward := 0
          votes := .empty
          evidences := .empty
          votingPower := .empty
          votingPowerDistCache := .empty
          pubRandCommits := .empty
          pubRandCommitIndex := .empty
          pubRand := .empty
          signingInfo := .empty
          missedBlockBitmap := .empty
          hookCalls := [] } }

theorem finParams_valid {maxActive : Nat} (h : maxActive ≠ 0) :
    (finParams maxActive).validate = .ok () := by
  simp only [Finality.Params.validate,ok_iff]
  exact ⟨h,show (0 : Int) < 100 by decide,show (0 : Int) < 50 by decide,
    show (0 : Int) ≤ 0 by decide,show (0 : Int) ≤ BtcStaking.decOne by decide,
    show (1 : Nat) ≠ 0 by decide⟩

theorem genesis_init {n : Nat} : Genesis env (genesis (n+1)) where
  inBlock := rfl
  height := rfl
  btclc := by
    have hk : ∀ h i, (genesis (n+1)).ctx.btclc.headers.get h = some i → i.height = h :=
      KVStore.forall_set rfl (KVStore.forall_set rfl nofun)
    exact ⟨hk _ _,100,_,rfl⟩
  stkParams := KVStore.forall_set rfl nofun
  noProviders := rfl
  noDelegations := rfl
  noEvents := rfl
  noHeights := rfl
  noLog := rfl
  finParams := finParams_valid n.succ_ne_zero
  noBlocks := rfl
  noNext := rfl
  noReward := rfl
  noVotes := rfl
  noEvidence := rfl
  noPower := rfl
  noCache := rfl
  noCommits := rfl
  noIndex := rfl

def register (k : Nat) : Action :=
  .stk (.createFinalityProvider ⟨some [Fin.ofNat _ k],⟨0,0,0⟩,bytes k,[]⟩)

def commit (k : Nat) : Action :=
  .fin (.commitPubRandList ⟨some [],some (bytes k),1,1000,bytes 1,none⟩)

def stakingTx (value : Int) (lockTime : Nat) (spends : List OutPoint) : MsgTx :=
  ⟨spends.map (fun o => ⟨o,[]⟩),[⟨value,[0]⟩],lockTime⟩

/-- A proof whose path has one step, so that it ends in the root of every header. -/
def inclusionProof (tx : MsgTx) (height : Nat) : BtcStaking.InclusionProof :=
  ⟨writeBE 32 height,1,List.replicate (64-(txHash tx).length) 0⟩

def createMsg (k : Nat) (tx : MsgTx) (value : Int) (proof : Option BtcStaking.InclusionProof) :
    BtcStaking.MsgCreateBTCDelegation where
  stakerAddr := some [1]
  pop := []
  btcPk := bytes 8
  fpBtcPkList := [bytes k]
  stakingTime := 50
  stakingValue := value
  stakingTx := tx
  stakingTxInclusionProof := proof
  slashingTx := tx
  delegatorSlashingSig := []
  unbondingTime := 5
  unbondingTx := ⟨[⟨⟨txHash tx,0⟩,[]⟩],[⟨value-1,[1]⟩],0⟩
  unbondingValue := value-1
  unbondingSlashingTx := tx
  delegatorUnbondingSlashingSig := []

def delegate (k : Nat) (value : Int) (lockTime : Nat) : Action :=
  let tx := stakingTx value lockTime []
  .stk (.createBTCDelegation (createMsg k tx value (some (inclusionProof tx 100))))

def sign (tx : MsgTx) (expansionSig : Option Bytes) : Action :=
  .stk (.addCovenantSigs ⟨bytes 9,txHash tx,[[]],[],[[]],expansionSig⟩)

def join (k : Nat) (value : Int) : List Action :=
  [register k,commit k,delegate k value k,sign (stakingTx value k []) none]

def beginBlock (n : Nat) : Action := .beginBlock n (bytes 0)

def vote (k e : Nat) (height : UInt64) : Action :=
  .fin (.addFinalitySig ⟨some [],some (bytes k),height,some (bytes 1),some ⟨1000,
    (height-1).toInt64,[],[]⟩,bytes e,some (bytes ((1+e*k)%11))⟩)

end AnonChain.Regtest
