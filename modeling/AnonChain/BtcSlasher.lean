import AnonChain.App
import AnonChain.Finality.GrpcQuery

/-! The Bitcoin slasher asks the chain for evidences in rounds of pages and remembers one height. -/

namespace AnonChain.BtcSlasher

open Lib
open Finality (Evidence Env State)

def defaultPaginationLimit : Nat := 100

abbrev EvidenceKey := BIP340PubKey ×ₗ Nat

structure Round where
  /-- The round is the one of `Bootstrap`, whose error ends the process. -/
  bootstrap : Bool
  startHeight : Nat
  /-- The key of the page to ask for, which is absent for the first page; `none` after the last. -/
  page : Option (Option EvidenceKey)
  /-- The evidences of the last page that are not handled yet. -/
  pending : List Evidence
  lastSlashedHeight : Nat
  failed : Bool
  visible : List Evidence

structure Slasher where
  running : Bool
  height : Nat
  stored : Option Nat
  round : Option Round
  /-- The evidences for which `SlashFinalityProvider` has succeeded. -/
  processed : List Evidence
  /-- What was visible at the beginning of each round that ended without an error. -/
  completed : List (List Evidence)

inductive Move where
  /-- The process starts with the height of its flag. -/
  | start (startHeight : Nat)
  | tick
  | listEvidences (answered : Bool)
  /-- An evidence is handled; the queries of `SlashFinalityProvider` may fail. -/
  | handle (slashed : Bool)
  | finish (putHeight : Bool)
  | stop

section

variable (E : Env)

def Round.start (bootstrap : Bool) (startHeight : Nat) (fin : State) : Round where
  bootstrap := bootstrap
  startHeight := startHeight
  page := some none
  pending := []
  lastSlashedHeight := 0
  failed := false
  visible := fin.slashableEvidences E

def processEvidence (e : Evidence) (slashed : Bool) : Result Unit := do
  ensure (e.fpBtcPk.length = BIP340PubKeyLen) (.errorf "err parsing fp btc %w")
  let _ ← e.extractBTCSK E
  ensure (slashed = true) (.errorf "failed to get BTC delegations under finality provider %s: %w")

namespace Slasher

def new : Slasher := ⟨false,0,none,none,[],[]⟩

def abort (s : Slasher) (r : Round) : Slasher :=
  { s with running := !r.bootstrap, round := none }

def finish (s : Slasher) (r : Round) (putHeight : Bool) : Slasher :=
  if r.failed then s.abort r
  else if 0 < r.lastSlashedHeight then
    { s with
      -- the error of `PutHeight` is returned by `Bootstrap` and logged by `fetchEvidences`
      running := putHeight || !r.bootstrap
      height := r.lastSlashedHeight+1
      stored := if putHeight then some r.lastSlashedHeight else s.stored
      round := none
      completed := s.completed ++ [r.visible] }
  else { s with round := none, completed := s.completed ++ [r.visible] }

/-- The evidences are those of the chain at this time. -/
def next (fin : State) (s : Slasher) : Move → Option Slasher
  | .start startHeight =>
    if s.running then none
    else
      let startHeight := s.stored.getD startHeight
      some { s with
        running := true, height := startHeight, round := some (.start E true startHeight fin) }
  | .tick =>
    match s.running, s.round with
    | true, none => some { s with round := some (.start E false s.height fin) }
    | _, _ => none
  | .listEvidences answered => do
    let r ← s.round
    match r.page, r.pending with
    | some key, [] =>
      if answered then
        let (evidences,nextKey) := fin.listEvidences E r.startHeight key defaultPaginationLimit
        some { s with round := some { r with pending := evidences, page := nextKey.map some } }
      else some (s.abort r)
    | _, _ => none
  | .handle slashed => do
    let r ← s.round
    match r.pending with
    | [] => none
    | e :: pending =>
      match processEvidence E e slashed with
      | .ok _ =>
        some { s with
          processed := s.processed ++ [e]
          round := some { r with
            pending := pending, lastSlashedHeight := max r.lastSlashedHeight e.blockHeight } }
      | .error _ => some { s with round := some { r with pending := pending, failed := true } }
  | .finish putHeight => do
    let r ← s.round
    match r.page, r.pending with
    | none, [] => some (s.finish r putHeight)
    | _, _ => none
  | .stop => some { s with running := false, round := none }

end Slasher

end

structure World where
  chain : Chain
  slasher : Slasher

inductive Act where
  | chain (a : Action)
  | slasher (m : Move)

/-- The queries of the slasher read the state between two blocks. -/
def world (E : Env) : System World Act where
  init w := Genesis E w.chain ∧ w.slasher = .new
  step w a w' :=
    match a with
    | .chain a => (chain E).step w.chain a w'.chain ∧ w'.slasher = w.slasher
    | .slasher m =>
      w.chain.inBlock = false ∧ w'.chain = w.chain ∧
        w.slasher.next E w.chain.stores.fin m = some w'.slasher

end AnonChain.BtcSlasher
