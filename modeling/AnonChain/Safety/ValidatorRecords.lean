import AnonChain.Epoching.Regtest

/-! The lifecycle records of validators at the finalization of an epoch. -/

namespace AnonChain.Epoching

open Lib List

structure QueuedValidator where
  addr : Address
  time : Nat
  height : Nat

/-- The queued validators whose time and height are not after those of the header: what
`getAllMatureValidators` returns, and what `UnbondAllMatureValidators` moves. -/
def matureValidators (header : Header) (queue : List QueuedValidator) : List Address :=
  (queue.filter (fun q => q.height ≤ header.height ∧ q.time ≤ header.time)).map (·.addr)

namespace Store

variable {s : Store} {v : Address}

end Store

namespace World

variable {R : Type} {k : StakingKeeper R} {w w' : World R} {header : Header} {n : Nat}

variable {queue : R → List QueuedValidator}

end World

namespace Regtest

open Epoching.World

end Regtest

end AnonChain.Epoching
