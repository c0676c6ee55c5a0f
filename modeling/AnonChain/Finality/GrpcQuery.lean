import AnonChain.Finality.Keeper

/-! The queries of the finality module for evidence. -/

namespace AnonChain.Finality

open Lib

namespace State

variable (E : Env)

def getFirstSlashableEvidence (s : State) (fpBtcPk : BIP340PubKey) : Option Evidence :=
  ((s.evidences.sub fpBtcPk).entries.find? fun e => e.2.isSlashable E).map Prod.snd

/-- One page of the first slashable evidences of the providers, from a block height on. Every
evidence of a provider is a key, and each of them yields the same evidence. -/
def listEvidences (s : State) (startHeight : Nat)
    (key : Option (BIP340PubKey ×ₗ Nat)) (limit : Nat) :
    List Evidence × Option (BIP340PubKey ×ₗ Nat) :=
  E.filteredPaginate.page (fun k => (s.getFirstSlashableEvidence E (ofLex k).1).filter
    (startHeight ≤ ·.blockHeight))
    s.evidences.keys₂ key limit

def slashableEvidences (s : State) : List Evidence :=
  (s.evidences.entries.flatMap fun e => e.2.entries.map Prod.snd).filter (Evidence.isSlashable E)

end State

end AnonChain.Finality
