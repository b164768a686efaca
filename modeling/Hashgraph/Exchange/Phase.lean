/-! The roles and phases of an exchange between two members. -/

namespace Hashgraph

inductive Role where
  | caller
  | listener
deriving DecidableEq, Repr

def Role.name : Role → String
  | .caller => "caller"
  | .listener => "listener"

inductive Phase where
  | idle
  | tipsExchanged
  | booleansExchanged
  | finished
deriving DecidableEq, Repr

namespace Phase

def rank : Phase → Nat
  | .idle => 0
  | .tipsExchanged => 1
  | .booleansExchanged => 2
  | .finished => 3

/-- The name that messages use. -/
def name : Phase → String
  | .idle => "idle"
  | .tipsExchanged => "tips-exchanged"
  | .booleansExchanged => "booleans-exchanged"
  | .finished => "finished"

/-- The name that the description of a session uses. -/
def label : Phase → String
  | .idle => "Idle"
  | .tipsExchanged => "TipsExchanged"
  | .booleansExchanged => "BooleansExchanged"
  | .finished => "Finished"

end Phase
end Hashgraph
