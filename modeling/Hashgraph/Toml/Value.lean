import Hashgraph.Toml.Moment
import Hashgraph.Toml.Number

/-! The values of a document. -/

namespace Hashgraph.Toml

/-- A value; the fields of a table keep the order of the document. -/
inductive Value where
  | string (text : String)
  | integer (value : Int)
  | float (value : Decimal)
  | boolean (value : Bool)
  | moment (moment : Moment)
  | array (items : List Value)
  | table (fields : List (String × Value))

instance : Inhabited Value := ⟨.table []⟩

def Value.ofNumber : Number → Value
  | .integer value => .integer value
  | .float value => .float value

end Hashgraph.Toml
