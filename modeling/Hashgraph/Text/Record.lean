/-! Records, options and lists as one line of text. -/

namespace Hashgraph.Text

/-- A record: its name, then its fields in braces. -/
def record (name : String) (fields : List (String × String)) : String :=
  name ++ " \x7b " ++ ", ".intercalate (fields.map fun (field, value) => field ++ ": " ++ value) ++
    " \x7d"

def optional (value : Option String) : String :=
  match value with
  | none => "None"
  | some value => "Some(" ++ value ++ ")"

def bracketed (items : List String) : String := "[" ++ ", ".intercalate items ++ "]"

end Hashgraph.Text
