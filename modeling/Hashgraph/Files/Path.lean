/-! Paths in a tree of files: where a walk starts, the directories it goes through, and its last
step. -/

namespace Hashgraph.Files

inductive Fault where
  | missing
  | notDirectory
  | isDirectory
  | nameTooLong
  | noSpace
  | other (message : String)
deriving DecidableEq, Repr

def Fault.message : Fault → String
  | .missing => "No such file or directory (os error 2)"
  | .notDirectory => "Not a directory (os error 20)"
  | .isDirectory => "Is a directory (os error 21)"
  | .noSpace => "No space left on device (os error 28)"
  | .nameTooLong => "File name too long (os error 36)"
  | .other message => message

inductive Step where
  | stay
  | up
  | down (name : String)
deriving DecidableEq, Repr

def Step.ofName (name : String) : Step :=
  if name = "." then .stay else if name = ".." then .up else .down name

structure Path where
  fromRoot : Bool
  /-- The steps before the last, each of which has to reach a directory. -/
  parents : List Step
  last : Step
  /-- The path ends in a slash, so it names a directory. -/
  namesDirectory : Bool
deriving DecidableEq, Repr

def Path.maxSize : Nat := 4095

/-- Reads a path. Slashes next to each other count as one, and one in front starts at the root. -/
def Path.ofText (text : String) : Except Fault Path :=
  if text = "" then .error .missing
  else if maxSize < text.utf8ByteSize then .error .nameTooLong
  else
    let steps := ((text.splitOn "/").filter (· ≠ "")).map Step.ofName
    .ok {
      fromRoot := text.startsWith "/"
      parents := steps.dropLast
      last := steps.getLast?.getD .stay
      namesDirectory := text.endsWith "/" }

end Hashgraph.Files
