import Std.Time.DateTime.Timestamp
import Hashgraph.CommandLine.Execution

/-! The command line of the simulator. -/

namespace Hashgraph.CommandLine

/-- The fault that an error of the file system stands for. -/
def faultOf : IO.Error → Files.Fault
  | .noFileOrDirectory .. => .missing
  | .inappropriateType _ 20 _ => .notDirectory
  | .inappropriateType _ 21 _ => .isDirectory
  | .resourceExhausted _ 28 _ => .noSpace
  | .invalidArgument _ 36 _ => .nameTooLong
  | error => .other (toString error)

/-- A path can be opened, or is closed only to its reader. -/
def canOpen (path : String) : IO Bool := do
  try
    let _ ← IO.FS.Handle.mk path .read
    return true
  catch
    | .permissionDenied .. => return true
    | _ => return false

def readBytes (path : String) : IO (Option Bytes) := do
  try
    return some (← IO.FS.readBinFile path).toList
  catch _ => return none

def writeText (path text : String) : IO (Except Files.Fault Unit) := do
  try
    let file ← IO.FS.Handle.mk path .write
    file.putStr text
    file.flush
    return .ok ()
  catch error => return .error (faultOf error)

def epochMilliseconds : IO Timestamp := do
  let now ← Std.Time.Timestamp.now
  return Int64.ofInt now.toMillisecondsSinceUnixEpoch.val

def ioSurroundings : Surroundings IO where
  holds := canOpen
  read := readBytes
  write := writeText
  now := epochMilliseconds
  milliseconds := IO.monoMsNow

/-- Answers the exit code: 2 for a line that breaks the rules, 1 for a run that fails. -/
def runMain (arguments : List String) : IO UInt32 := do
  let seed ← IO.getEnv seedVariable
  match Request.read? arguments seed with
  | none =>
    IO.eprintln "error: invalid arguments\n\nFor more information, try '--help'."
    return 2
  | some request =>
    let outcome ← request.execute ioSurroundings seed
    IO.print outcome.output
    match outcome.error with
    | none => return 0
    | some message =>
      IO.eprintln ("Error: " ++ message)
      return 1

end Hashgraph.CommandLine

def main (arguments : List String) : IO UInt32 := Hashgraph.CommandLine.runMain arguments
