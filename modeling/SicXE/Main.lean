import SicXE.Command.Run

/-! # The command line

Reads the input file if one is given, runs the command, and writes what it says.
-/
namespace SicXE.Command

/-- The reason of the system, as failures report it. -/
def reasonOf : IO.Error → String
  | .noFileOrDirectory _ code details | .permissionDenied _ code details
  | .inappropriateType _ code details | .resourceExhausted _ code details
  | .invalidArgument _ code details => details ++ " (os error " ++ toString code ++ ")"
  | e => toString e

def readInput (args : List Text) : IO Reader := do
  match Options.parse args with
  | .ok { mnemonics := false, input := some name, .. } =>
    try
      let handle ← IO.FS.Handle.mk (String.ofList (Text.Utf8.decodeLossy name)) .read
      let bytes ← handle.readBinToEnd
      return fun _ => .ok bytes.toList
    catch e => return fun _ => .error (reasonOf e)
  | _ => return fun _ => .ok []

/-- Writes an outcome; when its output is refused, the reason decides a second outcome. -/
def deliver (outcome : Outcome) (refused : String → Outcome) : IO UInt32 := do
  let out ← IO.getStdout
  let report (o : Outcome) : IO UInt32 := do
    IO.eprint (String.ofList o.stderr)
    return UInt32.ofNat o.status
  try
    out.putStr (String.ofList outcome.stdout)
    out.flush
    report outcome
  catch e => report (refused (reasonOf e))

end SicXE.Command

open SicXE.Command in
def main (args : List String) : IO UInt32 := do
  let args := args.map String.toList
  let reader ← readInput args
  deliver (run args reader .accepting) fun reason => run args reader (.rejecting reason)
