import SicXE.Source.Diagnostic
import SicXE.Text.Utf8

/-! # Failures

The assembler fails when it cannot read its input, when the source is rejected, or when it
cannot write its output. A file name is a row of bytes, and need not be readable as text.
-/
namespace SicXE.Command

abbrev FileName := List UInt8

/-- The name as text, with a remark when some bytes are not readable. -/
def FileName.text (name : FileName) : String :=
  match Text.Utf8.decode? name with
  | some t => String.ofList t
  | none => String.ofList (Text.Utf8.decodeLossy name) ++
      " (some non-Unicode characters changed to make it printable)"

inductive Failure where
  | output (detail : String)
  | input (file : FileName) (detail : String)
  | source (location : Position) (message : String)
  deriving DecidableEq,Repr

namespace Failure

def ofDiagnostic (d : Diagnostic) : Failure := .source d.location d.message

/-- What lies under the failure: the reason of the system, or the fault and its position. -/
def cause : Failure → String
  | output detail | input _ detail => detail
  | source location message => location.text ++ ": " ++ message

def message : Failure → String
  | output detail => "error writing on stdout: " ++ detail
  | input file detail => "I/O error reading input file " ++ FileName.text file ++ ": " ++ detail
  | source location message => "syntax error at " ++ (source location message).cause

end Failure
end SicXE.Command
