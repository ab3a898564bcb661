import SicXE.Machine.Word
import SicXE.Source.Position

/-! # Diagnostics

A fault is a reason for which a source text is rejected, with the characters, words and bounds
it speaks of. A diagnostic is a fault at a position, and the first one ends the reading.
-/
namespace SicXE

inductive Fault where
  | expectedFound (wanted found : Char)
  | expectedAtLineEnd (wanted : Char)
  | expectedAtInputEnd (wanted : Char)
  | invalidMnemonic (spelling : Text)
  | registerMissing
  | invalidRegister (found : Char)
  | numberExpected
  | invalidDigit (found : Char)
  | invalidNumber
  | outOfRange (number : Text) (lo hi : Nat)
  | valueExpected
  | unterminatedLiteral
  | invalidHexDigit (found : Char)
  | oddHexLiteral (body : Text)
  | invalidHexLiteral
  | wordOverflow (n : Nat) (cause : WidthFault)
  | dataMissing
  | invalidData (found : Char)
  deriving DecidableEq,Repr

namespace Fault

/-- A text between single quotes. -/
def quoted (t : Text) : String := "'" ++ String.ofList t ++ "'"

def message : Fault → String
  | expectedFound wanted found => s!"Expected '{wanted}' but found '{found}'"
  | expectedAtLineEnd wanted => s!"Expected '{wanted}' but reached end of line"
  | expectedAtInputEnd wanted => s!"Expected '{wanted}' but reached end of input"
  | invalidMnemonic spelling => "Invalid mnemonic " ++ quoted spelling
  | registerMissing => "Invalid register: operand is missing"
  | invalidRegister found => s!"Invalid register '{found}'"
  | numberExpected => "Number expected"
  | invalidDigit found => s!"Invalid digit '{found}'"
  | invalidNumber => "Invalid number"
  | outOfRange number lo hi => "Number " ++ quoted number ++ s!" out of range [{lo}..{hi}]"
  | valueExpected => "Number or symbol expected"
  | unterminatedLiteral => "Unterminated literal"
  | invalidHexDigit found => s!"Invalid hex digit '{found}' in literal"
  | oddHexLiteral body => "Hex literal " ++ quoted body ++ " has an odd number of digits"
  | invalidHexLiteral => "Invalid hex literal"
  | wordOverflow n cause => s!"Number '{n}' does not fit in a word: {cause.message}"
  | dataMissing => "Invalid storage specifier: operand is missing"
  | invalidData found => s!"Invalid storage specifier '{found}'"

theorem message_invalidMnemonic (spelling : Text) :
    (invalidMnemonic spelling).message = s!"Invalid mnemonic '{String.ofList spelling}'" := by
  change "Invalid mnemonic " ++ quoted spelling = _
  simp only [quoted,← String.toList_inj,String.toList_append,String.reduceToList]
  rfl

theorem message_outOfRange (number : Text) (lo hi : Nat) : (outOfRange number lo hi).message =
    s!"Number '{String.ofList number}' out of range [{lo}..{hi}]" := by
  change "Number " ++ quoted number ++ s!" out of range [{lo}..{hi}]" = _
  simp only [quoted,← String.toList_inj,String.toList_append,String.reduceToList,List.append_assoc]
  rfl

theorem message_oddHexLiteral (body : Text) : (oddHexLiteral body).message =
    s!"Hex literal '{String.ofList body}' has an odd number of digits" := by
  change "Hex literal " ++ quoted body ++ " has an odd number of digits" = _
  simp only [quoted,← String.toList_inj,String.toList_append,String.reduceToList,List.append_assoc]
  rfl

end Fault

structure Diagnostic where
  fault : Fault
  location : Position
  deriving DecidableEq,Repr

namespace Diagnostic

def message (d : Diagnostic) : String := d.fault.message

def text (d : Diagnostic) : String := d.location.text ++ ": " ++ d.message

end Diagnostic
end SicXE
