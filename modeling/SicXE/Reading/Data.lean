import SicXE.Reading.Number
import SicXE.Text.Utf8

/-! # Reading data

Bytes are written as text between quotes after `C`, as hexadecimal digits between quotes after
`X`, or as a number. A number fills a word where a word is asked for; where a byte is asked for
only its low byte is kept. A literal ends on the line it starts on.
-/
namespace SicXE.Reading
open Text Scan

/-- The body of a literal, after its opening quote. -/
def quoted : Scan Text := do
  let body ← readWhile fun a => a != '\x27' && a != '\n'
  if ← advanceIf '\x27' then return body
  else fail .unterminatedLiteral

/-- The bytes of a hexadecimal literal whose body starts at the given position. -/
def hexData (body : Text) (location : Position) : Scan (List UInt8) :=
  match body.dropWhile isHexDigit with
  | a :: _ =>
    failAt (location.along (body.takeWhile isHexDigit).length) (.invalidHexDigit a)
  | [] =>
    if body.length % 2 ≠ 0 then failAt location (.oddHexLiteral body)
    else
      match hexBytes? body with
      | some bytes => pure bytes
      | none => failAt location .invalidHexLiteral

/-- The three bytes of a number as a word. -/
def wordData : Scan (List UInt8) := do
  let n ← number 0 wordLimit
  match Unsigned.ofNat 24 n with
  | .ok w => return Word.toBytes w
  | .error cause => fail (.wordOverflow n cause)

def data : Scan (List UInt8) := do
  if ← advanceIf 'C' then
    expect '\x27'
    return Utf8.encode (← quoted)
  else if ← advanceIf 'X' then
    expect '\x27'
    let location ← here
    hexData (← quoted) location
  else if ← atDigit then wordData
  else
    match ← peek with
    | none => fail .dataMissing
    | some a => if a = '\n' then fail .dataMissing else fail (.invalidData a)

/-- A number of which only the low byte is kept. -/
def byte : Scan (List UInt8) := do
  let n ← number 0 wordLimit
  return [UInt8.ofNat n]

theorem inLine_quoted : InLine quoted := by
  refine (inLine_readWhile (by decide)).bind fun body => ?_
  refine (inLine_advanceIf (by decide)).bind fun _ => ?_
  exact InLine.ite (.pure _) (inLine_fail _)

theorem inLine_hexData (body : Text) (location : Position) : InLine (hexData body location) := by
  unfold hexData
  split
  · exact inLine_failAt _ _
  · refine InLine.ite (inLine_failAt _ _) ?_
    split
    · exact .pure _
    · exact inLine_failAt _ _

theorem inLine_wordData : InLine wordData := by
  refine (inLine_number _ _).bind fun n => ?_
  split
  · exact .pure _
  · exact inLine_fail _

theorem inLine_data : InLine data := by
  refine (inLine_advanceIf (by decide)).bind fun _ => InLine.ite ?_ ?_
  · exact (inLine_expect (by decide)).bind fun _ => inLine_quoted.bind fun _ => .pure _
  refine (inLine_advanceIf (by decide)).bind fun _ => InLine.ite ?_ ?_
  · exact (inLine_expect (by decide)).bind fun _ => (inLine_view _).bind fun _ =>
      inLine_quoted.bind fun _ => inLine_hexData _ _
  refine (inLine_view _).bind fun _ => InLine.ite inLine_wordData ?_
  refine (inLine_view _).bind fun found => ?_
  cases found with
  | none => exact inLine_fail _
  | some a => exact InLine.ite (inLine_fail _) (inLine_fail _)

theorem inLine_byte : InLine byte := (inLine_number _ _).bind fun _ => .pure _

end SicXE.Reading
