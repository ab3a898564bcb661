import SicXE.Reading.Token

/-! # Reading numbers and values

A number is decimal unless `0b`, `0o` or `0x` stands before its digits. A word that starts with
digits and goes on with other symbol characters is not a number. The bounds of a number are
those of its context, and no number of 33 bits or more is within any bounds.
-/
namespace SicXE.Reading
open Text Scan

def radixOfLetter : Char → Option Nat
  | 'b' => some 2
  | 'o' => some 8
  | 'x' => some 16
  | _ => none

/-- The radix announced at the start of a text. -/
def announcedRadix : Text → Option Nat
  | '0' :: letter :: _ => radixOfLetter letter
  | _ => none

/-- The radix of a number and its digits, which may be missing after an announced radix. -/
def digits : Scan (Nat × Text) := do
  match announcedRadix (← get).rest with
  | some radix =>
    let _ ← next
    let _ ← next
    return (radix,← readDigits radix)
  | none =>
    if ← atDigit then return (10,← readDigits 10)
    else fail .numberExpected

/-- The number that digits denote, if there are digits and it lies between the bounds. A number
beyond 32 bits is reported as it was written, any other one in decimal. -/
def bounded (lo hi radix : Nat) (digits : Text) : Except Fault Nat :=
  let n := numeral radix digits
  if digits.isEmpty then .error .invalidNumber
  else if capacity 32 ≤ n then .error (.outOfRange digits lo hi)
  else if n < lo ∨ hi < n then .error (.outOfRange (decimal n) lo hi)
  else .ok n

def number (lo hi : Nat) : Scan Nat := do
  let location ← here
  let (radix,digits) ← digits
  match (← peek).filter isSymbolChar with
  | some a => fail (.invalidDigit a)
  | none => orFailAt location (bounded lo hi radix digits)

/-- A number up to a limit, a symbol, or the location counter. -/
def value (limit : Nat) : Scan Value := do
  match ← peek with
  | none => fail .valueExpected
  | some a =>
    if a.isDigit then return .number (← number 0 limit)
    else if a = '*' then
      let _ ← next
      return .here
    else if isSymbolStart a then return .symbol (← symbol)
    else fail .valueExpected

theorem inLine_digits : InLine digits := by
  refine (inLine_view id).bind fun c => ?_
  split
  · exact inLine_next.bind fun _ => inLine_next.bind fun _ =>
      (inLine_readDigits _).bind fun _ => .pure _
  · refine (inLine_view _).bind fun _ => InLine.ite ?_ (inLine_fail _)
    exact (inLine_readDigits _).bind fun _ => .pure _

theorem inLine_number (lo hi : Nat) : InLine (number lo hi) := by
  refine (inLine_view _).bind fun location => inLine_digits.bind fun ⟨radix,digits⟩ => ?_
  refine (inLine_view _).bind fun found => ?_
  split
  · exact inLine_fail _
  · exact inLine_orFailAt _ _

theorem inLine_value (limit : Nat) : InLine (value limit) := by
  refine (inLine_view _).bind fun found => ?_
  cases found with
  | none => exact inLine_fail _
  | some a =>
    refine InLine.ite ((inLine_number _ _).bind fun _ => .pure _) (InLine.ite ?_ ?_)
    · exact inLine_next.bind fun _ => .pure _
    · exact InLine.ite (inLine_symbol.bind fun _ => .pure _) (inLine_fail _)

end SicXE.Reading
