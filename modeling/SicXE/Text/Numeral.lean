import SicXE.Text.Basic

/-! # Numerals

Reading and writing of natural numbers. Digits beyond nine are the letters of either case,
up to radix thirty-six; written numbers have no leading zero and use capital letters.
-/
namespace SicXE.Text

/-- The value of a digit, whatever the radix. -/
def digitValue? (a : Char) : Option Nat :=
  if a.isDigit then some (a.toNat - 48)
  else if a.isUpper then some (a.toNat - 55)
  else if a.isLower then some (a.toNat - 87)
  else none

/-- The value of a digit of the given radix. -/
def digit? (radix : Nat) (a : Char) : Option Nat := (digitValue? a).filter (· < radix)

def isDigitOf (radix : Nat) (a : Char) : Bool := (digit? radix a).isSome

def isHexDigit (a : Char) : Bool := isDigitOf 16 a

/-- The value of a row of digits, the most significant first. -/
def numeral (radix : Nat) (digits : Text) : Nat :=
  digits.foldl (fun n a => n * radix + (digitValue? a).getD 0) 0

@[simp] theorem numeral_nil (radix : Nat) : numeral radix [] = 0 := rfl

theorem numeral_concat (radix : Nat) (digits : Text) (a : Char) :
    numeral radix (digits ++ [a]) = numeral radix digits * radix + (digitValue? a).getD 0 := by
  simp [numeral]

def decimal (n : Nat) : Text := Nat.toDigits 10 n

def hex (n : Nat) : Text := (Nat.toDigits 16 n).map Char.toUpper

/-- How a number is written in hexadecimal: with a leading `0x` or without, and filled to a
least width by zeros after the mark or by spaces before it. -/
structure HexStyle where
  marked : Bool := false
  zeroFilled : Bool := false
  width : Nat := 0

def HexStyle.write (style : HexStyle) (n : Nat) : Text :=
  let mark : Text := if style.marked then ['0','x'] else []
  if style.zeroFilled then mark ++ (hex n).leftpad (style.width - mark.length) '0'
  else padLeft style.width (mark ++ hex n)

/-- One of the sixteen capital digits. -/
def hexDigit (n : Nat) : Char := n.digitChar.toUpper

/-- The two digits of a byte. -/
def hexByte (b : UInt8) : Text := [hexDigit (b.toNat / 16),hexDigit (b.toNat % 16)]

def hexBytes (bs : List UInt8) : Text := bs.flatMap hexByte

@[simp] theorem hexBytes_nil : hexBytes [] = [] := rfl

@[simp] theorem hexBytes_cons (b : UInt8) (bs : List UInt8) : hexBytes (b :: bs) =
    hexDigit (b.toNat / 16) :: hexDigit (b.toNat % 16) :: hexBytes bs := rfl

/-- The bytes written by pairs of hexadecimal digits; none when a character is no digit or the
last digit has no partner. -/
def hexBytes? : Text → Option (List UInt8)
  | [] => some []
  | [_] => none
  | a :: b :: rest => do
    let high ← digit? 16 a
    let low ← digit? 16 b
    return UInt8.ofNat (high * 16 + low) :: (← hexBytes? rest)

end SicXE.Text
