import SicXE.Source.Cursor
import SicXE.Source.Diagnostic
import SicXE.Text.Numeral

/-! # Scans

A scan reads from a cursor and either gives a value or fails with a diagnostic; in both cases
it leaves the cursor somewhere. The module holds the scans that all others are made of.
-/
namespace SicXE

abbrev Scan := EStateM Diagnostic Cursor

namespace Scan
open Text

variable {α : Type}

def here : Scan Position := do return (← get).pos

def peek : Scan (Option Char) := do return (← get).peek

def atEndOfLine : Scan Bool := do return (← get).atEndOfLine

def atDigit : Scan Bool := do return (← get).atDigit

def atStartOfLine : Scan Bool := do return (← get).atStartOfLine

def failAt (location : Position) (fault : Fault) : Scan α := throw ⟨fault,location⟩

def fail (fault : Fault) : Scan α := do failAt (← here) fault

/-- Consumes the next character, if there is one. -/
def advance : Scan (Option Char) := modifyGet fun c => (c.peek,c.advance)

/-- Consumes the next character of the line; none at its end. -/
def next : Scan (Option Char) :=
  modifyGet fun c => if c.atEndOfLine then (none,c) else (c.peek,c.advance)

/-- Consumes the next character if it is the given one. -/
def advanceIf (a : Char) : Scan Bool :=
  modifyGet fun c => if c.peek = some a then (true,c.advance) else (false,c)

/-- Consumes the next character, which has to be the given one. -/
def expect (wanted : Char) : Scan Unit := do
  if ← advanceIf wanted then return ()
  else
    match ← peek with
    | none => fail (.expectedAtInputEnd wanted)
    | some found =>
      if found = '\n' then fail (.expectedAtLineEnd wanted)
      else fail (.expectedFound wanted found)

/-- The longest run of characters that satisfy a predicate. -/
def readWhile (p : Char → Bool) : Scan Text :=
  modifyGet fun c => (c.rest.takeWhile p,c.dropWhile p)

/-- Skips blanks and says whether nothing else is left on the line. -/
def skipBlanks : Scan Bool := do
  let _ ← readWhile isBlank
  atEndOfLine

def readSymbol : Scan Text := readWhile isSymbolChar

def readDigits (radix : Nat) : Scan Text := readWhile (isDigitOf radix)

/-- The text before a delimiter, which is consumed as well, or all that is left. -/
def readTo (delimiter : Char) : Scan Text :=
  modifyGet fun c => (c.rest.takeWhile (· != delimiter),c.dropTo delimiter)

/-- Turns a fault of a value into a failure at a position. -/
def orFailAt (location : Position) : Except Fault α → Scan α
  | .ok a => pure a
  | .error fault => failAt location fault

end Scan
end SicXE
