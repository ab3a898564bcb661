import SicXE.Text.Alphabetic
import SicXE.Text.Numeric

/-! # Text

A text is a list of characters, so that lengths, columns and padding all count characters.
The character classes are those of Unicode: a symbol is written with alphabetic and numeric
characters and the underscore, and blanks are the whitespace that does not end a line.
-/
namespace SicXE

abbrev Text := List Char

namespace Text

def whitespace : Ranges := [
  (0x9,0xD), (0x20,0x20), (0x85,0x85), (0xA0,0xA0), (0x1680,0x1680), (0x2000,0x200A),
  (0x2028,0x2029), (0x202F,0x202F), (0x205F,0x205F), (0x3000,0x3000)]

def isAlphabetic (a : Char) : Bool := Alphabetic.table.contains a.toNat

def isNumeric (a : Char) : Bool := Numeric.table.contains a.toNat

def isWhitespace (a : Char) : Bool := whitespace.contains a.toNat

/-- Whitespace within a line. A carriage return is a blank, so a line may end with one. -/
def isBlank (a : Char) : Bool := isWhitespace a && a != '\n'

def isSymbolChar (a : Char) : Bool := isAlphabetic a || isNumeric a || a == '_'

/-- A symbol used as an operand starts with a letter or an underscore. -/
def isSymbolStart (a : Char) : Bool := isAlphabetic a || a == '_'

def trimStart (t : Text) : Text := t.dropWhile isWhitespace

def trimEnd (t : Text) : Text := (t.reverse.dropWhile isWhitespace).reverse

def trim (t : Text) : Text := trimEnd (trimStart t)

def padLeft (width : Nat) (t : Text) : Text := t.leftpad width ' '

def padRight (width : Nat) (t : Text) : Text := t.rightpad width ' '

@[simp] theorem isBlank_newline : isBlank '\n' = false := by decide

theorem isBlank_of_isWhitespace {a : Char} (ha : isWhitespace a) (hn : a ≠ '\n') :
    isBlank a := by
  simp [isBlank,ha,hn]

@[simp] theorem trimEnd_nil : trimEnd [] = [] := rfl

end Text
end SicXE
