import SicXE.Text.Basic

/-! # UTF-8

Bytes are read by a machine that holds what it knows of an unfinished character: how many
bytes follow the next one, the interval the next one lies in, and the bits seen so far.
Every longest start of a character that cannot be completed counts as one fault, so `pieces`
lists the characters of the input with `none` in place of each fault.
-/
namespace SicXE.Text.Utf8

structure Pending where
  more : Nat
  low : UInt8
  high : UInt8
  bits : Nat
  deriving DecidableEq,Repr

/-- Pieces completed by a byte, and what is then unfinished. -/
abbrev Fed := List (Option Char) × Option Pending

/-- A byte between characters. -/
def first (b : UInt8) : Fed :=
  if b < 0x80 then ([some (Char.ofNat b.toNat)],none)
  else if b < 0xC2 then ([none],none)
  else if b < 0xE0 then ([],some ⟨0,0x80,0xBF,b.toNat - 0xC0⟩)
  else if b < 0xF0 then
    ([],some ⟨1,if b = 0xE0 then 0xA0 else 0x80,if b = 0xED then 0x9F else 0xBF,b.toNat - 0xE0⟩)
  else if b < 0xF5 then
    ([],some ⟨2,if b = 0xF0 then 0x90 else 0x80,if b = 0xF4 then 0x8F else 0xBF,b.toNat - 0xF0⟩)
  else ([none],none)

/-- A byte within a character. One that does not belong to it ends it as a fault and is taken
as a first byte. -/
def Pending.feed (p : Pending) (b : UInt8) : Fed :=
  if p.low ≤ b ∧ b ≤ p.high then
    let bits := p.bits * 64 + (b.toNat - 0x80)
    match p.more with
    | 0 => ([some (Char.ofNat bits)],none)
    | more + 1 => ([],some ⟨more,0x80,0xBF,bits⟩)
  else
    let fed := first b
    (none :: fed.1,fed.2)

def feed : Option Pending → UInt8 → Fed
  | none,b => first b
  | some p,b => p.feed b

def piecesFrom : Option Pending → List UInt8 → List (Option Char)
  | none,[] => []
  | some _,[] => [none]
  | state,b :: bs =>
    let fed := feed state b
    fed.1 ++ piecesFrom fed.2 bs

def pieces (bs : List UInt8) : List (Option Char) := piecesFrom none bs

/-- The text of bytes that hold no fault. -/
def decode? (bs : List UInt8) : Option Text := (pieces bs).mapM id

/-- Every fault is shown as the replacement character. -/
def decodeLossy (bs : List UInt8) : Text := (pieces bs).map (·.getD '\ufffd')

def encode (t : Text) : List UInt8 := t.flatMap String.utf8EncodeChar

@[simp] theorem pieces_nil : pieces [] = [] := rfl

@[simp] theorem encode_nil : encode [] = [] := rfl

end SicXE.Text.Utf8
