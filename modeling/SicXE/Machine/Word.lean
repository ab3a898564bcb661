import SicXE.Text.Numeral

/-! # Words, addresses and displacements

The machine's quantities are unsigned numbers of a fixed width, and the bound is part of the
type. A word is 24 bits and is stored as three bytes, the most significant first; an extended
instruction carries a 20-bit address and a format 3 instruction a 12-bit displacement.
-/
namespace SicXE

/-- How many values a number of bits can hold. -/
def capacity (width : Nat) : Nat := Nat.pow 2 width

theorem capacity_pos (width : Nat) : 0 < capacity width := Nat.two_pow_pos width

structure Unsigned (width : Nat) where
  bits : Nat
  bits_lt : bits < capacity width
  deriving DecidableEq,Repr

abbrev Word := Unsigned 24
abbrev Address := Unsigned 20
abbrev Displacement := Unsigned 12

/-- Why a number is not a quantity of some width. -/
inductive WidthFault where
  | tooLarge
  deriving DecidableEq,Repr

def WidthFault.message : WidthFault → String
  | tooLarge => "value is too large"

namespace Unsigned

variable {width : Nat}

@[ext] theorem ext {v w : Unsigned width} (h : v.bits = w.bits) : v = w := by
  cases v
  cases w
  cases h
  rfl

def ofNat (width n : Nat) : Except WidthFault (Unsigned width) :=
  if h : n < capacity width then .ok ⟨n,h⟩ else .error .tooLarge

theorem ofNat_eq_ok_iff {n : Nat} {w : Unsigned width} : ofNat width n = .ok w ↔ w.bits = n := by
  constructor
  · intro h
    unfold ofNat at h
    split at h
    · cases h
      rfl
    · cases h
  · rintro rfl
    exact dif_pos w.bits_lt

def zero (width : Nat) : Unsigned width := ⟨0,capacity_pos width⟩

def max (width : Nat) : Unsigned width :=
  ⟨capacity width - 1,Nat.sub_one_lt_of_lt (capacity_pos width)⟩

instance : Inhabited (Unsigned width) := ⟨zero width⟩

instance : LE (Unsigned width) := ⟨fun v w => v.bits ≤ w.bits⟩

theorem le_max (w : Unsigned width) : w ≤ max width := Nat.le_sub_one_of_lt w.bits_lt

/-- A quantity is written as its bits in hexadecimal. -/
def write (style : Text.HexStyle) (w : Unsigned width) : Text := style.write w.bits

/-- The width and the bits, as they are shown to a programmer. -/
def describe (w : Unsigned width) : String :=
  "Unsigned" ++ toString width ++ "Bit\x7bbits: " ++
    String.ofList (w.write ⟨true,false,0⟩) ++ "\x7d"

end Unsigned

/-- The greatest number a word holds. -/
def wordLimit : Nat := (Unsigned.max 24).bits

/-- The greatest address an extended instruction can name. -/
def addressLimit : Nat := (Unsigned.max 20).bits

/-- The greatest displacement a format 3 instruction can carry. -/
def displacementLimit : Nat := (Unsigned.max 12).bits

namespace Word

def high (w : Word) : UInt8 := UInt8.ofNat (w.bits / 65536)

def middle (w : Word) : UInt8 := UInt8.ofNat (w.bits / 256)

def low (w : Word) : UInt8 := UInt8.ofNat w.bits

/-- The three bytes of a word in the order of memory. -/
def toBytes (w : Word) : List UInt8 := [high w,middle w,low w]

def ofBytes (high middle low : UInt8) : Word where
  bits := high.toNat * 65536 + middle.toNat * 256 + low.toNat
  bits_lt := by
    have hh := high.toNat_lt
    have hm := middle.toNat_lt
    have hl := low.toNat_lt
    have hc : capacity 24 = 16777216 := rfl
    omega

end Word
end SicXE
