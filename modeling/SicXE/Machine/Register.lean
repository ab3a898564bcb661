import SicXE.Text.Basic

/-! # Registers

Format 2 instructions name a register by its number. Number 7 is unused. The program counter
and the status word have numbers but cannot be written as operands; the others are written
with one letter.
-/
namespace SicXE

inductive Register where
  | a | x | l | b | s | t | f | pc | sw
  deriving DecidableEq,Repr

namespace Register

def number : Register → Nat
  | a => 0
  | x => 1
  | l => 2
  | b => 3
  | s => 4
  | t => 5
  | f => 6
  | pc => 8
  | sw => 9

def name : Register → Text
  | a => ['A']
  | x => ['X']
  | l => ['L']
  | b => ['B']
  | s => ['S']
  | t => ['T']
  | f => ['F']
  | pc => ['P','C']
  | sw => ['S','W']

def all : List Register := [a,x,l,b,s,t,f,pc,sw]

/-- The registers that may be written as operands, by number. -/
def operands : List Register := [a,x,l,b,s,t,f]

def operandLetters : Text := operands.flatMap name

def ofNumber? (n : Nat) : Option Register := all.find? (·.number == n)

/-- The register written as the given letter. -/
def ofLetter? (letter : Char) : Option Register := operands.find? (·.name == [letter])

theorem ofNumber?_number (r : Register) : ofNumber? r.number = some r := by
  cases r <;> rfl

end Register

/-- A number that no register has. -/
structure NoSuchRegister where
  number : Nat
  deriving DecidableEq,Repr

def NoSuchRegister.message (e : NoSuchRegister) : String :=
  "there is no register number " ++ toString e.number

def Register.decode (n : Nat) : Except NoSuchRegister Register :=
  match ofNumber? n with
  | some r => .ok r
  | none => .error ⟨n⟩

end SicXE
