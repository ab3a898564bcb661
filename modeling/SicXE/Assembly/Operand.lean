import SicXE.Assembly.Symbol
import SicXE.Machine.Register
import SicXE.Text.Numeral

/-! # Operands

What may follow a mnemonic, and the normal form in which it is listed. Numbers are listed in
decimal and bytes in hexadecimal, however they were written. Symbols are not resolved, so an
operand of a memory instruction holds no address or displacement yet.
-/
namespace SicXE
open Text

/-- A number, a symbol, or the location counter `*`. -/
inductive Value where
  | number (n : Nat)
  | symbol (s : Symbol)
  | here
  deriving DecidableEq,Repr

inductive Addressing where
  | simple
  | immediate
  | indirect
  deriving DecidableEq,Repr

/-- What a memory operand refers to: a value, or bytes to be placed in a literal pool. -/
inductive Target where
  | value (v : Value)
  | literal (bytes : List UInt8)
  deriving DecidableEq,Repr

structure MemoryOperand where
  addressing : Addressing
  target : Target
  indexed : Bool
  extended : Bool
  deriving DecidableEq,Repr

inductive Operand where
  | none
  | value (v : Value)
  | optionalValue (v : Option Value)
  | count (n : Nat)
  | data (bytes : List UInt8)
  | number (n : Nat)
  | register (r : Register)
  | registerNumber (r : Register) (n : Nat)
  | registerPair (first second : Register)
  | memory (m : MemoryOperand)
  deriving DecidableEq,Repr

def Value.text : Value → Text
  | number n => decimal n
  | symbol s => s.name
  | here => ['*']

def Addressing.mark : Addressing → Text
  | simple => []
  | immediate => ['#']
  | indirect => ['@']

/-- Bytes between quotes, after the letter that announces hexadecimal digits. -/
def hexLiteral (bytes : List UInt8) : Text := 'X' :: '\x27' :: hexBytes bytes ++ ['\x27']

def Target.text : Target → Text
  | value v => v.text
  | literal bytes => '=' :: hexLiteral bytes

def MemoryOperand.text (m : MemoryOperand) : Text :=
  m.addressing.mark ++ m.target.text ++ if m.indexed then [',','X'] else []

def Operand.text : Operand → Text
  | none | optionalValue Option.none => []
  | value v | optionalValue (some v) => v.text
  | count n | number n => decimal n
  | data bytes => hexLiteral bytes
  | register r => r.name
  | registerNumber r n => r.name ++ ',' :: decimal n
  | registerPair first second => first.name ++ ',' :: second.name
  | memory m => m.text

/-- Whether the operand belongs to a format 4 instruction. -/
def Operand.isExtended : Operand → Bool
  | memory m => m.extended
  | _ => false

end SicXE
