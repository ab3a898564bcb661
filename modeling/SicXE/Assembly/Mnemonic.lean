import SicXE.Assembly.Operand
import SicXE.Machine.Opcode
import SicXE.Machine.Word

/-! # Mnemonics

A mnemonic stands for an operation and says which shape its operand has. The spelling is the
name of the operation, with a plus sign before it when the operand has the extended shape.
-/
namespace SicXE

inductive Directive where
  | nobase | ltorg | start | finish | base | equ | org
  deriving DecidableEq,Repr

inductive Storage where
  | resb | resw | byte | word
  deriving DecidableEq,Repr

/-- What a mnemonic stands for. -/
inductive Operation where
  | directive (d : Directive)
  | storage (s : Storage)
  | instruction (op : Opcode)
  deriving DecidableEq,Repr

/-- How the operand of a mnemonic is written. The numbers of a directive have a limit. -/
inductive Shape where
  | directive
  | directiveOperand (limit : Nat)
  | directiveOptional (limit : Nat)
  | storageReserve
  | storageByte
  | storageWord
  | format1
  | format2Number
  | format2Register
  | format2RegisterNumber
  | format2RegisterPair
  | format3
  | format3Memory
  | format4Memory
  deriving DecidableEq,Repr

structure Mnemonic where
  operation : Operation
  shape : Shape
  /-- The effect, in the language of register transfers. -/
  pattern : String
  description : String
  deriving DecidableEq,Repr

def Directive.name : Directive → String
  | nobase => "NOBASE"
  | ltorg => "LTORG"
  | start => "START"
  | finish => "END"
  | base => "BASE"
  | equ => "EQU"
  | org => "ORG"

def Storage.name : Storage → String
  | resb => "RESB"
  | resw => "RESW"
  | byte => "BYTE"
  | word => "WORD"

def Operation.name : Operation → String
  | directive d => d.name
  | storage s => s.name
  | instruction op => op.name

def Operation.opcode? : Operation → Option Opcode
  | instruction op => some op
  | _ => none

/-- The greatest number a directive accepts, where the shape sets one. -/
def Shape.limit? : Shape → Option Nat
  | directiveOperand limit | directiveOptional limit => some limit
  | _ => none

def Shape.isExtended : Shape → Bool
  | format4Memory => true
  | _ => false

def Mnemonic.spelling (m : Mnemonic) : Text :=
  (if m.shape.isExtended then ['+'] else []) ++ m.operation.name.toList

end SicXE
