import SicXE.Text.Numeral

/-! # Opcodes

The machine instructions, their numbers and their formats. An opcode number is a multiple of
four: the two low bits of the first byte of an instruction are used for addressing. A format
3 instruction becomes a format 4 one, a byte longer, when it is written as extended.
-/
namespace SicXE

inductive Format where
  | one
  | two
  | threeOrFour
  deriving DecidableEq,Repr

namespace Format

def name : Format → String
  | one => "format 1"
  | two => "format 2"
  | threeOrFour => "format 3/4"

/-- The length in bytes; only the last format has an extended form. -/
def length (extended : Bool) : Format → Nat
  | one => 1
  | two => 2
  | threeOrFour => if extended then 4 else 3

end Format

inductive Opcode where
  | lda | ldx | ldl | sta | stx | stl | add | sub | mul | div | comp | tix | jeq | jgt
  | jlt | j | and | or | jsub | rsub | ldch | stch | addf | subf | mulf | divf | ldb
  | lds | ldf | ldt | stb | sts | stf | stt | compf | addr | subr | mulr | divr | compr
  | shiftl | shiftr | rmo | svc | clear | tixr | float | fix | norm | lps | sti | rd | wd
  | td | stsw | ssk | sio | hio | tio
  deriving DecidableEq,Repr

namespace Opcode

def number : Opcode → Nat
  | lda => 0x00
  | ldx => 0x04
  | ldl => 0x08
  | sta => 0x0C
  | stx => 0x10
  | stl => 0x14
  | add => 0x18
  | sub => 0x1C
  | mul => 0x20
  | div => 0x24
  | comp => 0x28
  | tix => 0x2C
  | jeq => 0x30
  | jgt => 0x34
  | jlt => 0x38
  | j => 0x3C
  | and => 0x40
  | or => 0x44
  | jsub => 0x48
  | rsub => 0x4C
  | ldch => 0x50
  | stch => 0x54
  | addf => 0x58
  | subf => 0x5C
  | mulf => 0x60
  | divf => 0x64
  | ldb => 0x68
  | lds => 0x6C
  | ldf => 0x70
  | ldt => 0x74
  | stb => 0x78
  | sts => 0x7C
  | stf => 0x80
  | stt => 0x84
  | compf => 0x88
  | addr => 0x90
  | subr => 0x94
  | mulr => 0x98
  | divr => 0x9C
  | compr => 0xA0
  | shiftl => 0xA4
  | shiftr => 0xA8
  | rmo => 0xAC
  | svc => 0xB0
  | clear => 0xB4
  | tixr => 0xB8
  | float => 0xC0
  | fix => 0xC4
  | norm => 0xC8
  | lps => 0xD0
  | sti => 0xD4
  | rd => 0xD8
  | wd => 0xDC
  | td => 0xE0
  | stsw => 0xE8
  | ssk => 0xEC
  | sio => 0xF0
  | hio => 0xF4
  | tio => 0xF8

def name : Opcode → String
  | lda => "LDA"
  | ldx => "LDX"
  | ldl => "LDL"
  | sta => "STA"
  | stx => "STX"
  | stl => "STL"
  | add => "ADD"
  | sub => "SUB"
  | mul => "MUL"
  | div => "DIV"
  | comp => "COMP"
  | tix => "TIX"
  | jeq => "JEQ"
  | jgt => "JGT"
  | jlt => "JLT"
  | j => "J"
  | and => "AND"
  | or => "OR"
  | jsub => "JSUB"
  | rsub => "RSUB"
  | ldch => "LDCH"
  | stch => "STCH"
  | addf => "ADDF"
  | subf => "SUBF"
  | mulf => "MULF"
  | divf => "DIVF"
  | ldb => "LDB"
  | lds => "LDS"
  | ldf => "LDF"
  | ldt => "LDT"
  | stb => "STB"
  | sts => "STS"
  | stf => "STF"
  | stt => "STT"
  | compf => "COMPF"
  | addr => "ADDR"
  | subr => "SUBR"
  | mulr => "MULR"
  | divr => "DIVR"
  | compr => "COMPR"
  | shiftl => "SHIFTL"
  | shiftr => "SHIFTR"
  | rmo => "RMO"
  | svc => "SVC"
  | clear => "CLEAR"
  | tixr => "TIXR"
  | float => "FLOAT"
  | fix => "FIX"
  | norm => "NORM"
  | lps => "LPS"
  | sti => "STI"
  | rd => "RD"
  | wd => "WD"
  | td => "TD"
  | stsw => "STSW"
  | ssk => "SSK"
  | sio => "SIO"
  | hio => "HIO"
  | tio => "TIO"

def format : Opcode → Format
  | float | fix | norm | sio | hio | tio => .one
  | addr | subr | mulr | divr | compr | shiftl | shiftr | rmo | svc | clear | tixr => .two
  | _ => .threeOrFour

/-- Every opcode, by increasing number. -/
def all : List Opcode := [
  lda, ldx, ldl, sta, stx, stl, add, sub, mul, div, comp, tix, jeq, jgt, jlt, j, and, or, jsub,
  rsub, ldch, stch, addf, subf, mulf, divf, ldb, lds, ldf, ldt, stb, sts, stf, stt, compf,
  addr, subr, mulr, divr, compr, shiftl, shiftr, rmo, svc, clear, tixr, float, fix, norm, lps,
  sti, rd, wd, td, stsw, ssk, sio, hio, tio]

def ofNumber? (n : Nat) : Option Opcode := all.find? (·.number == n)

theorem mem_all (op : Opcode) : op ∈ all := by
  cases op <;> decide

theorem ofNumber?_number (op : Opcode) : ofNumber? op.number = some op := by
  cases op <;> rfl

end Opcode

/-- A byte that is the number of no opcode. -/
structure InvalidOpcode where
  number : Nat
  deriving DecidableEq,Repr

namespace InvalidOpcode

def message (e : InvalidOpcode) : String :=
  "invalid opcode " ++ String.ofList ((⟨false,true,2⟩ : Text.HexStyle).write e.number)

/-- The fault with its number, as it is shown to a programmer. -/
def describe (e : InvalidOpcode) : String :=
  "InvalidOpcode(" ++ String.ofList ((⟨true,true,4⟩ : Text.HexStyle).write e.number) ++ ")"

end InvalidOpcode

def Opcode.decode (n : Nat) : Except InvalidOpcode Opcode :=
  match ofNumber? n with
  | some op => .ok op
  | none => .error ⟨n⟩

end SicXE
