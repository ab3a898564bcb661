import SicXE.Reading.Data

/-! # Reading operands

The operand of a memory instruction, and the operand that each shape of mnemonic asks for. The
mark of the addressing mode comes first, a literal may only be addressed simply, and an
immediate number has to fit the field that the format leaves for it.
-/
namespace SicXE.Reading
open Text Scan

def addressing : Scan Addressing := do
  if ← advanceIf '#' then return .immediate
  else if ← advanceIf '@' then return .indirect
  else return .simple

/-- The greatest number that a memory operand may hold. -/
def memoryLimit (mode : Addressing) (extended : Bool) : Nat :=
  if mode = .immediate ∧ extended = false then displacementLimit else addressLimit

def target (mode : Addressing) (extended : Bool) : Scan Target := do
  if mode = .simple then
    if ← advanceIf '=' then return .literal (← data)
    else return .value (← value (memoryLimit mode extended))
  else return .value (← value (memoryLimit mode extended))

def memoryOperand (extended : Bool) : Scan MemoryOperand := do
  let mode ← addressing
  let target ← target mode extended
  return ⟨mode,target,← indexed,extended⟩

/-- The greatest number of a supervisor call. -/
def callLimit : Nat := 15

/-- The greatest number of bits in a shift, which moves at least one. -/
def shiftLimit : Nat := 16

def operand : Shape → Scan Operand
  | .directive | .format1 | .format3 => return .none
  | .directiveOperand limit => return .value (← value limit)
  | .directiveOptional limit => do
    if ← atEndOfLine then return .optionalValue none
    else return .optionalValue (some (← value limit))
  | .storageReserve => return .count (← number 0 addressLimit)
  | .storageByte => do
    if ← atDigit then return .data (← byte)
    else return .data (← data)
  | .storageWord => return .data (← data)
  | .format2Number => return .number (← number 0 callLimit)
  | .format2Register => return .register (← register)
  | .format2RegisterNumber => do
    let r ← register
    comma
    return .registerNumber r (← number 1 shiftLimit)
  | .format2RegisterPair => do
    let first ← register
    comma
    return .registerPair first (← register)
  | .format3Memory => return .memory (← memoryOperand false)
  | .format4Memory => return .memory (← memoryOperand true)

theorem inLine_addressing : InLine addressing := by
  refine (inLine_advanceIf (by decide)).bind fun _ => InLine.ite (.pure _) ?_
  exact (inLine_advanceIf (by decide)).bind fun _ => InLine.ite (.pure _) (.pure _)

theorem inLine_target (mode : Addressing) (extended : Bool) :
    InLine (target mode extended) := by
  have hv : InLine (do return Target.value (← value (memoryLimit mode extended))) :=
    (inLine_value _).bind fun _ => .pure _
  refine InLine.ite ((inLine_advanceIf (by decide)).bind fun _ => InLine.ite ?_ hv) hv
  exact inLine_data.bind fun _ => .pure _

theorem inLine_memoryOperand (extended : Bool) : InLine (memoryOperand extended) :=
  inLine_addressing.bind fun _ => (inLine_target _ _).bind fun _ =>
    inLine_indexed.bind fun _ => .pure _

theorem inLine_operand (shape : Shape) : InLine (operand shape) := by
  cases shape with
  | directive | format1 | format3 => exact .pure _
  | directiveOperand limit => exact (inLine_value _).bind fun _ => .pure _
  | directiveOptional limit =>
    refine (inLine_view _).bind fun _ => InLine.ite (.pure _) ?_
    exact (inLine_value _).bind fun _ => .pure _
  | storageReserve => exact (inLine_number _ _).bind fun _ => .pure _
  | storageByte =>
    refine (inLine_view _).bind fun _ => InLine.ite ?_ ?_
    · exact inLine_byte.bind fun _ => .pure _
    · exact inLine_data.bind fun _ => .pure _
  | storageWord => exact inLine_data.bind fun _ => .pure _
  | format2Number => exact (inLine_number _ _).bind fun _ => .pure _
  | format2Register => exact inLine_register.bind fun _ => .pure _
  | format2RegisterNumber =>
    exact inLine_register.bind fun _ => inLine_comma.bind fun _ =>
      (inLine_number _ _).bind fun _ => .pure _
  | format2RegisterPair =>
    exact inLine_register.bind fun _ => inLine_comma.bind fun _ =>
      inLine_register.bind fun _ => .pure _
  | format3Memory | format4Memory =>
    exact (inLine_memoryOperand _).bind fun _ => .pure _

end SicXE.Reading
