import SicXE.Assembly.Registry
import SicXE.Source.InLine

/-! # Reading tokens

The parts of a line that are single words or marks: labels, mnemonics, symbols, registers, the
comma between two operands and the suffix that makes an operand indexed. Each of these scans
stays within its line.
-/
namespace SicXE.Reading
open Text Scan

/-- A label starts with a letter in the first column. -/
def label : Scan (Option Symbol) := do
  if (← atStartOfLine) && (← peek).any isAlphabetic then return some ⟨← readSymbol⟩
  else return none

/-- The longest word that may follow an optional plus sign has to be a known spelling. -/
def mnemonic : Scan Mnemonic := do
  let location ← here
  let mark : Text := if ← advanceIf '+' then ['+'] else []
  let spelling := mark ++ (← readSymbol)
  match Registry.ofSpelling? spelling with
  | some m => return m
  | none => failAt location (.invalidMnemonic spelling)

def symbol : Scan Symbol := return ⟨← readSymbol⟩

/-- A register is written as one letter, whatever follows it. -/
def register : Scan Register := do
  let location ← here
  match ← next with
  | none => failAt location .registerMissing
  | some letter =>
    match Register.ofLetter? letter with
    | some r => return r
    | none => failAt location (.invalidRegister letter)

/-- A comma with blanks on either side. -/
def comma : Scan Unit := do
  let _ ← skipBlanks
  expect ','
  let _ ← skipBlanks

/-- The suffix of an indexed operand. A comma after an operand can only start that suffix. -/
def indexed : Scan Bool := do
  let _ ← skipBlanks
  if ← advanceIf ',' then
    let _ ← skipBlanks
    expect 'X'
    return true
  else return false

theorem inLine_label : InLine label := by
  refine (inLine_view _).bind fun _ => (inLine_view _).bind fun _ => InLine.ite ?_ (.pure _)
  exact inLine_readSymbol.bind fun _ => .pure _

theorem inLine_mnemonic : InLine mnemonic := by
  refine (inLine_view _).bind fun _ => (inLine_advanceIf (by decide)).bind fun _ => ?_
  refine inLine_readSymbol.bind fun _ => ?_
  dsimp only
  split
  · exact .pure _
  · exact inLine_failAt _ _

theorem inLine_symbol : InLine symbol := inLine_readSymbol.bind fun _ => .pure _

theorem inLine_register : InLine register := by
  refine (inLine_view _).bind fun _ => inLine_next.bind fun letter => ?_
  cases letter with
  | none => exact inLine_failAt _ _
  | some letter =>
    dsimp only
    split
    · exact .pure _
    · exact inLine_failAt _ _

theorem inLine_comma : InLine comma :=
  inLine_skipBlanks.bind fun _ => (inLine_expect (by decide)).bind fun _ =>
    inLine_skipBlanks.bind fun _ => .pure _

theorem inLine_indexed : InLine indexed := by
  refine inLine_skipBlanks.bind fun _ => (inLine_advanceIf (by decide)).bind fun _ => ?_
  refine InLine.ite ?_ (.pure _)
  exact inLine_skipBlanks.bind fun _ => (inLine_expect (by decide)).bind fun _ => .pure _

end SicXE.Reading
