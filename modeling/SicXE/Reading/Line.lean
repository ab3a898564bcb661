import SicXE.Assembly.Record
import SicXE.Reading.Operand

/-! # Reading a line

A line is blank, or a comment that starts in its first column, or an optional label and an
instruction. What follows the operand of an instruction is its remark, so a line never fails
for having too much on it.
-/
namespace SicXE.Reading
open Text Scan

/-- A dot in the first column makes the line a comment. -/
def atComment (c : Cursor) : Bool := c.atStartOfLine && c.peek == some '.'

def comment : Scan Body := do
  let text ← readTo '\n'
  return .comment (trimEnd text)

/-- A mnemonic and the operand of its shape. -/
def instruction : Scan Body := do
  let m ← mnemonic
  let _ ← skipBlanks
  return .instruction m (← operand m.shape)

/-- The rest of the line, unless it is blank. -/
def remark : Scan (Option Text) := do
  let text ← readTo '\n'
  return if (trim text).isEmpty then none else some (trim text)

/-- A line that is no comment, from its start at the given position. -/
def statement (location : Position) : Scan (Option Record) := do
  let label ← label
  if (← skipBlanks) && label.isNone then
    let _ ← readTo '\n'
    return none
  else
    let body ← instruction
    return some ⟨location,label,body,← remark⟩

/-- One line, with its newline; none if it is blank. -/
def line : Scan (Option Record) := do
  let c ← get
  if atComment c then return some ⟨c.pos,none,← comment,none⟩
  else statement c.pos

theorem inLine_instruction : InLine instruction :=
  inLine_mnemonic.bind fun _ => inLine_skipBlanks.bind fun _ =>
    (inLine_operand _).bind fun _ => .pure _

theorem endsLine_comment : EndsLine comment := endsLine_readTo.bind_pure _

theorem endsLine_remark : EndsLine remark := endsLine_readTo.bind_pure _

theorem endsLine_statement (location : Position) : EndsLine (statement location) := by
  refine inLine_label.bind_endsLine fun _ => inLine_skipBlanks.bind_endsLine fun _ => ?_
  refine EndsLine.ite (endsLine_readTo.bind_pure _) ?_
  exact inLine_instruction.bind_endsLine fun _ => endsLine_remark.bind_pure _

theorem endsLine_line : EndsLine line := by
  refine (inLine_view id).bind_endsLine fun c => ?_
  exact EndsLine.ite (endsLine_comment.bind_pure _) (endsLine_statement _)

end SicXE.Reading
