import SicXE.Assembly.Mnemonic
import SicXE.Source.Position

/-! # Records and programs

A program is a list of records, one for each line that is not blank, in the order of the
source. A record is a comment that fills its line, or an instruction with its operand, perhaps
with a label before it and a remark behind it.
-/
namespace SicXE

inductive Body where
  /-- The text includes the mark that starts the comment. -/
  | comment (text : Text)
  | instruction (mnemonic : Mnemonic) (operand : Operand)
  deriving DecidableEq,Repr

structure Record where
  /-- The start of the line. -/
  location : Position
  label : Option Symbol
  body : Body
  remark : Option Text
  deriving DecidableEq,Repr

abbrev Program := List Record

def Body.mnemonic? : Body → Option Mnemonic
  | comment _ => none
  | instruction mnemonic _ => some mnemonic

def Body.operand? : Body → Option Operand
  | comment _ => none
  | instruction _ operand => some operand

def Body.comment? : Body → Option Text
  | comment text => some text
  | instruction _ _ => none

/-- Whether the record is a format 4 instruction. -/
def Record.isExtended (r : Record) : Bool := r.body.operand?.any Operand.isExtended

/-- The labels in the order of their definition, repeated ones included. -/
def Program.labels (p : Program) : List Symbol := p.filterMap Record.label

end SicXE
