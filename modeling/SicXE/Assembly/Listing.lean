import SicXE.Assembly.Record

/-! # Listings

The normal form of a program: a comment line stands as it is, and an instruction is written in
columns of eight and seven characters for the label and the mnemonic, then the operand, and
two spaces before a remark. Blanks at the end of the columns are left out.
-/
namespace SicXE
open Text

/-- The columns of an instruction, without the blanks that would end the line. -/
def Body.columns (label : Option Symbol) : Body → Text
  | comment text => text
  | instruction mnemonic operand =>
    trimEnd (padRight 8 ((label.map Symbol.name).getD []) ++ ' ' ::
      padRight 7 mnemonic.spelling ++ ' ' :: operand.text)

/-- The remark as it follows the columns; a comment line has none. -/
def Record.tail (r : Record) : Text :=
  match r.body,r.remark with
  | .instruction _ _,some remark => ' ' :: ' ' :: remark
  | _,_ => []

def Record.text (r : Record) : Text := r.body.columns r.label ++ r.tail

def Program.listing (p : Program) : Text := p.flatMap fun r => r.text ++ ['\n']

@[simp] theorem Program.listing_nil : Program.listing [] = [] := rfl

@[simp] theorem Program.listing_cons (r : Record) (p : Program) :
    Program.listing (r :: p) = r.text ++ '\n' :: Program.listing p := by
  simp [Program.listing]

end SicXE
