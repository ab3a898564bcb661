import SicXE.Text.Basic

/-! # Positions in a source text

Lines and columns are counted from 1. Only a newline ends a line, and a column is counted for
every other character.
-/
namespace SicXE

structure Position where
  line : Nat
  column : Nat
  deriving DecidableEq,Repr

namespace Position

def start : Position := ⟨1,1⟩

instance : Inhabited Position := ⟨start⟩

/-- The position that follows a character. -/
def after (p : Position) (a : Char) : Position :=
  if a = '\n' then ⟨p.line + 1,1⟩ else ⟨p.line,p.column + 1⟩

/-- The position that follows a text. -/
def past (p : Position) (t : Text) : Position := t.foldl after p

/-- A position further along the same line. -/
def along (p : Position) (n : Nat) : Position := ⟨p.line,p.column + n⟩

/-- Positions are ordered by line and then by column. -/
instance : Ord Position := ⟨fun p q => (compare p.line q.line).then (compare p.column q.column)⟩

def text (p : Position) : String := s!"line {p.line}, column {p.column}"

@[simp] theorem past_nil (p : Position) : p.past [] = p := rfl

@[simp] theorem past_cons (p : Position) (a : Char) (t : Text) :
    p.past (a :: t) = (p.after a).past t := rfl

theorem past_append (p : Position) (t u : Text) : p.past (t ++ u) = (p.past t).past u := by
  simp [past]

end Position
end SicXE
