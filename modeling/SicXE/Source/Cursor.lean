import SicXE.Source.Position

/-! # Cursors

A cursor holds the unread part of a source text and the position of its first character.
Moving over text changes both together. `Within c d` says that `d` is reached from `c` by
moving over characters of the same line.
-/
namespace SicXE

structure Cursor where
  rest : Text
  pos : Position
  deriving DecidableEq,Repr

namespace Cursor

def start (source : Text) : Cursor := ⟨source,.start⟩

def peek (c : Cursor) : Option Char := c.rest.head?

/-- The character that stands a number of places beyond the next one. -/
def peekAt (c : Cursor) (offset : Nat) : Option Char := c.rest[offset]?

def atEnd (c : Cursor) : Bool := c.rest.isEmpty

def atEndOfLine (c : Cursor) : Bool := c.peek == none || c.peek == some '\n'

def atDigit (c : Cursor) : Bool := c.peek.any Char.isDigit

def atStartOfLine (c : Cursor) : Bool := c.pos.column == 1

def advance (c : Cursor) : Cursor :=
  match c.rest with
  | [] => c
  | a :: rest => ⟨rest,c.pos.after a⟩

def dropWhile (c : Cursor) (p : Char → Bool) : Cursor :=
  ⟨c.rest.dropWhile p,c.pos.past (c.rest.takeWhile p)⟩

/-- Moves just beyond the next delimiter, or to the end of the text if there is none. -/
def dropTo (c : Cursor) (delimiter : Char) : Cursor := (c.dropWhile (· != delimiter)).advance

/-- The first cursor from here on that stands at the start of a line. -/
def resync (c : Cursor) : Cursor := if c.atStartOfLine then c else c.dropTo '\n'

/-- One cursor is reached from another over characters that all satisfy a predicate. -/
def Passes (p : Char → Prop) (c d : Cursor) : Prop :=
  ∃ t, c.rest = t ++ d.rest ∧ d.pos = c.pos.past t ∧ ∀ a ∈ t, p a

abbrev Within (c d : Cursor) : Prop := Passes (· ≠ '\n') c d

variable {p q : Char → Prop} {c d e : Cursor}

theorem Passes.refl (c : Cursor) : Passes p c c := ⟨[],rfl,rfl,by simp⟩

theorem Passes.trans (h : Passes p c d) (k : Passes p d e) : Passes p c e := by
  obtain ⟨t,hr,hp,ht⟩ := h
  obtain ⟨u,kr,kp,ku⟩ := k
  refine ⟨t ++ u,by simp [hr,kr],by simp [hp,kp,Position.past_append],?_⟩
  intro a ha
  exact (List.mem_append.1 ha).elim (ht a) (ku a)

theorem Passes.mono (h : Passes p c d) (hpq : ∀ a, p a → q a) : Passes q c d := by
  obtain ⟨t,hr,hp,ht⟩ := h
  exact ⟨t,hr,hp,fun a ha => hpq a (ht a ha)⟩

theorem Passes.length_le (h : Passes p c d) : d.rest.length ≤ c.rest.length := by
  obtain ⟨t,hr,_,_⟩ := h
  simp [hr]

theorem passes_advance (hp : ∀ a, c.peek = some a → p a) : Passes p c c.advance := by
  rcases c with ⟨_ | ⟨a,rest⟩,pos⟩
  · exact Passes.refl _
  · exact ⟨[a],rfl,rfl,by simpa [peek] using hp⟩

theorem passes_dropWhile (f : Char → Bool) (hp : ∀ a, f a → p a) :
    Passes p c (c.dropWhile f) := by
  refine ⟨c.rest.takeWhile f,by simp [dropWhile],rfl,?_⟩
  intro a ha
  exact hp a (List.all_eq_true.1 List.all_takeWhile a ha)

theorem dropTo_length_le (delimiter : Char) :
    (c.dropTo delimiter).rest.length ≤ c.rest.length := by
  have h : Passes (fun _ => True) c (c.dropTo delimiter) :=
    (passes_dropWhile _ (fun _ _ => trivial)).trans (passes_advance (fun _ _ => trivial))
  exact h.length_le

theorem resync_length_le : c.resync.rest.length ≤ c.rest.length := by
  unfold resync
  split
  · exact Nat.le_refl _
  · exact dropTo_length_le _

/-- Moving to a delimiter consumes something unless the text has ended. -/
theorem dropTo_length_lt (delimiter : Char) (h : c.rest ≠ []) :
    (c.dropTo delimiter).rest.length < c.rest.length := by
  have hs := List.takeWhile_append_dropWhile (p := (· != delimiter)) (l := c.rest)
  have hl := congrArg List.length hs
  simp only [List.length_append] at hl
  have hpos : 0 < c.rest.length := List.length_pos_iff.2 h
  unfold dropTo advance dropWhile
  cases hd : c.rest.dropWhile (· != delimiter) with
  | nil => simpa [hd] using hpos
  | cons a rest =>
    simp only [hd,List.length_cons] at hl
    dsimp only
    omega

end Cursor
end SicXE
