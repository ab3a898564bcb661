import Mathlib.Data.String.Basic
import SicXE.Proofs.Characters
import SicXE.Source.Probe

/-! # Cursors by byte offset

A text that is stored as its bytes can be read in place. A cursor then holds the whole text, the
number of bytes before the next character, and the position of that character. It moves over one
character at a time, and a run of characters is cut out between two offsets. Behind any text such
a cursor does what is done by a cursor that holds only the unread part.
-/
namespace SicXE
open Text

structure ByteCursor where
  body : String
  offset : String.Pos.Raw
  pos : Position

namespace ByteCursor

def start (source : Text) : ByteCursor := ⟨.ofList source,0,.start⟩

/-- The next character; none at the end of the text, and none within a character. -/
def peek (c : ByteCursor) : Option Char := c.offset.get? c.body

/-- The text before the cursor. -/
def consumed (c : ByteCursor) : Text := (String.Pos.Raw.extract c.body 0 c.offset).toList

/-- The text from the cursor on. -/
def rest (c : ByteCursor) : Text := (c.offset.extract c.body c.body.rawEndPos).toList

/-- The cursor that holds the unread text. -/
def cursor (c : ByteCursor) : Cursor := ⟨c.rest,c.pos⟩

/-- The text between two cursors in the same body. -/
def slice (c d : ByteCursor) : Text := (c.offset.extract c.body d.offset).toList

def peekAt (c : ByteCursor) (offset : Nat) : Option Char := c.rest[offset]?

def atEndOfLine (c : ByteCursor) : Bool := c.peek == none || c.peek == some '\n'

def advance (c : ByteCursor) : ByteCursor :=
  match c.peek with
  | none => c
  | some a => ⟨c.body,c.offset + a,c.pos.after a⟩

def advanceIf (c : ByteCursor) (a : Char) : Bool × ByteCursor :=
  if c.peek = some a then (true,c.advance) else (false,c)

def expect (c : ByteCursor) (wanted : Char) : Probe.Reply × ByteCursor :=
  match c.peek with
  | none => (.failed ⟨.expectedAtInputEnd wanted,c.pos⟩,c)
  | some found =>
    if found = wanted then (.flag true,c.advance)
    else if found = '\n' then (.failed ⟨.expectedAtLineEnd wanted,c.pos⟩,c)
    else (.failed ⟨.expectedFound wanted found,c.pos⟩,c)

theorem le_of_utf8GetAux? {t : Text} {i p : String.Pos.Raw} {a : Char}
    (h : String.Pos.Raw.utf8GetAux? t i p = some a) :
    p.byteIdx + a.utf8Size ≤ i.byteIdx + String.utf8Len t := by
  induction t generalizing i with
  | nil => cases h
  | cons b t ih =>
    rw [String.Pos.Raw.utf8GetAux?] at h
    rw [String.utf8Len_cons]
    split at h
    case isTrue hp =>
      cases h
      rw [← hp]
      omega
    case isFalse =>
      have hle := ih h
      rw [String.Pos.Raw.byteIdx_add_char] at hle
      omega

theorem advance_of_peek {c : ByteCursor} {a : Char} (h : c.peek = some a) :
    c.advance = ⟨c.body,c.offset + a,c.pos.after a⟩ := by
  rw [advance,h]

/-- A character takes some of the bytes that are left. -/
theorem remaining_advance_lt {c : ByteCursor} {a : Char} (h : c.peek = some a) :
    c.advance.body.utf8ByteSize - c.advance.offset.byteIdx <
      c.body.utf8ByteSize - c.offset.byteIdx := by
  have hle := le_of_utf8GetAux? h
  have hpos := a.utf8Size_pos
  rw [String.utf8Len_toList,String.Pos.Raw.byteIdx_zero] at hle
  rw [advance_of_peek h]
  dsimp only
  rw [String.Pos.Raw.byteIdx_add_char]
  omega

/-- Moves over characters one by one, as long as they satisfy a predicate. -/
def skipWhile (c : ByteCursor) (p : Char → Bool) : ByteCursor :=
  match _ : c.peek with
  | none => c
  | some a => if p a then c.advance.skipWhile p else c
termination_by c.body.utf8ByteSize - c.offset.byteIdx
decreasing_by exact remaining_advance_lt ‹_›

theorem skipWhile_of_peek {c : ByteCursor} {p : Char → Bool} {a : Char} (h : c.peek = some a)
    (hp : p a) : c.skipWhile p = c.advance.skipWhile p := by
  rw [skipWhile]
  split
  case h_1 hnone =>
    rw [h] at hnone
    cases hnone
  case h_2 b hsome =>
    rw [h] at hsome
    cases hsome
    rw [if_pos hp]

theorem skipWhile_of_stops {c : ByteCursor} {p : Char → Bool} (h : ∀ a ∈ c.peek, p a = false) :
    c.skipWhile p = c := by
  rw [skipWhile]
  split
  case h_1 => rfl
  case h_2 a hsome => rw [if_neg (ne_true_of_eq_false (h a hsome))]

def readWhile (c : ByteCursor) (p : Char → Bool) : Probe.Reply × ByteCursor :=
  let d := c.skipWhile p
  (.text (c.slice d),d)

def readTo (c : ByteCursor) (delimiter : Char) : Probe.Reply × ByteCursor :=
  let d := c.skipWhile (· != delimiter)
  (.text (c.slice d),(d.advanceIf delimiter).2)

/-- The reply to a probe, and where it leaves the cursor. -/
def probe (c : ByteCursor) : Probe → Probe.Reply × ByteCursor
  | .peek => (.char c.peek,c)
  | .peekAt offset => (.char (c.peekAt offset),c)
  | .advance => (.char c.peek,c.advance)
  | .expect wanted => c.expect wanted
  | .advanceIf a => (.flag (c.advanceIf a).1,(c.advanceIf a).2)
  | .skipBlanks => (.flag (c.skipWhile isBlank).atEndOfLine,c.skipWhile isBlank)
  | .readWhile p => c.readWhile p
  | .readSymbol => c.readWhile isSymbolChar
  | .readDigits radix => c.readWhile (isDigitOf radix)
  | .readTo delimiter => c.readTo delimiter
  | .symbolNext => (.symbolNext (c.peek.map isSymbolChar),c)

/-- The replies to a sequence of probes, each with the cursor it leaves. -/
def trace : List Probe → ByteCursor → List (Probe.Reply × ByteCursor)
  | [],_ => []
  | probe :: rest,c =>
    let result := c.probe probe
    result :: trace rest result.2

/-- Where a sequence of probes leaves the cursor. -/
def after (probes : List Probe) (c : ByteCursor) : ByteCursor :=
  probes.foldl (fun d probe => (d.probe probe).2) c

end ByteCursor

namespace Cursor
variable {c d : Cursor} {p : Char → Bool} {t w : Text}

/-- The cursor with its offset in the text that starts with the given part. -/
def behind (t : Text) (c : Cursor) : ByteCursor :=
  ⟨.ofList (t ++ c.rest),(String.ofList t).rawEndPos,c.pos⟩

theorem peek_behind (t : Text) (c : Cursor) : (c.behind t).peek = c.peek := by
  rw [ByteCursor.peek,behind,String.rawEndPos_ofList]
  exact String.get?_of_valid t c.rest

/-- What stands between two offsets is the text that one cursor is ahead of the other. -/
theorem slice_behind (h : c.rest = w ++ d.rest) :
    (c.behind t).slice (d.behind (t ++ w)) = w := by
  simp only [ByteCursor.slice,behind,String.rawEndPos_ofList,String.utf8Len_append,h,
    ← List.append_assoc,String.extract_of_valid,String.toList_ofList]

theorem rest_behind (t : Text) (c : Cursor) : (c.behind t).rest = c.rest := by
  have h := slice_behind (t := t) (c := c) (d := ⟨[],c.pos⟩) (List.append_nil c.rest).symm
  rwa [ByteCursor.slice,behind,behind] at h

theorem consumed_behind (t : Text) (c : Cursor) : (c.behind t).consumed = t := by
  have h := slice_behind (t := []) (c := ⟨t ++ c.rest,c.pos⟩) (d := c) rfl
  rwa [ByteCursor.slice,behind,behind] at h

theorem behind_nil (source : Text) : (start source).behind [] = .start source := rfl

theorem cursor_behind (t : Text) (c : Cursor) : (c.behind t).cursor = c := by
  rw [ByteCursor.cursor,rest_behind]
  rfl

theorem advance_behind {a : Char} {u : Text} (h : c.rest = a :: u) (t : Text) :
    (c.behind t).advance = (⟨u,c.pos.after a⟩ : Cursor).behind (t ++ [a]) := by
  have hpeek : (c.behind t).peek = some a := by rw [peek_behind,peek,h,List.head?_cons]
  have hoffset : (String.ofList t).rawEndPos + a = (String.ofList (t ++ [a])).rawEndPos := by
    rw [String.rawEndPos_ofList,String.rawEndPos_ofList,String.utf8Len_append]
    simp [String.Pos.Raw.ext_iff]
  rw [ByteCursor.advance_of_peek hpeek,behind,behind,h,List.append_assoc,← hoffset]
  rfl

/-- Going on as long as a predicate holds leads over the longest run of it. -/
theorem skipWhile_behind (p : Char → Bool) (t : Text) (c : Cursor) :
    (c.behind t).skipWhile p = (c.dropWhile p).behind (t ++ c.rest.takeWhile p) := by
  rcases c with ⟨rest,pos⟩
  induction rest generalizing t pos with
  | nil =>
    rw [ByteCursor.skipWhile_of_stops (by rw [peek_behind]; exact nofun)]
    simp [dropWhile]
  | cons a rest ih =>
    have hpeek : (behind t ⟨a :: rest,pos⟩).peek = some a := peek_behind t _
    cases hp : p a with
    | true =>
      rw [ByteCursor.skipWhile_of_peek hpeek hp,advance_behind rfl,ih]
      simp [dropWhile,hp]
    | false =>
      rw [ByteCursor.skipWhile_of_stops (by rw [hpeek]; rintro _ ⟨⟩; exact hp)]
      simp [dropWhile,hp]

end Cursor
end SicXE
