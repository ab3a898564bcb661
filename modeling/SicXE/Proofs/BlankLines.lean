import SicXE.Proofs.LineSteps

/-! # Blank lines

A line gives a record exactly if something on it is visible. A comment shows its mark, a label its
first letter, and the mnemonic of any other instruction stands behind nothing but blanks.
-/
namespace SicXE.Reading
open Text Scan

variable {c d : Cursor}

theorem bne_newline_of_mem_blanks (t : Text) : ∀ a ∈ t.takeWhile isBlank, (a != '\n') = true := by
  intro a ha
  simpa using ne_newline_of_isBlank (List.mem_takeWhile_imp ha)

/-- The characters of the line that a cursor stands on. -/
def lineText (c : Cursor) : Text := c.rest.takeWhile (· != '\n')

theorem lineText_of_ended (h : (c.dropWhile isBlank).atEndOfLine = true) :
    lineText c = c.rest.takeWhile isBlank := by
  have hrun := bne_newline_of_mem_blanks c.rest
  have hstop : Stops (· != '\n') (c.rest.dropWhile isBlank) := by
    intro a ha
    have hpeek : (c.dropWhile isBlank).peek = some a := ha
    simpa [Cursor.atEndOfLine,hpeek] using h
  rw [lineText]
  conv => lhs; rw [← List.takeWhile_append_dropWhile (p := isBlank) (l := c.rest)]
  exact takeWhile_run hrun hstop

/-- Where the line does not end behind its blanks, a visible character follows. -/
theorem exists_visible_of_not_ended (h : (c.dropWhile isBlank).atEndOfLine = false) :
    ∃ a ∈ lineText c, isWhitespace a = false := by
  have hrun := bne_newline_of_mem_blanks c.rest
  have hsplit := List.takeWhile_append_dropWhile (p := isBlank) (l := c.rest)
  have hstop : Stops isBlank (c.rest.dropWhile isBlank) := stops_dropWhile
  have hend : (⟨c.rest.dropWhile isBlank,.start⟩ : Cursor).atEndOfLine = false := h
  cases hd : c.rest.dropWhile isBlank with
  | nil =>
    rw [hd] at hend
    cases hend
  | cons a rest =>
    rw [hd] at hend hstop hsplit
    have hn : a ≠ '\n' := by
      rintro rfl
      cases hend
    refine ⟨a,?_,?_⟩
    · rw [lineText,← hsplit,List.takeWhile_append_of_pos hrun,List.takeWhile_cons,
        if_pos (by simpa using hn)]
      exact List.mem_append_right _ List.mem_cons_self
    · cases hw : isWhitespace a with
      | false => rfl
      | true =>
        have hb := stops_cons.1 hstop
        rw [isBlank_of_isWhitespace hw hn] at hb
        cases hb

theorem exists_visible_of_peek {a : Char} (hpeek : c.peek = some a) (ha : isWhitespace a = false) :
    ∃ a ∈ lineText c, isWhitespace a = false := by
  have hn : a ≠ '\n' := by
    rintro rfl
    revert ha
    decide
  have hhead : (lineText c).head? = some a := by
    have hrest : c.rest.head? = some a := hpeek
    rw [lineText,List.head?_takeWhile,hrest]
    simpa using hn
  exact ⟨a,List.mem_of_mem_head? hhead,ha⟩

/-- Exactly the lines of whitespace give no record. -/
theorem isNone_of_lineStep {r : Option Record} (h : LineStep c r d) :
    r.isNone = (lineText c).all isWhitespace := by
  have hvisible : (∃ a ∈ lineText c, isWhitespace a = false) →
      false = (lineText c).all isWhitespace := by
    rintro ⟨a,ha,hw⟩
    symm
    rw [List.all_eq_false]
    exact ⟨a,ha,by simp [hw]⟩
  cases h with
  | comment hc =>
    have hpeek : c.peek = some '.' := by simpa using (Bool.and_eq_true_iff.1 hc).2
    exact hvisible (exists_visible_of_peek hpeek (by decide))
  | blank _ _ hend =>
    symm
    rw [lineText_of_ended hend]
    apply List.all_eq_true.2
    intro a ha
    exact isWhitespace_of_isBlank (List.mem_takeWhile_imp ha)
  | @instruction l _ _ _ c₁ _ _ _ _ hl hblank =>
    apply hvisible
    rw [run_label] at hl
    split at hl
    case isTrue halpha =>
      obtain ⟨a,ha,hf⟩ := Option.any_eq_true .. |>.1 (Bool.and_eq_true_iff.1 halpha).2
      exact exists_visible_of_peek ha (isWhitespace_of_isSymbolChar (isSymbolChar_of_isAlphabetic hf))
    case isFalse =>
      cases hl
      rw [Option.isNone_none,Bool.and_true] at hblank
      exact exists_visible_of_not_ended hblank

end SicXE.Reading
