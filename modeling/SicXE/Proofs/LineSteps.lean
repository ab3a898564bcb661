import SicXE.Proofs.Reads
import SicXE.Reading.Program

/-! # The steps of reading a line

Everything that reading a line can do: it takes a comment, skips a blank line, or reads an
instruction part by part. What is proved of lines follows from this case distinction, and what is
proved of programs follows by induction on their lines.
-/
namespace SicXE.Reading
open Text Scan

variable {c d : Cursor}

theorem run_label (c : Cursor) :
    label.run c = if c.atStartOfLine && c.peek.any isAlphabetic
      then .ok (some ⟨c.rest.takeWhile isSymbolChar⟩) (c.dropWhile isSymbolChar)
      else .ok none c := by
  change (if (c.atStartOfLine && c.peek.any isAlphabetic) = true
    then (readSymbol >>= fun t => pure (some ⟨t⟩)) else pure none : Scan (Option Symbol)).run c = _
  split <;> rfl

theorem run_skipBlanks (c : Cursor) :
    skipBlanks.run c = .ok (c.dropWhile isBlank).atEndOfLine (c.dropWhile isBlank) := rfl

theorem run_comment (c : Cursor) :
    comment.run c = .ok (.comment (trimEnd (c.rest.takeWhile (· != '\n')))) (c.dropTo '\n') := rfl

theorem run_line_comment (h : atComment c = true) :
    line.run c = (comment >>= fun body => pure (some ⟨c.pos,none,body,none⟩)).run c := by
  change (if atComment c then _ else _ : Scan (Option Record)).run c = _
  rw [if_pos h]

theorem run_line_statement (h : atComment c = false) :
    line.run c = (statement c.pos).run c := by
  change (if atComment c then _ else _ : Scan (Option Record)).run c = _
  rw [if_neg (ne_true_of_eq_false h)]

/-- What reading a line gives and where it leaves the cursor. -/
inductive LineStep (c : Cursor) : Option Record → Cursor → Prop where
  | comment : atComment c = true →
      LineStep c (some ⟨c.pos,none,.comment (trimEnd (c.rest.takeWhile (· != '\n'))),none⟩)
        (c.dropTo '\n')
  | blank : atComment c = false → label.run c = .ok none c →
      (c.dropWhile isBlank).atEndOfLine = true →
      LineStep c none ((c.dropWhile isBlank).dropTo '\n')
  | instruction {l : Option Symbol} {m : Mnemonic} {o : Operand} {remark : Option Text}
      {c₁ c₂ c₃ d : Cursor} : atComment c = false → label.run c = .ok l c₁ →
      ((c₁.dropWhile isBlank).atEndOfLine && l.isNone) = false →
      mnemonic.run (c₁.dropWhile isBlank) = .ok m c₂ →
      (operand m.shape).run (c₂.dropWhile isBlank) = .ok o c₃ →
      Reading.remark.run c₃ = .ok remark d →
      LineStep c (some ⟨c.pos,l,.instruction m o,remark⟩) d

theorem lineStep_of_run {r : Option Record} (h : line.run c = .ok r d) : LineStep c r d := by
  cases hc : atComment c with
  | true =>
    rw [run_line_comment hc] at h
    obtain ⟨body,e,hbody,h⟩ := run_bind_eq_ok.1 h
    rw [run_comment] at hbody
    cases hbody
    cases h
    exact .comment hc
  | false =>
    rw [run_line_statement hc] at h
    obtain ⟨l,c₁,hl,h⟩ := run_bind_eq_ok.1 h
    obtain ⟨ended,e,hended,h⟩ := run_bind_eq_ok.1 h
    rw [run_skipBlanks] at hended
    cases hended
    cases hblank : (c₁.dropWhile isBlank).atEndOfLine && l.isNone with
    | true =>
      rw [if_pos hblank] at h
      obtain ⟨text,e,htext,h⟩ := run_bind_eq_ok.1 h
      rw [run_readTo] at htext
      cases htext
      cases h
      obtain ⟨hend,hnone⟩ := Bool.and_eq_true_iff.1 hblank
      obtain rfl := Option.isNone_iff_eq_none.1 hnone
      have hc₁ : c = c₁ := by
        rw [run_label] at hl
        split at hl <;> cases hl
        rfl
      subst hc₁
      exact .blank hc hl hend
    | false =>
      rw [if_neg (ne_true_of_eq_false hblank)] at h
      obtain ⟨body,c₃,hbody,h⟩ := run_bind_eq_ok.1 h
      obtain ⟨m,c₂,hm,hbody⟩ := run_bind_eq_ok.1 hbody
      obtain ⟨_,e,hskip,hbody⟩ := run_bind_eq_ok.1 hbody
      rw [run_skipBlanks] at hskip
      cases hskip
      obtain ⟨o,_,ho,hbody⟩ := run_bind_eq_ok.1 hbody
      cases hbody
      obtain ⟨remark,_,hremark,h⟩ := run_bind_eq_ok.1 h
      cases h
      exact .instruction hc hl hblank hm ho hremark

/-- At the end of the text there is no line left. -/
theorem run_line_ended (h : c.rest = []) : ∃ d, line.run c = .ok none d := by
  rcases c with ⟨rest,pos⟩
  subst h
  have hc : atComment ⟨[],pos⟩ = false := by
    simp [atComment,Cursor.peek]
  have hl : label.run ⟨[],pos⟩ = .ok none ⟨[],pos⟩ := by
    rw [run_label]
    simp [Cursor.peek]
  rw [run_line_statement hc]
  exact ⟨_,run_bind_eq_ok.2 ⟨none,_,hl,rfl⟩⟩

/-- Behind a line another one starts, unless the text has ended. -/
theorem atStartOfLine_dropTo (c : Cursor) :
    (c.dropTo '\n').atStartOfLine = true ∨ (c.dropTo '\n').rest = [] := by
  cases hd : c.rest.dropWhile (· != '\n') with
  | nil =>
    right
    simp [Cursor.dropTo,Cursor.dropWhile,Cursor.advance,hd]
  | cons a rest =>
    left
    have ha : a = '\n' := by
      have hs : Stops (· != '\n') (a :: rest) := hd ▸ stops_dropWhile
      simpa using hs
    simp [Cursor.dropTo,Cursor.dropWhile,Cursor.advance,hd,ha,Cursor.atStartOfLine,Position.after]

theorem atStartOfLine_resync (c : Cursor) : c.resync.atStartOfLine = true ∨ c.resync.rest = [] := by
  unfold Cursor.resync
  split
  case isTrue h => exact .inl h
  case isFalse => exact atStartOfLine_dropTo c

theorem resync_eq_self (h : c.atStartOfLine = true ∨ c.rest = []) : c.resync = c := by
  unfold Cursor.resync
  split
  case isTrue => rfl
  case isFalse hs =>
    rcases c with ⟨rest,pos⟩
    obtain rfl : rest = [] := h.resolve_left hs
    rfl

/-- Every record is that of a line, read from a cursor at its start. -/
theorem exists_line_of_mem_records {p : Program} (h : records c = .ok p) :
    ∀ r ∈ p, ∃ e d, e.atStartOfLine = true ∧ line.run e = .ok (some r) d := by
  fun_induction records c generalizing p with
  | case1 c hc =>
    cases h
    simp
  | case2 c hc d hline ih => exact ih h
  | case3 c hc r d hline ih =>
    cases hp : records d with
    | error e =>
      rw [hp] at h
      cases h
    | ok rest =>
      rw [hp] at h
      cases h
      intro s hs
      rcases List.mem_cons.1 hs with rfl | hs
      · refine ⟨c.resync,d,(atStartOfLine_resync c).resolve_right fun hended => ?_,hline⟩
        obtain ⟨d',hd⟩ := run_line_ended hended
        rw [hline] at hd
        cases hd
      · exact ih hp s hs
  | case4 c hc e d hline => cases h

end SicXE.Reading
