import SicXE.Proofs.Lines
import SicXE.Proofs.TruthfulScans

/-! # Diagnostics hold where they point

The reading moves over the source from its start, so the cursor at which a fault arises divides
the source in two. The position is that of the text before the cursor, and the message holds of the
text behind it.
-/
namespace SicXE
open Text

namespace Cursor

variable {c d : Cursor}

/-- Moving over any text, line ends included. -/
abbrev Reaches (c d : Cursor) : Prop := Passes (fun _ => True) c d

theorem Passes.reaches {p : Char → Prop} (h : Passes p c d) : c.Reaches d :=
  h.mono fun _ _ => trivial

theorem reaches_dropTo (c : Cursor) (delimiter : Char) : c.Reaches (c.dropTo delimiter) :=
  (passes_dropWhile _ fun _ _ => trivial).trans (passes_advance fun _ _ => trivial)

theorem reaches_resync (c : Cursor) : c.Reaches c.resync := by
  unfold resync
  split
  · exact .refl c
  · exact reaches_dropTo c '\n'

end Cursor

namespace Reading
open Scan

variable {c d : Cursor} {e : Diagnostic}

theorem reaches_line {r : Option Record} (h : line.run c = .ok r d) : c.Reaches d := by
  obtain ⟨b,hb,rfl⟩ := endsLine_line c r d h
  exact hb.reaches.trans (b.reaches_dropTo '\n')

/-- What one line reports holds on it, so what a text reports holds in the text. -/
theorem holds_of_records (h : records c = .error e) :
    ∃ d : Cursor, c.Reaches d ∧ d.pos = e.location ∧ e.fault.HoldsAt d.rest e.message := by
  fun_induction records c with
  | case1 c hc => cases h
  | case2 c hc d hline ih =>
    obtain ⟨b,hb,hpos,hholds⟩ := ih h
    exact ⟨b,(c.reaches_resync.trans (reaches_line hline)).trans hb,hpos,hholds⟩
  | case3 c hc r d hline ih =>
    cases hrest : records d with
    | ok p =>
      rw [hrest] at h
      cases h
    | error e' =>
      rw [hrest] at h
      cases h
      obtain ⟨b,hb,hpos,hholds⟩ := ih hrest
      exact ⟨b,(c.reaches_resync.trans (reaches_line hline)).trans hb,hpos,hholds⟩
  | case4 c hc e' d hline =>
    cases h
    obtain ⟨b,hb,hpos,hholds⟩ := truthful_line c.resync e d hline
    exact ⟨b,c.reaches_resync.trans hb.reaches,hpos,hholds⟩

theorem holds_of_parse {source : Text} (h : Program.parse source = .error e) :
    ∃ v u : Text, source = v ++ u ∧ Position.start.past v = e.location ∧
      e.fault.HoldsAt u e.message := by
  obtain ⟨d,⟨v,hsource,hpos,_⟩,hloc,hholds⟩ := holds_of_records h
  exact ⟨v,d.rest,hsource,hpos.symm.trans hloc,hholds⟩

end Reading

/-- The line of a position that a text leads to, and the columns of that line. -/
theorem Position.exists_line_past {v : Text} {ls : List Text} (h : Splits v ls) (u : Text)
    (n : Nat) : ∃ line, n ≤ (past ⟨n,1⟩ v).line ∧
      ((v ++ u).splitOn '\n')[(past ⟨n,1⟩ v).line - n]? = some line ∧
      1 ≤ (past ⟨n,1⟩ v).column ∧ (past ⟨n,1⟩ v).column ≤ line.length + 1 := by
  induction h generalizing n with
  | @last l hl =>
    rw [past_eq_along fun a ha hn => hl (hn ▸ ha)]
    have hhead : ∃ w : Text, ((l ++ u).splitOn '\n')[0]? = some (l ++ w) := by
      by_cases hu : '\n' ∈ u
      · obtain ⟨w,rest,rfl,hw⟩ := List.eq_append_cons_of_mem hu
        rw [← List.append_assoc,List.splitOn_append_cons_self_of_not_mem (by simp [hl,hw])]
        exact ⟨w,rfl⟩
      · rw [List.splitOn_eq_singleton (by simp [hl,hu])]
        exact ⟨u,rfl⟩
    obtain ⟨w,hw⟩ := hhead
    refine ⟨l ++ w,Nat.le_refl n,by simpa [along] using hw,by simp [along],?_⟩
    simp only [along,List.length_append]
    omega
  | @line l t ls hl _ ih =>
    have hpast : past ⟨n,1⟩ (l ++ '\n' :: t) = past ⟨n + 1,1⟩ t := by
      rw [← List.singleton_append,← List.append_assoc,past_append,past_line hl]
    obtain ⟨line,hle,hline,hcol⟩ := ih (n + 1)
    rw [hpast,List.append_assoc,List.cons_append,List.splitOn_append_cons_self_of_not_mem hl]
    refine ⟨line,by omega,?_,hcol⟩
    rw [show (past ⟨n + 1,1⟩ t).line - n = (past ⟨n + 1,1⟩ t).line - (n + 1) + 1 by omega]
    exact hline

open Reading

/-- A diagnostic names a line of the source and a column of that line or the one behind it, and
what its message says holds of the source from there on. -/
theorem parse_error_holds {source : Text} {e : Diagnostic} (h : Program.parse source = .error e) :
    (∃ line, (source.splitOn '\n')[e.location.line - 1]? = some line ∧ 1 ≤ e.location.line ∧
      1 ≤ e.location.column ∧ e.location.column ≤ line.length + 1) ∧
    ∃ v u : Text, source = v ++ u ∧ Position.start.past v = e.location ∧
      e.fault.HoldsAt u e.message := by
  obtain ⟨v,u,rfl,hpos,hholds⟩ := holds_of_parse h
  obtain ⟨line,hle,hline,hcol⟩ := Position.exists_line_past (splits_lines v) u 1
  have hstart : Position.past ⟨1,1⟩ v = e.location := hpos
  rw [hstart] at hle hline hcol
  exact ⟨⟨line,hline,hle,hcol⟩,v,u,rfl,hpos,hholds⟩

instance decidableEqOutcome {ε α : Type} [DecidableEq ε] [DecidableEq α] :
    DecidableEq (Except ε α)
  | .ok a,.ok b => decidable_of_iff (a = b) ⟨congrArg _,Except.ok.inj⟩
  | .error a,.error b => decidable_of_iff (a = b) ⟨congrArg _,Except.error.inj⟩
  | .ok _,.error _ | .error _,.ok _ => .isFalse fun h => by cases h

theorem parse_error_holds_hexDigit :
    ∃ e, Program.parse "Δ RESW 1\n\t BYTE X'0é'".toList = .error e ∧
      e.message = "Invalid hex digit 'é' in literal" ∧ e.location = ⟨2,11⟩ ∧
      ∃ v u : Text, "Δ RESW 1\n\t BYTE X'0é'".toList = v ++ u ∧
        Position.start.past v = ⟨2,11⟩ ∧ u.head? = some 'é' ∧ isHexDigit 'é' = false := by
  have h : Program.parse "Δ RESW 1\n\t BYTE X'0é'".toList =
      .error ⟨.invalidHexDigit 'é',⟨2,11⟩⟩ := by decide +kernel
  obtain ⟨_,v,u,hsource,hpos,hholds⟩ := parse_error_holds h
  generalize Diagnostic.message _ = message at hholds
  cases hholds with
  | invalidHexDigit hu hdigit => exact ⟨_,h,by decide,rfl,v,u,hsource,hpos,hu,hdigit⟩

end SicXE
