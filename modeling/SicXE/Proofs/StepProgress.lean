import Mathlib.Logic.Relation
import SicXE.Proofs.Locality
import SicXE.Reading.Session

/-! # Progress of steps and lines

Every step of a session but the reading of a line stays in its line, whether it succeeds or fails.
Reading a line stays in the line when it fails; when it succeeds it ends just behind the next
newline, or with the text. So each pass of the loop over the lines leaves less of the text, and the
loop ends.
-/
namespace SicXE
open Text

namespace Cursor
variable {c d : Cursor}

theorem Within.line_eq (h : c.Within d) : d.pos.line = c.pos.line := by
  obtain ⟨t,_,hpos,ht⟩ := h
  rw [hpos,Position.past_eq_along ht,Position.along]

/-- The second cursor is just behind the line of the first one, or at the end of the text. -/
inductive PastLine (c d : Cursor) : Prop where
  | newline {l : Text} : '\n' ∉ l → c.rest = l ++ '\n' :: d.rest → d.pos = ⟨c.pos.line + 1,1⟩ →
      PastLine c d
  | last {l : Text} : '\n' ∉ l → c.rest = l → d.rest = [] → d.pos = c.pos.past l → PastLine c d

theorem pastLine_dropTo (c : Cursor) : c.PastLine (c.dropTo '\n') := by
  rcases c with ⟨rest,pos⟩
  by_cases hn : '\n' ∈ rest
  · obtain ⟨l,u,rfl,hl⟩ := List.eq_append_cons_of_mem hn
    rw [dropTo_line hl]
    exact .newline hl rfl rfl
  · have hrun := Scan.Reads.run (Scan.reads_readTo_end hn) pos
    rw [List.append_nil,Scan.run_readTo] at hrun
    rw [(EStateM.Result.ok.inj hrun).2]
    exact .last hn rfl rfl rfl

end Cursor

namespace Scan
variable {α β : Type} {x : Scan α} {f : α → Scan β}

/-- A scan that does not leave its line when it fails. -/
def FailsInLine (x : Scan α) : Prop := ∀ c e d, x.run c = .error e d → c.Within d

theorem InLine.failsInLine (hx : InLine x) : FailsInLine x := by
  intro c e d h
  have hw := hx c
  unfold leaves at hw
  rwa [h] at hw

theorem InLine.bind_failsInLine (hx : InLine x) (hf : ∀ a, FailsInLine (f a)) :
    FailsInLine (x >>= f) := by
  intro c e d h
  rcases run_bind_eq_error.1 h with h | ⟨a,b,ha,h⟩
  · exact hx.failsInLine c e d h
  · exact (hx.within ha).trans (hf a b e d h)

/-- The end of a line is read without failing. -/
theorem failsInLine_readTo (delimiter : Char) (g : Text → β) :
    FailsInLine (readTo delimiter >>= fun t => pure (g t)) := by
  intro c e d h
  cases h

end Scan

namespace Reading
open Scan

variable {c d : Cursor}

theorem failsInLine_statement (location : Position) : FailsInLine (statement location) := by
  refine inLine_label.bind_failsInLine fun label => inLine_skipBlanks.bind_failsInLine fun _ => ?_
  split
  · exact failsInLine_readTo _ _
  · refine inLine_instruction.bind_failsInLine fun body => ?_
    simp only [remark,bind_assoc,pure_bind]
    exact failsInLine_readTo _ _

theorem failsInLine_line : FailsInLine line := by
  intro c e d h
  cases hc : atComment c with
  | true =>
    rw [run_line_comment hc] at h
    cases h
  | false =>
    rw [run_line_statement hc] at h
    exact failsInLine_statement c.pos c e d h

theorem pastLine_line {r : Option Record} (h : line.run c = .ok r d) : c.PastLine d := by
  rw [eq_dropTo_of_line h]
  exact c.pastLine_dropTo

theorem Step.inLine_scan {step : Step} (h : step ≠ .line) (began : Position) :
    InLine (step.scan began) := by
  cases step with
  | label => exact inLine_label.bind fun _ => .pure _
  | mnemonic => exact inLine_mnemonic.bind fun _ => .pure _
  | symbol => exact inLine_symbol.bind fun _ => .pure _
  | register => exact inLine_register.bind fun _ => .pure _
  | comma => exact inLine_comma.bind fun _ => .pure _
  | indexed => exact inLine_indexed.bind fun _ => .pure _
  | number lo hi => exact (inLine_number lo hi).bind fun _ => .pure _
  | value limit => exact (inLine_value limit).bind fun _ => .pure _
  | data => exact inLine_data.bind fun _ => .pure _
  | byte => exact inLine_byte.bind fun _ => .pure _
  | memory extended => exact (inLine_memoryOperand extended).bind fun _ => .pure _
  | operandOf m => exact (inLine_operand m.shape).bind fun _ => .pure _
  | line => exact absurd rfl h
  | atEndOfLine | atDigit => exact (inLine_view _).bind fun _ => .pure _
  | lineStart => exact .pure _

section Steps
variable {step : Step} {session next : Session} {answer : Step.Answer} {e : Diagnostic}

theorem Step.within_run (h : step ≠ .line) (session : Session) :
    session.cursor.Within (step.run session).2.cursor := by
  have hw := Step.inLine_scan h session.lineStart session.cursor
  unfold leaves at hw
  unfold Step.run
  cases hrun : (step.scan session.lineStart).run session.cursor with
  | ok answer d =>
    rw [hrun] at hw
    exact hw
  | error e d =>
    rw [hrun] at hw
    exact hw

theorem Step.run_line (session : Session) : Step.line.run session =
    match Reading.line.run session.cursor with
    | .ok r d => (.ok (.record r),⟨d,session.cursor.pos⟩)
    | .error e d => (.error e,⟨d,session.cursor.pos⟩) := by
  unfold Step.run Step.scan Step.lineStartAfter
  cases hrun : Reading.line.run session.cursor with
  | ok r d =>
    rw [run_bind_of_ok hrun]
    rfl
  | error e d =>
    rw [run_bind_of_error hrun]

theorem Step.run_line_ok (h : Step.line.run session = (.ok answer,next)) :
    ∃ r, Reading.line.run session.cursor = .ok r next.cursor := by
  rw [Step.run_line] at h
  cases hrun : Reading.line.run session.cursor with
  | ok r d =>
    rw [hrun] at h
    cases h
    exact ⟨r,rfl⟩
  | error e d =>
    rw [hrun] at h
    cases h

theorem Step.run_line_error (h : Step.line.run session = (.error e,next)) :
    Reading.line.run session.cursor = .error e next.cursor := by
  rw [Step.run_line] at h
  cases hrun : Reading.line.run session.cursor with
  | ok r d =>
    rw [hrun] at h
    cases h
  | error e d =>
    rw [hrun] at h
    cases h
    rfl

end Steps

section Loops

/-- One turn of the loop that looks for the start of a line. -/
def Skip (c d : Cursor) : Prop := c.rest ≠ [] ∧ c.atStartOfLine = false ∧ c.dropTo '\n' = d

theorem wellFounded_skip : WellFounded fun d c => Skip c d := by
  refine Subrelation.wf ?_ (measure fun c : Cursor => c.rest.length).wf
  rintro d c ⟨hne,_,rfl⟩
  exact Cursor.dropTo_length_lt '\n' hne

theorem not_skip_of_starts (h : c.atStartOfLine = true ∨ c.rest = []) : ¬Skip c d := by
  rintro ⟨hne,hs,_⟩
  rcases h with h | h
  · rw [h] at hs
    cases hs
  · exact hne h

/-- That loop turns once at most, and ends at the start of a line or with the text. -/
theorem skips_resync (c : Cursor) :
    Relation.ReflTransGen Skip c c.resync ∧ ∀ d, ¬Skip c.resync d := by
  refine ⟨?_,fun d => not_skip_of_starts (atStartOfLine_resync c)⟩
  by_cases hstarts : c.atStartOfLine = true ∨ c.rest = []
  · rw [resync_eq_self hstarts]
  · obtain ⟨hs,hne⟩ := not_or.1 hstarts
    rw [Cursor.resync,if_neg hs]
    exact .single ⟨hne,Bool.eq_false_iff.2 hs,rfl⟩

/-- One pass of the loop over the lines leads from one cursor to another. -/
def Pass (c d : Cursor) : Prop := c.rest ≠ [] ∧ ∃ r, line.run c.resync = .ok r d

theorem Pass.length_lt (h : Pass c d) : d.rest.length < c.rest.length := by
  obtain ⟨hne,r,hrun⟩ := h
  exact shorter_of_line hne hrun

theorem wellFounded_pass : WellFounded fun d c => Pass c d :=
  Subrelation.wf Pass.length_lt (measure fun c : Cursor => c.rest.length).wf

/-- A pass puts at most one record before those of the rest of the loop. -/
theorem records_of_pass (h : Pass c d) : ∃ q, records c = (records d).map (q ++ ·) := by
  obtain ⟨hne,r,hrun⟩ := h
  rw [records_step hne,hrun]
  cases r with
  | none =>
    refine ⟨[],?_⟩
    dsimp only
    cases records d <;> rfl
  | some r => exact ⟨[r],rfl⟩

/-- The loop that started at the first cursor halts at the second one: there the text has ended, or
the line there has a fault. -/
inductive Halts (c d : Cursor) : Prop where
  | ended {p : Program} : d.rest = [] → records c = .ok p → Halts c d
  | fault {e : Diagnostic} {b : Cursor} : d.rest ≠ [] → line.run d.resync = .error e b →
      records c = .error e → Halts c d

theorem Halts.of_pass {b : Cursor} (hpass : Pass c d) (h : Halts d b) : Halts c b := by
  obtain ⟨q,hq⟩ := records_of_pass hpass
  cases h with
  | ended hb hd => exact .ended hb (by rw [hq,hd]; rfl)
  | fault hb hline hd => exact .fault hb hline (by rw [hq,hd]; rfl)

/-- From every cursor the loop halts after finitely many passes. -/
theorem exists_last_pass (c : Cursor) : ∃ d, Relation.ReflTransGen Pass c d ∧ Halts c d := by
  -- Each pass leaves less of the text, so what holds at its end may be used at its start.
  induction c using wellFounded_pass.induction with
  | _ c ih =>
    by_cases hc : c.rest = []
    · exact ⟨c,.refl,.ended hc (records_ended hc)⟩
    · cases hline : line.run c.resync with
      | ok r d =>
        have hpass : Pass c d := ⟨hc,r,hline⟩
        obtain ⟨b,hb,hhalts⟩ := ih d hpass
        exact ⟨b,.head hpass hb,hhalts.of_pass hpass⟩
      | error e b =>
        have hfault : records c = .error e := by rw [records_step hc,hline]
        exact ⟨c,.refl,.fault hc hline hfault⟩

end Loops

/-- Every step but the reading of a line moves on within its line, whether it succeeds or fails,
and so does the reading of a line that fails. A line that is read takes something, and the cursor
then stands just behind the next newline, or at the end of the text. So the loop that looks for the
start of a line ends, and so does the loop over the lines. -/
theorem steps_progress (session : Session) :
    (∀ step : Step, step ≠ .line → session.cursor.Within (step.run session).2.cursor ∧
      (step.run session).2.cursor.pos.line = session.cursor.pos.line) ∧
    (∀ e next, Step.line.run session = (.error e,next) →
      session.cursor.Within next.cursor ∧ next.cursor.pos.line = session.cursor.pos.line) ∧
    (∀ answer next, Step.line.run session = (.ok answer,next) →
      session.cursor.PastLine next.cursor ∧
      (session.cursor.rest ≠ [] → next.cursor.rest.length < session.cursor.rest.length)) ∧
    ((WellFounded fun d c => Skip c d) ∧
      Relation.ReflTransGen Skip session.cursor session.cursor.resync ∧
      ∀ d, ¬Skip session.cursor.resync d) ∧
    (WellFounded fun d c => Pass c d) ∧
      ∃ d, Relation.ReflTransGen Pass session.cursor d ∧ Halts session.cursor d := by
  refine ⟨fun step hstep => ?_,fun e next h => ?_,fun answer next h => ?_,
    ⟨wellFounded_skip,skips_resync session.cursor⟩,
    wellFounded_pass,exists_last_pass session.cursor⟩
  · have hwithin := Step.within_run hstep session
    exact ⟨hwithin,hwithin.line_eq⟩
  · have hwithin := failsInLine_line _ _ _ (Step.run_line_error h)
    exact ⟨hwithin,hwithin.line_eq⟩
  · obtain ⟨r,hrun⟩ := Step.run_line_ok h
    exact ⟨pastLine_line hrun,endsLine_line.length_lt hrun⟩

end Reading
end SicXE
