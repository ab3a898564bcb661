import SicXE.Proofs.Diagnostics
import SicXE.Proofs.StepProgress

/-! # Reading on from the middle of a source

The records that are left in a session are those of the text that is still to come, each moved down
by the lines before it. That text starts with the first line that starts at the cursor or behind it,
so a line begun by other steps is given up, and none is when a source is read from its start.
-/
namespace SicXE
open Text

/-- The same column, a number of lines further down. -/
def Position.down (k : Nat) (p : Position) : Position := ⟨p.line + k,p.column⟩

def Diagnostic.down (k : Nat) (e : Diagnostic) : Diagnostic := ⟨e.fault,e.location.down k⟩

def Record.down (k : Nat) (r : Record) : Record := { r with location := r.location.down k }

/-- What was found in a text, as it is found with a number of lines before it. -/
def Reading.down (k : Nat) : Except Diagnostic Program → Except Diagnostic Program
  | .ok p => .ok (p.map (Record.down k))
  | .error e => .error (e.down k)

/-- The text from the first line on that starts at the cursor or behind it. -/
def Cursor.upcoming (c : Cursor) : Text :=
  if c.pos.column = 1 then c.rest else (c.rest.dropWhile (· != '\n')).drop 1

theorem Cursor.rest_resync (c : Cursor) : c.resync.rest = c.upcoming := by
  unfold resync atStartOfLine upcoming
  by_cases hcol : c.pos.column = 1
  · rw [if_pos (beq_iff_eq.2 hcol),if_pos hcol]
  · rw [if_neg (fun h => hcol (beq_iff_eq.1 h)),if_neg hcol,dropTo,dropWhile,advance]
    cases c.rest.dropWhile (· != '\n') <;> rfl

namespace Reading
open Scan

variable {c d : Cursor}

section Down
variable {t : Text} {ls : List Text}

theorem down_relocate (k n : Nat) (o : Except Diagnostic Program) :
    down k (relocate n (List.map (Record.onLine n)) o) =
      relocate (n + k) (List.map (Record.onLine (n + k))) o := by
  cases o with
  | error e => rfl
  | ok p =>
    simp only [relocate,down,List.map_map]
    rfl

theorem down_bind (k : Nat) (o o' : Except Diagnostic Program) :
    down k (o.bind fun p => o'.map (p ++ ·)) =
      (down k o).bind fun p => (down k o').map (p ++ ·) := by
  cases o with
  | error e => rfl
  | ok p =>
    cases o' with
    | error e => rfl
    | ok q => simp [down,Except.bind,Except.map]

theorem records_down (h : Splits t ls) (n k : Nat) :
    records ⟨t,⟨n + k,1⟩⟩ = down k (records ⟨t,⟨n,1⟩⟩) := by
  induction h generalizing n with
  | last hl => rw [records_last hl,records_last hl,down_relocate]
  | line hl _ ih =>
    rw [records_line hl,records_line hl,down_bind,down_relocate,← ih,Nat.add_right_comm n k 1]

end Down

/-- The loop over the lines starts with the cursor that resynchronising leads to. -/
theorem records_resync (c : Cursor) : records c.resync = records c := by
  by_cases hc : c.rest = []
  · rw [resync_eq_self (.inr hc)]
  by_cases hs : c.resync.rest = []
  · obtain ⟨d,hd⟩ := run_line_ended hs
    have hended : d.rest = [] := by
      have hle := endsLine_line.length_le hd
      rw [hs] at hle
      exact List.length_eq_zero_iff.1 (Nat.le_zero.1 hle)
    rw [records_step hc,hd,records_ended hs]
    exact (records_ended hended).symm
  · rw [records_step hs,records_step hc,resync_eq_self (atStartOfLine_resync c)]

theorem records_eq_down {source : Text} (h : (Cursor.start source).Reaches c) :
    ∃ before, source = before ++ c.upcoming ∧
      records c = down (before.count '\n') (Program.parse c.upcoming) := by
  -- What lies before the text to come ends where resynchronising leads, not at the cursor.
  obtain ⟨before,hsource,hpos,_⟩ := h.trans c.reaches_resync
  rw [Cursor.rest_resync] at hsource
  refine ⟨before,hsource,?_⟩
  rw [← records_resync]
  rcases atStartOfLine_resync c with hstart | hended
  · have hresync : c.resync = ⟨c.upcoming,⟨1 + before.count '\n',1⟩⟩ := by
      have hline : c.resync.pos.line = 1 + before.count '\n' := by
        rw [hpos,Position.line_past]
        rfl
      have hcol : c.resync.pos.column = 1 := beq_iff_eq.1 hstart
      rw [← Cursor.rest_resync,← hline,← hcol]
    rw [hresync,records_down (splits_lines c.upcoming)]
    rfl
  · rw [records_ended hended,← Cursor.rest_resync,hended,Program.parse,records_ended rfl]
    rfl

section Sessions
variable {step : Step} {session next : Session} {answer : Step.Answer}

theorem Step.reaches_run (h : step.run session = (.ok answer,next)) :
    session.cursor.Reaches next.cursor := by
  by_cases hstep : step = .line
  · subst hstep
    obtain ⟨r,hrun⟩ := Step.run_line_ok h
    exact reaches_line hrun
  · have hwithin := Step.within_run hstep session
    rw [h] at hwithin
    exact hwithin.reaches

theorem reaches_trace {steps : List Step}
    (h : (Session.trace steps session).2 = .ok next) : session.cursor.Reaches next.cursor := by
  induction steps generalizing session with
  | nil =>
    cases h
    exact .refl _
  | cons step steps ih =>
    rw [Session.trace] at h
    rcases hrun : step.run session with ⟨_ | answer,d⟩
    · rw [hrun] at h
      cases h
    · rw [hrun] at h
      exact (Step.reaches_run hrun).trans (ih h)

end Sessions

/-- In a reading from the start every pass begins at the start of a line, or with the text at its
end. -/
theorem starts_of_passes {source : Text} (h : Relation.ReflTransGen Pass (.start source) c) :
    c.atStartOfLine = true ∨ c.rest = [] := by
  induction h with
  | refl => exact .inl rfl
  | tail _ hpass _ =>
    obtain ⟨_,r,hrun⟩ := hpass
    rw [eq_dropTo_of_line hrun]
    exact atStartOfLine_dropTo _

/-- Wherever successful steps have led, the records that are left are those of the text to come,
moved down by the lines before it. In a reading from the start nothing is given up. -/
theorem program_of_trace {source : Text} {steps : List Step} {session : Session}
    (h : (Session.trace steps (.start source)).2 = .ok session) :
    (∃ before, source = before ++ session.cursor.upcoming ∧
      session.program = down (before.count '\n') (Program.parse session.cursor.upcoming)) ∧
    ∀ c, Relation.ReflTransGen Pass (.start source) c → c.resync = c ∧ ∀ d, ¬Skip c d := by
  refine ⟨records_eq_down (reaches_trace h),fun c hc => ?_⟩
  have hstarts := starts_of_passes hc
  exact ⟨resync_eq_self hstarts,fun d => not_skip_of_starts hstarts⟩

theorem program_of_trace_second_line :
    (Session.trace [.label,.comma] (.start "A, RSUB\n\n.b".toList)).2 =
      .ok ⟨⟨"RSUB\n\n.b".toList,⟨1,4⟩⟩,⟨1,1⟩⟩ ∧
    Session.program ⟨⟨"RSUB\n\n.b".toList,⟨1,4⟩⟩,⟨1,1⟩⟩ =
      .ok [⟨⟨3,1⟩,none,.comment ".b".toList,none⟩] := by
  have h : (Session.trace [.label,.comma] (.start "A, RSUB\n\n.b".toList)).2 =
      .ok ⟨⟨"RSUB\n\n.b".toList,⟨1,4⟩⟩,⟨1,1⟩⟩ := by decide +kernel
  obtain ⟨⟨before,hsource,hprogram⟩,_⟩ := program_of_trace h
  have hsplit : "A, RSUB\n".toList ++ "\n.b".toList = before ++ "\n.b".toList := hsource
  rw [hprogram,← List.append_cancel_right hsplit]
  exact ⟨h,by decide +kernel⟩

end Reading
end SicXE
