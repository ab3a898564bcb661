import SicXE.Proofs.Diagnostics
import SicXE.Proofs.Locality
import SicXE.Proofs.Messages

/-! # The final newline

A newline at the end of a source changes nothing but what is said of the end of the input. A line
without a newline is embedded before one, and all other lines have theirs already.
-/
namespace SicXE
open Text

/-- What is reported where a newline follows the source. -/
def Diagnostic.beforeNewline (e : Diagnostic) : Diagnostic := ⟨e.fault.before ['\n'],e.location⟩

theorem Fault.before_ne (fault : Fault) {u : Text} (hu : u ≠ []) (wanted : Char) :
    fault.before u ≠ .expectedAtInputEnd wanted := by
  cases fault <;> simp [before,hu]

namespace Reading
open Scan

variable {c d : Cursor} {e : Diagnostic} {l : Text}

theorem line_location (h : line.run c = .error e d) : e.location.line = c.pos.line := by
  obtain ⟨b,⟨t,_,hpos,ht⟩,hloc,_⟩ := truthful_line c e d h
  rw [← hloc,hpos,Position.past_eq_along ht,Position.along]

theorem parse_eq_outcome (hl : '\n' ∉ l) :
    Program.parse l = (outcome (line.run (.start l))).map Option.toList := by
  by_cases hne : l = []
  · subst hne
    obtain ⟨d,hd⟩ := run_line_ended (c := .start []) rfl
    rw [hd]
    exact records_ended rfl
  · exact parse_alone hne (Cursor.rest_dropTo_last hl _)

/-- One line with its newline and without it. -/
theorem parse_newline (hl : '\n' ∉ l) :
    Program.parse (l ++ ['\n']) = (Program.parse l).mapError Diagnostic.beforeNewline := by
  have hend : ((Cursor.start (l ++ ['\n'])).dropTo '\n').rest = [] :=
    congrArg Cursor.rest (Cursor.dropTo_line hl .start)
  have hembed : outcome (line.run (.start (l ++ ['\n']))) = embedOutcome 1 ['\n']
      (Option.map (Record.onLine 1)) (outcome (line.run (.start l))) :=
    embedsOutcome_line (.start l) (.inl (.inr rfl))
  rw [parse_eq_outcome hl,parse_alone (by simp) hend,hembed]
  cases hrun : line.run (.start l) with
  | ok r d =>
    cases r with
    | none => rfl
    | some r =>
      have hloc := (wellFormed_line hrun).2
      have hr : r.onLine 1 = r := by
        rcases r with ⟨location,_,_,_⟩
        obtain rfl : location = .start := hloc
        rfl
      simp only [outcome,embedOutcome,Option.map_some,hr]
      rfl
  | error e d =>
    have hloc : e.location.onLine 1 = e.location := by
      rw [Position.onLine,← show e.location.line = 1 from line_location hrun]
    simp only [outcome,embedOutcome,Diagnostic.embed,hloc]
    rfl

/-- A line that has its newline already says nothing of the end of the input. -/
theorem beforeNewline_of_line (hl : '\n' ∉ l) (h : Program.parse (l ++ ['\n']) = .error e) :
    e.beforeNewline = e := by
  have hend : ((Cursor.start (l ++ ['\n'])).dropTo '\n').rest = [] :=
    congrArg Cursor.rest (Cursor.dropTo_line hl .start)
  rw [parse_alone (by simp) hend] at h
  cases hrun : line.run (.start (l ++ ['\n'])) with
  | ok r d =>
    rw [hrun] at h
    cases h
  | error e' d =>
    rw [hrun] at h
    cases h
    have hne := ne_expectedAtInputEnd (by simp [Cursor.start]) hrun
    rw [Diagnostic.beforeNewline,Fault.before_of_ne hne]

theorem records_newline {t : Text} {ls : List Text} (h : Splits t ls) (n : Nat) :
    records ⟨t ++ ['\n'],⟨n,1⟩⟩ = (records ⟨t,⟨n,1⟩⟩).mapError Diagnostic.beforeNewline := by
  induction h generalizing n with
  | @last l hl =>
    rw [records_line hl n [],records_last hl,parse_newline hl,records_ended rfl]
    cases Program.parse l with
    | error e => rfl
    | ok p => exact congrArg Except.ok (List.append_nil _)
  | @line l t ls hl _ ih =>
    rw [List.append_assoc,List.cons_append,records_line hl,records_line hl,ih (n + 1)]
    cases hp : Program.parse (l ++ ['\n']) with
    | ok p => cases records ⟨t,⟨n + 1,1⟩⟩ <;> rfl
    | error e =>
      have he := congrArg (Diagnostic.onLine n) (beforeNewline_of_line hl hp)
      exact congrArg Except.error he.symm

end Reading

open Reading

/-- A final newline is optional: with it and without it the same programs are accepted, and the
first error is at the same position and has the same message. What is said of the end of the input
is said of the end of the line instead, and it is said on a last line without a newline only. -/
theorem parse_final_newline (source : Text) :
    (∀ p, Program.parse (source ++ ['\n']) = .ok p ↔ Program.parse source = .ok p) ∧
    ∀ e, Program.parse source = .error e →
      ∃ e', Program.parse (source ++ ['\n']) = .error e' ∧ e'.location = e.location ∧
        (∀ wanted : Char, e.message = s!"Expected '{wanted}' but reached end of input" →
          e'.message = s!"Expected '{wanted}' but reached end of line" ∧
          source.getLast? ≠ some '\n' ∧ e.location.line = source.count '\n' + 1) ∧
        ((∀ wanted : Char, e.message ≠ s!"Expected '{wanted}' but reached end of input") →
          e'.message = e.message) := by
  have hnewline : ∀ t : Text, Program.parse (t ++ ['\n']) =
      (Program.parse t).mapError Diagnostic.beforeNewline :=
    fun t => records_newline (splits_lines t) 1
  constructor
  · intro p
    rw [hnewline source]
    cases Program.parse source with
    | ok p' => exact Iff.rfl
    | error e => exact ⟨nofun,nofun⟩
  intro e h
  refine ⟨e.beforeNewline,by rw [hnewline source,h]; rfl,rfl,fun wanted hmessage => ?_,
    fun hne => ?_⟩
  · obtain ⟨v,u,hsource,hpos,hholds⟩ := holds_of_parse h
    have hfault := hholds.eq_expectedAtInputEnd hmessage
    refine ⟨?_,fun hlast => ?_,?_⟩
    · rw [Diagnostic.message,Diagnostic.beforeNewline,hfault]
      rfl
    · obtain ⟨t,rfl⟩ := List.getLast?_eq_some_iff.1 hlast
      rw [hnewline t] at h
      cases ht : Program.parse t with
      | ok p =>
        rw [ht] at h
        cases h
      | error e' =>
        rw [ht] at h
        cases h
        exact Fault.before_ne e'.fault (List.cons_ne_nil _ _) wanted hfault
    · rw [hfault] at hholds
      rw [hsource,hholds.of_expectedAtInputEnd,List.append_nil,← hpos,Position.line_past]
      exact Nat.add_comm 1 _
  · have hfault : ∀ wanted, e.fault ≠ .expectedAtInputEnd wanted := by
      intro wanted hfault
      refine hne wanted ?_
      rw [Diagnostic.message,hfault]
      rfl
    rw [Diagnostic.message,Diagnostic.beforeNewline,Fault.before_of_ne hfault]
    rfl

theorem parse_final_newline_quote : ∃ e e',
    Program.parse "X RESW 1\n BYTE C".toList = .error e ∧
    e.message = "Expected ''' but reached end of input" ∧
    Program.parse "X RESW 1\n BYTE C\n".toList = .error e' ∧
    e'.message = "Expected ''' but reached end of line" ∧ e'.location = ⟨2,8⟩ := by
  have h : Program.parse "X RESW 1\n BYTE C".toList =
      .error ⟨.expectedAtInputEnd '\x27',⟨2,8⟩⟩ := by decide +kernel
  obtain ⟨e',h',hlocation,hend,_⟩ := (parse_final_newline _).2 _ h
  exact ⟨_,e',h,by decide,h',(hend '\x27' rfl).1.trans (by decide),hlocation⟩

end SicXE
