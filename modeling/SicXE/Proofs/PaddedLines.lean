import SicXE.Proofs.FinalNewline
import SicXE.Proofs.LineGrammar
import SicXE.Proofs.TrailingBlanks

/-! # Blanks at the ends of lines

Blanks before the newlines of a source, such as the carriage returns of another convention, change
neither what is accepted nor the line of the first fault. A line is accepted with them exactly if
it is accepted without them, since it is written for the same record.
-/
namespace SicXE
open Text

/-- The second text is the first one with blanks before its newlines and at its end. -/
inductive Text.Padded : Text → Text → Prop where
  | last {l w : Text} : '\n' ∉ l → (∀ a ∈ w, isBlank a) → Padded l (l ++ w)
  | line {l w t t' : Text} : '\n' ∉ l → (∀ a ∈ w, isBlank a) → Padded t t' →
      Padded (l ++ '\n' :: t) (l ++ (w ++ '\n' :: t'))

namespace Reading
open Scan

variable {l w : Text} {b : Char}

theorem parse_concat_blank (hl : '\n' ∉ l) (hb : isBlank b) (p : Program) :
    Program.parse (l ++ [b]) = .ok p ↔ Program.parse l = .ok p := by
  have hlb : '\n' ∉ l ++ [b] := by simp [hl,(ne_newline_of_isBlank hb).symm]
  have hw := isWhitespace_of_isBlank hb
  by_cases hall : ∀ a ∈ l, isWhitespace a
  · have hallb : ∀ a ∈ l ++ [b], isWhitespace a := by simpa [hw,or_imp,forall_and] using hall
    rw [parse_blank hl hall,parse_blank hlb hallb]
  obtain ⟨a,ha,hvisible⟩ : ∃ a ∈ l, isWhitespace a = false := by simpa using hall
  have hhead : (l ++ [b]).head? = l.head? := by
    obtain ⟨c,rest,rfl⟩ := List.exists_cons_of_ne_nil (List.ne_nil_of_mem ha)
    rfl
  by_cases hdot : l.head? = some '.'
  · rw [parse_comment hl hdot,parse_comment hlb (hhead.trans hdot),trimEnd_concat hb]
  · rw [parse_eq_ok_iff_written hl ha hvisible hdot,
      parse_eq_ok_iff_written hlb (List.mem_append_left _ ha) hvisible (hhead ▸ hdot)]
    simp only [Record.written_concat_iff hb]

theorem parse_append_blanks (hl : '\n' ∉ l) (hw : ∀ a ∈ w, isBlank a) (p : Program) :
    Program.parse (l ++ w) = .ok p ↔ Program.parse l = .ok p := by
  induction w generalizing l with
  | nil => rw [List.append_nil]
  | cons b w ih =>
    have hb := hw b List.mem_cons_self
    have hlb : '\n' ∉ l ++ [b] := by simp [hl,(ne_newline_of_isBlank hb).symm]
    rw [← List.singleton_append,← List.append_assoc,
      ih hlb fun a ha => hw a (List.mem_cons_of_mem _ ha)]
    exact parse_concat_blank hl hb p

theorem mapError_eq_ok {ε ε' α : Type} {f : ε → ε'} {r : Except ε α} {a : α} :
    r.mapError f = .ok a ↔ r = .ok a := by
  constructor
  · intro h
    cases r with
    | ok b =>
      cases h
      rfl
    | error e => cases h
  · rintro rfl
    rfl

theorem not_mem_append_blanks (hl : '\n' ∉ l) (hw : ∀ a ∈ w, isBlank a) : '\n' ∉ l ++ w := by
  simp only [List.mem_append,not_or]
  exact ⟨hl,fun h => ne_newline_of_isBlank (hw _ h) rfl⟩

theorem parse_append_blanks_line (hl : '\n' ∉ l) (hw : ∀ a ∈ w, isBlank a) (p : Program) :
    Program.parse (l ++ w ++ ['\n']) = .ok p ↔ Program.parse (l ++ ['\n']) = .ok p := by
  rw [parse_newline hl,parse_newline (not_mem_append_blanks hl hw),mapError_eq_ok,mapError_eq_ok]
  exact parse_append_blanks hl hw p

/-- The same is accepted, or the first faults are on the same line. -/
inductive Agree : Except Diagnostic Program → Except Diagnostic Program → Prop where
  | ok (p : Program) : Agree (.ok p) (.ok p)
  | error {e e' : Diagnostic} : e.location.line = e'.location.line → Agree (.error e) (.error e')

section Outcomes
variable {r r' : Except Diagnostic Program}

theorem Agree.relocate (h : ∀ p, r = .ok p ↔ r' = .ok p) (n : Nat) :
    Agree (Reading.relocate n (List.map (Record.onLine n)) r)
      (Reading.relocate n (List.map (Record.onLine n)) r') := by
  cases r with
  | ok p =>
    obtain rfl := (h p).1 rfl
    exact .ok _
  | error e =>
    cases r' with
    | ok p => cases (h p).2 rfl
    | error e' => exact .error rfl

theorem Agree.bind {f f' : Program → Except Diagnostic Program} (h : Agree r r')
    (hf : ∀ p, Agree (f p) (f' p)) : Agree (r.bind f) (r'.bind f') := by
  cases h with
  | ok p => exact hf p
  | error he => exact .error he

theorem Agree.map (h : Agree r r') (g : Program → Program) : Agree (r.map g) (r'.map g) := by
  cases h with
  | ok p => exact .ok _
  | error he => exact .error he

theorem Agree.same (h : Agree r r') : (∀ p, r = .ok p ↔ r' = .ok p) ∧
    ∀ e e', r = .error e → r' = .error e' → e.location.line = e'.location.line := by
  cases h with
  | ok p =>
    refine ⟨fun _ => Iff.rfl,fun e e' h => ?_⟩
    cases h
  | error he =>
    refine ⟨fun p => ?_,fun e e' h h' => ?_⟩
    · constructor <;> (intro h; cases h)
    · cases h
      cases h'
      exact he

end Outcomes

/-- The induction on the lines. Each is padded on its own. -/
theorem agree_records {s s' : Text} (h : Padded s s') (n : Nat) :
    Agree (records ⟨s,⟨n,1⟩⟩) (records ⟨s',⟨n,1⟩⟩) := by
  induction h generalizing n with
  | @last l w hl hw =>
    rw [records_last hl,records_last (not_mem_append_blanks hl hw)]
    exact Agree.relocate (fun p => (parse_append_blanks hl hw p).symm) n
  | @line l w t t' hl hw _ ih =>
    rw [← List.append_assoc,records_line hl,records_line (not_mem_append_blanks hl hw)]
    have hline := Agree.relocate (fun p => (parse_append_blanks_line hl hw p).symm) n
    exact hline.bind fun p => (ih (n + 1)).map _

end Reading

open Reading

/-- Blanks before the newlines of a source and at its end change nothing: the same programs are
accepted, and the first fault is on the same line. -/
theorem parse_padded {s s' : Text} (h : Padded s s') :
    (∀ p, Program.parse s = .ok p ↔ Program.parse s' = .ok p) ∧
    ∀ e e', Program.parse s = .error e → Program.parse s' = .error e' →
      e.location.line = e'.location.line := (agree_records h 1).same

theorem parse_padded_returns :
    Padded "Δx RSUB\n\n END 5 .\n".toList "Δx RSUB\r\n\r\n END 5 . \t\r\n ".toList ∧
    ∃ p, Program.parse "Δx RSUB\n\n END 5 .\n".toList = .ok p ∧
      Program.parse "Δx RSUB\r\n\r\n END 5 . \t\r\n ".toList = .ok p ∧
      p.map Record.text = ["Δx       RSUB".toList,"         END     5  .".toList] := by
  have hblank : ∀ {w : Text}, w.all isBlank = true → ∀ a ∈ w, isBlank a := List.all_eq_true.1
  have hpadded : Padded "Δx RSUB\n\n END 5 .\n".toList
      "Δx RSUB\r\n\r\n END 5 . \t\r\n ".toList :=
    .line (l := "Δx RSUB".toList) (w := ['\r']) (by decide) (hblank (by decide))
      (.line (l := []) (w := ['\r']) (by decide) (hblank (by decide))
        (.line (l := " END 5 .".toList) (w := " \t\r".toList) (by decide) (hblank (by decide))
          (.last (l := []) (w := [' ']) (by decide) (hblank (by decide)))))
  have h : (Program.parse "Δx RSUB\n\n END 5 .\n".toList).toOption.map (List.map Record.text) =
      some ["Δx       RSUB".toList,"         END     5  .".toList] := by decide +kernel
  obtain ⟨p,hp,htext⟩ := Program.exists_of_parse h
  exact ⟨hpadded,p,hp,((parse_padded hpadded).1 p).1 hp,htext⟩

end SicXE
