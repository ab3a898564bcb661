import SicXE.Proofs.Locality

/-! # Lines and their grammar

A line is accepted exactly where the grammar has one: blank lines and comments always, any other
line if it can be written as a label, a mnemonic, an operand and a remark. The parts of a line
are maximal, so a line can be written in one way only, and that is the record that it gives.
-/
namespace SicXE
open Text

/-- Something of the line is visible, and it does not start as a comment does. -/
theorem Mnemonic.Placed.visible {before spelling u : Text} {s : Option Symbol} {m : Mnemonic}
    (h : m.Placed before spelling s u) :
    (∃ a ∈ before ++ (spelling ++ u), isWhitespace a = false) ∧
      (before ++ (spelling ++ u)).head? ≠ some '.' := by
  obtain ⟨label,gap,rfl,hlabel,hgap,hm⟩ := h
  obtain ⟨hne,hvisible⟩ := hm.visible
  obtain ⟨a,rest,rfl⟩ := List.exists_cons_of_ne_nil hne
  refine ⟨⟨a,by simp,hvisible a List.mem_cons_self⟩,?_⟩
  intro hdot
  cases hlabel with
  | label ht =>
    obtain ⟨b,hb,halpha⟩ := Option.any_eq_true .. |>.1 ht.head
    rw [List.append_assoc,List.head?_append,hb] at hdot
    cases hdot
    revert halpha
    decide
  | unlabelled =>
    cases gap with
    | cons b gap =>
      cases hdot
      have hblank := hgap.blank '.' List.mem_cons_self
      revert hblank
      decide
    | nil =>
      cases hdot
      obtain ⟨word,hword | hword,hsym⟩ := hm.spelled
      · have hdotted := hsym '.' (hword ▸ List.mem_cons_self)
        revert hdotted
        decide
      · cases hword

namespace Reading
open Scan

variable {c d : Cursor} {l : Text}

section Parts

theorem run_label_written {t u : Text} {s : Option Symbol} {p : Position} (hp : p.column = 1)
    (h : LabelWritten t s u) : label.run ⟨t ++ u,p⟩ = .ok s ⟨u,p.past t⟩ := by
  have hstart : (⟨t ++ u,p⟩ : Cursor).atStartOfLine = true := by simp [Cursor.atStartOfLine,hp]
  rw [run_label,hstart,Bool.true_and]
  cases h with
  | label ht hu =>
    obtain ⟨a,ha,hf⟩ := Option.any_eq_true .. |>.1 ht.head
    have hpeek : (⟨t ++ u,p⟩ : Cursor).peek = some a := by
      rw [Cursor.peek,List.head?_append,ha]
      rfl
    rw [hpeek,Option.any_some,if_pos hf,Cursor.dropWhile,takeWhile_run ht.symbolic hu,
      dropWhile_run ht.symbolic hu]
  | unlabelled hu =>
    have hpeek : (⟨[] ++ u,p⟩ : Cursor).peek.any isAlphabetic = false := by
      rw [Option.any_eq_false]
      intro a ha
      simpa using hu a ha
    rw [hpeek]
    rfl

theorem labelWritten_of_run {s : Option Symbol} (hs : c.atStartOfLine = true)
    (h : label.run c = .ok s d) : ∃ t, c.rest = t ++ d.rest ∧ LabelWritten t s d.rest := by
  rw [run_label,hs,Bool.true_and] at h
  split at h
  case isTrue ha =>
    cases h
    obtain ⟨a,ha,hf⟩ := Option.any_eq_true .. |>.1 ha
    exact ⟨_,List.takeWhile_append_dropWhile.symm,
      .label (isWord_takeWhile ha hf (isSymbolChar_of_isAlphabetic hf)) stops_dropWhile⟩
  case isFalse ha =>
    cases h
    refine ⟨[],rfl,.unlabelled fun a hpeek => ?_⟩
    have hpeek : c.peek = some a := hpeek
    simpa [hpeek] using ha

end Parts

theorem takeWhile_line {t : Text} (ht : '\n' ∉ t) : t.takeWhile (· != '\n') = t := by
  have h := takeWhile_run (u := []) (bne_of_not_mem ht) stops_nil
  rwa [List.append_nil] at h

/-- Up to its operand a line is read as it is written. -/
theorem run_line_placed {before spelling gap t : Text} {s : Option Symbol} {m : Mnemonic}
    (h : m.Placed before spelling s (gap ++ t)) (hg : Gap gap t) :
    line.run (.start (before ++ (spelling ++ (gap ++ t)))) =
      (do
        let o ← operand m.shape
        return some ⟨.start,s,.instruction m o,← remark⟩ : Scan (Option Record)).run
        ⟨t,Position.start.past (before ++ (spelling ++ gap))⟩ := by
  have hdot := h.visible.2
  obtain ⟨label,gap₁,rfl,hlabel,hgap₁,hm⟩ := h
  have hc : atComment (.start (label ++ gap₁ ++ (spelling ++ (gap ++ t)))) = false := by
    simpa [atComment,Cursor.peek,Cursor.start] using fun _ => hdot
  rw [List.append_assoc] at hc ⊢
  -- The mnemonic is visible, so behind the first gap the line has not ended.
  have hended := endsLine_eq_false hm.visible.1 hm.visible.2 (gap ++ t)
  have hlab := run_label_written (p := .start) rfl hlabel
  have hskip := (accepts_skipBlanks.reads ⟨hgap₁,rfl⟩).run (Position.start.past label)
  have hmnemonic := (accepts_mnemonic.reads hm).run ((Position.start.past label).past gap₁)
  have hskip' := (accepts_skipBlanks.reads ⟨hg,rfl⟩).run
    (((Position.start.past label).past gap₁).past spelling)
  rw [run_line_statement hc,statement,Cursor.start,run_bind_of_ok hlab,run_bind_of_ok hskip,hended,
    Bool.false_and,if_neg Bool.false_ne_true,instruction,bind_assoc,run_bind_of_ok hmnemonic,
    bind_assoc,run_bind_of_ok hskip',bind_assoc]
  simp only [pure_bind,Position.past_append]

theorem run_line_of_written {r : Record} (hl : '\n' ∉ l) (h : Record.Written l r) :
    ∃ d, line.run (.start l) = .ok (some r) d := by
  obtain ⟨label,gap₁,spelling,_,s,m,o,remark,rfl,hbefore,
    ⟨gap₂,operand,rest,rfl,hgap₂,ho,hremark⟩,rfl⟩ := Record.written_iff.1 h
  have hplaced : m.Placed (label ++ gap₁) spelling s (gap₂ ++ (operand ++ rest)) :=
    ⟨label,gap₁,rfl,hbefore⟩
  have hrest : '\n' ∉ rest := by
    intro hn
    simp [hn] at hl
  have hoperand := ((accepts_operand hplaced.written.limit_lt).reads ho).run
    (Position.start.past (label ++ gap₁ ++ (spelling ++ gap₂)))
  rw [← takeWhile_line hrest] at hremark
  have hrun := run_line_placed hplaced hgap₂
  rw [run_bind_of_ok hoperand,run_bind_of_ok (run_remark_eq_ok.2 ⟨hremark,rfl⟩)] at hrun
  rw [← List.append_assoc,hrun]
  exact ⟨_,rfl⟩

theorem written_of_run_line {r : Record} (hl : '\n' ∉ l) (hc : atComment (.start l) = false)
    (h : line.run (.start l) = .ok (some r) d) : Record.Written l r := by
  cases lineStep_of_run h with
  | comment hat =>
    rw [hc] at hat
    cases hat
  | @instruction s m o remark c₁ c₂ c₃ _ _ hlabel _ hm ho hremark =>
    obtain ⟨label,hline,hlabel⟩ := labelWritten_of_run rfl hlabel
    obtain ⟨spelling,hspelling,hm⟩ := accepts_mnemonic.gives hm
    obtain ⟨operand,hoperand,ho⟩ := (accepts_operand hm.limit_lt).gives ho
    obtain ⟨gap₁,hgap₁,hg₁,_⟩ := accepts_skipBlanks.gives (run_skipBlanks c₁)
    obtain ⟨gap₂,hgap₂,hg₂,_⟩ := accepts_skipBlanks.gives (run_skipBlanks c₂)
    rw [hoperand] at hgap₂ hg₂
    rw [hgap₂] at hspelling hm
    rw [hspelling] at hgap₁ hg₁
    rw [hgap₁] at hline hlabel
    have hline : l = label ++ (gap₁ ++ (spelling ++ (gap₂ ++ (operand ++ c₃.rest)))) := hline
    have hrest : '\n' ∉ c₃.rest := by
      intro hn
      simp [hline,hn] at hl
    have hremark := (run_remark_eq_ok.1 hremark).1
    rw [takeWhile_line hrest] at hremark
    exact ⟨hline,hlabel,hg₁,hm,hg₂,ho,hremark⟩

theorem parse_of_run_line {r : Option Record} (hl : '\n' ∉ l) (hne : l ≠ [])
    (h : ∃ d, line.run (.start l) = .ok r d) : Program.parse l = .ok r.toList := by
  obtain ⟨d,h⟩ := h
  rw [parse_alone hne (Cursor.rest_dropTo_last hl _),h]
  rfl

theorem parse_blank (hl : '\n' ∉ l) (hb : ∀ a ∈ l, isWhitespace a) : Program.parse l = .ok [] := by
  by_cases hne : l = []
  · subst hne
    exact records_ended rfl
  have hblank : ∀ a ∈ l, isBlank a := fun a ha =>
    isBlank_of_isWhitespace (hb a ha) fun h => hl (h ▸ ha)
  obtain ⟨a,t,rfl⟩ := List.exists_cons_of_ne_nil hne
  have ha := hb a List.mem_cons_self
  have hdot : atComment (.start (a :: t)) = false := by
    have hne : a ≠ '.' := by
      rintro rfl
      revert ha
      decide
    simp [atComment,Cursor.peek,Cursor.start,hne]
  have hstops : Stops isAlphabetic (a :: t) := by
    rw [stops_cons]
    cases halpha : isAlphabetic a with
    | false => rfl
    | true =>
      rw [isWhitespace_of_isSymbolChar (isSymbolChar_of_isAlphabetic halpha)] at ha
      cases ha
  have hlabel := run_label_written (t := []) (p := .start) rfl (.unlabelled hstops)
  have hskip := (reads_skipBlanks (u := []) hblank stops_nil).run .start
  rw [List.nil_append,Position.past_nil] at hlabel
  rw [List.append_nil] at hskip
  refine parse_of_run_line hl hne (r := none) ?_
  rw [run_line_statement hdot,statement,Cursor.start,run_bind_of_ok hlabel,run_bind_of_ok hskip]
  exact ⟨_,rfl⟩

theorem parse_comment (hl : '\n' ∉ l) (h : l.head? = some '.') :
    Program.parse l = .ok [⟨.start,none,.comment (trimEnd l),none⟩] := by
  have hne : l ≠ [] := by
    rintro rfl
    cases h
  have hc : atComment (.start l) = true :=
    Bool.and_eq_true_iff.2 ⟨rfl,by simpa [Cursor.peek,Cursor.start] using h⟩
  refine parse_of_run_line hl hne (r := some ⟨.start,none,.comment (trimEnd l),none⟩) ?_
  rw [run_line_comment hc,run_bind_of_ok (run_comment _),Cursor.start,takeWhile_line hl]
  exact ⟨_,rfl⟩

/-- A line that is neither blank nor a comment gives what it is written for. -/
theorem parse_eq_ok_iff_written (hl : '\n' ∉ l) {a : Char} (ha : a ∈ l)
    (hvisible : isWhitespace a = false) (hdot : l.head? ≠ some '.') (p : Program) :
    Program.parse l = .ok p ↔ ∃ r, p = [r] ∧ Record.Written l r := by
  have hne : l ≠ [] := List.ne_nil_of_mem ha
  have hc : atComment (.start l) = false := by simp [atComment,Cursor.peek,Cursor.start,hdot]
  constructor
  · intro h
    rw [parse_alone hne (Cursor.rest_dropTo_last hl _)] at h
    cases hrun : line.run (.start l) with
    | error e d =>
      rw [hrun] at h
      cases h
    | ok r d =>
      rw [hrun] at h
      cases h
      have hblank := isNone_of_lineStep (lineStep_of_run hrun)
      cases r with
      | some r => exact ⟨r,rfl,written_of_run_line hl hc hrun⟩
      | none =>
        rw [lineText,Cursor.start,takeWhile_line hl] at hblank
        rw [List.all_eq_true.1 hblank.symm a ha] at hvisible
        cases hvisible
  · rintro ⟨r,rfl,hr⟩
    exact parse_of_run_line hl hne (run_line_of_written hl hr)

end Reading

open Reading

end SicXE
