import SicXE.Proofs.PaddedLines
import SicXE.Proofs.TrailedLines

/-! # Carriage returns

With a carriage return before each newline a source is rejected on the same line, and for the same
reason in the same words unless the scan meets the return where it looks for a character without
skipping blanks first. That is so behind the letter of a literal that lacks its opening quote, and
behind the sign of a literal operand that has no data.
-/
namespace SicXE
open Text

/-- The text with a carriage return before each newline. -/
def Text.withReturns (t : Text) : Text := t.flatMap fun a => if a = '\n' then ['\r','\n'] else [a]

/-- What a fault of a line says where a carriage return stands before the newline. -/
def Fault.withReturn (line : Text) : Fault → Fault
  | expectedAtLineEnd wanted =>
    if wanted = '\x27' then expectedFound wanted '\r' else expectedAtLineEnd wanted
  | dataMissing => if line.getLast? = some '\n' ∧ line.dropLast.getLast? = some '=' then
      invalidData '\r' else dataMissing
  | fault => fault

theorem Fault.withReturn_expectedAtLineEnd (line : Text) (wanted : Char) :
    (expectedAtLineEnd wanted).withReturn line =
      if wanted = '\x27' then expectedFound wanted '\r' else expectedAtLineEnd wanted := rfl

theorem Fault.withReturn_dataMissing (line : Text) : dataMissing.withReturn line =
    if line.getLast? = some '\n' ∧ line.dropLast.getLast? = some '=' then invalidData '\r'
      else dataMissing := rfl

/-- What becomes of a fault is the same whether the return or the newline is put in first. -/
theorem Fault.before_trailed {fault : Fault} (l : Text)
    (h : ∀ wanted, fault ≠ .expectedAtLineEnd wanted) :
    (fault.trailed '\r' l).before ['\n'] =
      (fault.before ['\n']).withReturn (l ++ ['\n']) := by
  cases fault with
  | expectedAtInputEnd wanted =>
    have hbefore : (expectedAtInputEnd wanted).before ['\n'] = expectedAtLineEnd wanted := rfl
    rw [hbefore,trailed_expectedAtInputEnd,withReturn_expectedAtLineEnd]
    split
    · rfl
    · rfl
  | expectedAtLineEnd wanted => exact absurd rfl (h wanted)
  | dataMissing =>
    have hbefore : dataMissing.before ['\n'] = dataMissing := rfl
    have hline : (l ++ ['\n']).getLast? = some '\n' ∧
        (l ++ ['\n']).dropLast.getLast? = some '=' ↔ l.getLast? = some '=' := by simp
    rw [hbefore,trailed_dataMissing,withReturn_dataMissing]
    by_cases hsign : l.getLast? = some '='
    · rw [if_pos hsign,if_pos (hline.mpr hsign)]
      rfl
    · rw [if_neg hsign,if_neg (mt hline.mp hsign)]
      rfl
  | _ => rfl

theorem Text.withReturns_append (t u : Text) :
    (t ++ u).withReturns = t.withReturns ++ u.withReturns := List.flatMap_append

theorem Text.withReturns_line {l : Text} (hl : '\n' ∉ l) : l.withReturns = l := by
  induction l with
  | nil => rfl
  | cons a l ih =>
    obtain ⟨ha,hl⟩ := List.ne_and_not_mem_of_not_mem_cons hl
    change (if a = '\n' then ['\r','\n'] else [a]) ++ withReturns l = a :: l
    rw [if_neg ha.symm,ih hl]
    rfl

theorem Text.withReturns_newline {l : Text} (hl : '\n' ∉ l) (t : Text) :
    (l ++ '\n' :: t).withReturns = l ++ ['\r'] ++ '\n' :: t.withReturns := by
  rw [withReturns_append,withReturns_line hl,List.append_assoc]
  rfl

/-- Another fault of the same line has another message. -/
theorem Fault.message_withReturn_eq_iff (fault : Fault) (line : Text) :
    (fault.withReturn line).message = fault.message ↔ fault.withReturn line = fault := by
  constructor
  · intro h
    cases fault with
    | expectedAtLineEnd wanted =>
      by_cases hw : wanted = '\x27'
      · subst hw
        have hne : (expectedFound '\x27' '\r').message ≠ (expectedAtLineEnd '\x27').message := by
          decide
        exact absurd h hne
      · rw [withReturn_expectedAtLineEnd,if_neg hw]
    | dataMissing =>
      have hne : (invalidData '\r').message ≠ dataMissing.message := by decide
      rw [withReturn_dataMissing] at h ⊢
      split at h
      case isTrue => exact absurd h hne
      case isFalse hw => rw [if_neg hw]
    | _ => rfl
  · intro h
    rw [h]

namespace Reading
open Scan

variable {l : Text} {e : Diagnostic}

/-- On a line without a newline nothing is said of the end of the line. -/
theorem ne_expectedAtLineEnd (hl : '\n' ∉ l) (h : Program.parse l = .error e) (wanted : Char) :
    e.fault ≠ .expectedAtLineEnd wanted := by
  obtain ⟨v,u,rfl,_,hholds⟩ := holds_of_parse h
  intro hfault
  rw [hfault] at hholds
  exact hl (List.mem_append_right v (List.mem_of_head? hholds.of_expectedAtLineEnd))

theorem fault_of_concat {b : Char} (hb : isBlank b) (hl : '\n' ∉ l)
    (h : Program.parse l = .error e) :
    ∃ e', Program.parse (l ++ [b]) = .error e' ∧ e'.fault = e.fault.trailed b l := by
  have hlb : '\n' ∉ l ++ [b] := by simp [hl,(ne_newline_of_isBlank hb).symm]
  rw [parse_eq_outcome hl] at h
  cases hrun : line.run (.start l) with
  | ok r d =>
    rw [hrun] at h
    cases h
  | error e₀ d =>
    rw [hrun] at h
    cases h
    obtain ⟨e',d',hrun',hfault⟩ := fault_of_line hb hl hrun
    refine ⟨e',?_,hfault⟩
    rw [parse_eq_outcome hlb,hrun']
    rfl

/-- The faults of a line with its newline, without a return before it and with one. -/
theorem fault_of_newline (hl : '\n' ∉ l) (h : Program.parse (l ++ ['\n']) = .error e) :
    ∃ e', Program.parse (l ++ ['\r'] ++ ['\n']) = .error e' ∧
      e'.fault = e.fault.withReturn (l ++ ['\n']) := by
  have hlr : '\n' ∉ l ++ ['\r'] := by simp [hl]
  rw [parse_newline hl] at h
  cases hp : Program.parse l with
  | ok p =>
    rw [hp] at h
    cases h
  | error e₀ =>
    rw [hp] at h
    cases h
    obtain ⟨e',hp',hfault⟩ := fault_of_concat (b := '\r') (by decide) hl hp
    refine ⟨e'.beforeNewline,by rw [parse_newline hlr,hp']; rfl,?_⟩
    simp only [Diagnostic.beforeNewline,hfault]
    exact Fault.before_trailed l (ne_expectedAtLineEnd hl hp)

theorem fault_of_last (hl : '\n' ∉ l) (h : Program.parse l = .error e) :
    e.fault.withReturn l = e.fault := by
  have hne := ne_expectedAtLineEnd hl h
  cases hf : e.fault with
  | expectedAtLineEnd wanted => exact absurd hf (hne wanted)
  | dataMissing =>
    have hlast : l.getLast? ≠ some '\n' := fun h => hl (List.mem_of_getLast? h)
    rw [Fault.withReturn_dataMissing,if_neg fun h => hlast h.1]
  | _ => rfl

/-- The induction on the lines, of which the first one that is rejected decides. -/
theorem records_withReturns {s : Text} {ls : List Text} (h : Splits s ls) {n : Nat}
    (he : records ⟨s,⟨n,1⟩⟩ = .error e) :
    ∃ e' line, records ⟨s.withReturns,⟨n,1⟩⟩ = .error e' ∧
      e'.location.line = e.location.line ∧ n ≤ e.location.line ∧
      ls[e.location.line - n]? = some line ∧ e'.fault = e.fault.withReturn line := by
  induction h generalizing n with
  | @last l hl =>
    refine ⟨e,l,by rwa [withReturns_line hl],rfl,?_⟩
    rw [records_last hl] at he
    cases hp : Program.parse l with
    | ok p =>
      rw [hp] at he
      cases he
    | error e₀ =>
      rw [hp] at he
      cases he
      exact ⟨Nat.le_refl n,by simp [Diagnostic.onLine,Position.onLine],(fault_of_last hl hp).symm⟩
  | @line l t ls hl _ ih =>
    have hlr : '\n' ∉ l ++ ['\r'] := by simp [hl]
    rw [withReturns_newline hl]
    cases hp : Program.parse (l ++ ['\n']) with
    | error e₀ =>
      rw [records_line_error hl hp] at he
      cases he
      obtain ⟨e',hp',hfault⟩ := fault_of_newline hl hp
      exact ⟨e'.onLine n,l ++ ['\n'],records_line_error hlr hp' n _,rfl,Nat.le_refl n,
        by simp [Diagnostic.onLine,Position.onLine],hfault⟩
    | ok p =>
      have hp' : Program.parse (l ++ ['\r'] ++ ['\n']) = .ok p :=
        (parse_append_blanks_line hl (List.all_eq_true.1 (by decide)) p).2 hp
      have hrest : records ⟨t,⟨n + 1,1⟩⟩ = .error e := by
        cases ht : records ⟨t,⟨n + 1,1⟩⟩ with
        | ok q =>
          rw [records_line_eq_ok hl |>.2 ⟨p,q,hp,ht,rfl⟩] at he
          cases he
        | error e₀ =>
          rw [records_line_skip hl hp ht] at he
          exact he
      obtain ⟨e',line,ht',hline,hle,hget,hfault⟩ := ih hrest
      refine ⟨e',line,records_line_skip hlr hp' ht',hline,by omega,?_,hfault⟩
      rw [show e.location.line - n = e.location.line - (n + 1) + 1 by omega]
      exact hget

end Reading

open Reading

/-- With carriage returns a source is rejected on the same line. The message is the same unless the
line lacks the opening quote of a literal or the data of a literal operand at its very end: then
the return is reported in place of them. -/
theorem parse_withReturns {s : Text} {e : Diagnostic} (h : Program.parse s = .error e) :
    ∃ e' line, Program.parse s.withReturns = .error e' ∧
      e'.location.line = e.location.line ∧ s.lines[e.location.line - 1]? = some line ∧
      e'.fault = e.fault.withReturn line ∧
      (e'.message = e.message ↔ e.fault.withReturn line = e.fault) := by
  obtain ⟨e',line,hparse,hline,_,hget,hfault⟩ := records_withReturns (splits_lines s) h
  refine ⟨e',line,hparse,hline,hget,hfault,?_⟩
  rw [Diagnostic.message,Diagnostic.message,hfault]
  exact e.fault.message_withReturn_eq_iff line

theorem parse_withReturns_sign :
    ∃ e', Program.parse " NOBASE\r\n LDA =\r\n".toList = .error e' ∧ e'.location.line = 2 ∧
      e'.message ≠ "Invalid storage specifier: operand is missing" := by
  have hp : Program.parse " NOBASE\n LDA =\n".toList = .error ⟨.dataMissing,⟨2,7⟩⟩ := by
    decide +kernel
  obtain ⟨e',line,hparse,hline,hget,_,hmessage⟩ := parse_withReturns hp
  obtain rfl : " LDA =\n".toList = line := Option.some.inj hget
  exact ⟨e',hparse,hline,mt hmessage.1 (by decide)⟩

/-- The quote that is missing at the end of a line is not reported as missing there. -/
theorem not_parse_withReturns_alike :
    ¬∀ (s : Text) (e : Diagnostic), '\r' ∉ s → Program.parse s = .error e →
      ∃ e', Program.parse s.withReturns = .error e' ∧ e'.location.line = e.location.line ∧
        e'.message = e.message := by
  intro h
  have hp : Program.parse " BYTE C\n".toList = .error ⟨.expectedAtLineEnd '\x27',⟨1,8⟩⟩ := by
    decide +kernel
  have hp' : Program.parse (withReturns " BYTE C\n".toList) =
      .error ⟨.expectedFound '\x27' '\r',⟨1,8⟩⟩ := by
    decide +kernel
  obtain ⟨e',hparse,_,hmessage⟩ := h _ _ (by decide) hp
  rw [hp'] at hparse
  cases hparse
  revert hmessage
  decide

end SicXE
