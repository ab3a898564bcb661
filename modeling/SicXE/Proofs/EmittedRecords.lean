import SicXE.Assembly.Listing
import SicXE.Proofs.AcceptedOperands
import SicXE.Proofs.Emission
import SicXE.Proofs.LineSteps

/-! # Every record that is read is well formed

A remark is what is left of the line behind an operand, so it cannot be taken for a part of the
operand. Together with what the parts of a line satisfy, this makes the record of every line well
formed, and every record of a program is the record of a line.
-/
namespace SicXE.Reading
open Text Scan

variable {c d : Cursor}

theorem isWord_label {l : Option Symbol} (h : label.run c = .ok l d) :
    ∀ s ∈ l, IsWord isAlphabetic s.name := by
  rw [run_label] at h
  split at h
  case isTrue hc =>
    cases h
    rintro s ⟨⟩
    obtain ⟨a,ha,hf⟩ := Option.any_eq_true .. |>.1 (Bool.and_eq_true_iff.1 hc).2
    exact isWord_takeWhile ha hf (isSymbolChar_of_isAlphabetic hf)
  case isFalse =>
    cases h
    nofun

/-- The remark is what the rest of the line is written for. -/
theorem run_remark_eq_ok {r : Option Text} : remark.run c = .ok r d ↔
    RemarkWritten (c.rest.takeWhile (· != '\n')) r ∧ d = c.dropTo '\n' := by
  rw [remarkWritten_iff]
  constructor
  · intro h
    obtain ⟨text,_,htext,h⟩ := run_bind_eq_ok.1 h
    cases htext
    cases h
    exact ⟨rfl,rfl⟩
  · rintro ⟨rfl,rfl⟩
    exact run_bind_eq_ok.2 ⟨_,_,run_readTo '\n' c,rfl⟩

theorem ne_newline_of_mem_line {t : Text} {a : Char} (h : a ∈ t.takeWhile (· != '\n')) :
    a ≠ '\n' := by
  simpa using List.mem_takeWhile_imp h

theorem tidy_remark {remark : Option Text} (h : Reading.remark.run c = .ok remark d) :
    ∀ t ∈ remark, Tidy t := by
  rintro t rfl
  obtain ⟨⟨⟨hne,hs,he⟩,before,behind,hline,_,_⟩,_⟩ := run_remark_eq_ok.1 h
  refine ⟨hne,fun hn => ?_,hs,he⟩
  have hmem : '\n' ∈ c.rest.takeWhile (· != '\n') := by
    rw [hline]
    exact List.mem_append_right before (List.mem_append_left behind hn)
  exact ne_newline_of_mem_line hmem rfl

/-- The remark that is read behind an operand is one that the operand admits. -/
theorem admits_remark {o : Operand} {remark : Option Text} (hl : o.Leaves c.rest)
    (h : Reading.remark.run c = .ok remark d) : ∀ t ∈ remark, o.Admits t := by
  rintro t rfl
  obtain ⟨hremark,_⟩ := run_remark_eq_ok.1 h
  have hline : (c.rest.takeWhile (· != '\n')).head? = c.peek.filter (· != '\n') :=
    List.head?_takeWhile
  cases o with
  | optionalValue v =>
    cases v with
    | some v => trivial
    | none =>
      have hend := hl.omitted rfl
      have hempty : c.rest.takeWhile (· != '\n') = [] := by
        rw [← List.head?_eq_none_iff,hline]
        rcases hend with hend | hend <;> simp [Cursor.peek,hend]
      rw [hempty] at hremark
      obtain ⟨⟨hne,_,_⟩,before,behind,hnil,_,_⟩ := hremark
      exact hne (List.append_eq_nil_iff.1 (List.append_eq_nil_iff.1 hnil.symm).2).1
  | memory m =>
    intro hi
    -- The blanks were skipped in search of an index, so nothing is trimmed off the start.
    have hstops : Stops isWhitespace (c.rest.takeWhile (· != '\n')) := by
      intro a ha
      have hn := ne_newline_of_mem_line (List.mem_of_mem_head? ha)
      rw [hline,Option.mem_def,Option.filter_eq_some_iff] at ha
      cases hw : isWhitespace a with
      | false => rfl
      | true =>
        have hb := hl.stops m rfl hi a ha.1
        rw [isBlank_of_isWhitespace hw hn] at hb
        cases hb
    rw [hremark.head?_eq hstops,hline]
    intro hc
    exact hl.unindexed m rfl hi (Option.filter_eq_some_iff.1 hc).1
  | none | value | count | data | number | register | registerNumber | registerPair => trivial

theorem isCommentLine_line (h : atComment c = true) :
    Record.IsCommentLine ⟨c.pos,none,.comment (trimEnd (c.rest.takeWhile (· != '\n'))),none⟩
      (trimEnd (c.rest.takeWhile (· != '\n'))) := by
  have hpeek : c.peek = some '.' := by
    simpa using (Bool.and_eq_true_iff.1 h).2
  have hdot : c.rest.head? = some '.' := hpeek
  have hline : (c.rest.takeWhile (· != '\n')).head? = some '.' := by
    rw [List.head?_takeWhile,hdot]
    rfl
  have hstops : Stops isWhitespace (c.rest.takeWhile (· != '\n')) := by
    intro a ha
    rw [hline] at ha
    cases ha
    decide
  refine ⟨rfl,rfl,?_,fun hn => ?_,stops_reverse_trimEnd _⟩
  · rw [head?_trimEnd hstops,hline]
  · exact ne_newline_of_mem_line (mem_of_mem_trimEnd hn) rfl

/-- The record of a line is well formed and stands where the line starts. -/
theorem wellFormed_line {r : Record} (h : line.run c = .ok (some r) d) :
    r.WellFormed ∧ r.location = c.pos := by
  cases lineStep_of_run h with
  | comment hc => exact ⟨isCommentLine_line hc,rfl⟩
  | instruction _ hl _ hm ho hremark =>
    obtain ⟨_,_,hm⟩ := accepts_mnemonic.gives hm
    obtain ⟨_,_,ho⟩ := (accepts_operand hm.limit_lt).gives ho
    obtain ⟨hfits,hleaves⟩ := ho.fits
    exact ⟨⟨hm.registered_spelling,isWord_label hl,hfits,tidy_remark hremark,
      admits_remark hleaves hremark⟩,rfl⟩

theorem wellFormed_records {p : Program} (h : records c = .ok p) :
    ∀ r ∈ p, r.WellFormed ∧ r.location.column = 1 := by
  intro r hr
  obtain ⟨e,d,hstart,hline⟩ := exists_line_of_mem_records h r hr
  obtain ⟨hwf,hloc⟩ := wellFormed_line hline
  rw [hloc]
  exact ⟨hwf,by simpa [Cursor.atStartOfLine] using hstart⟩

end SicXE.Reading

namespace SicXE
open Text Reading

theorem Operand.Fits.isExtended_eq {shape : Shape} {o : Operand} (h : o.Fits shape) :
    o.isExtended = shape.isExtended := by
  cases h with
  | format3Memory hm | format4Memory hm => exact hm.extended_eq
  | _ => rfl

/-- Only the spellings of extended mnemonics start with a plus sign. -/
theorem Mnemonic.head?_spelling {m : Mnemonic} (h : m ∈ Registry.all) :
    (m.spelling.head? == some '+') = m.shape.isExtended := by
  revert m
  decide +kernel

theorem Record.WellFormed.isExtended_eq {r : Record} (h : r.WellFormed) :
    r.isExtended = r.body.mnemonic?.any fun m => m.spelling.head? == some '+' := by
  rcases r with ⟨location,label,text | ⟨m,o⟩,remark⟩
  · rfl
  · have hm := (Registry.mem_all_of_ofSpelling? h.registered).1
    change o.isExtended = (m.spelling.head? == some '+')
    rw [h.operand_fits.isExtended_eq,Mnemonic.head?_spelling hm]

/-- A property of what is parsed that can be evaluated. -/
theorem Program.exists_of_parse {α : Type} {source : Text} {f : Program → α} {a : α}
    (h : (Program.parse source).toOption.map f = some a) :
    ∃ p, Program.parse source = .ok p ∧ f p = a := by
  cases hp : Program.parse source with
  | error e =>
    rw [hp] at h
    cases h
  | ok p =>
    rw [hp] at h
    exact ⟨p,rfl,Option.some.inj h⟩

/-- Whatever is accepted, its records are well formed and stand in the first column, and they are
extended exactly if their spelling says so. -/
theorem parse_emits_wellFormed {source : Text} {p : Program}
    (h : Program.parse source = .ok p) : ∀ r ∈ p, r.location.column = 1 ∧ r.WellFormed ∧
      r.isExtended = r.body.mnemonic?.any fun m => m.spelling.head? == some '+' := by
  intro r hr
  obtain ⟨hwf,hcolumn⟩ := wellFormed_records h r hr
  exact ⟨hcolumn,hwf,hwf.isExtended_eq⟩

theorem parse_emits_wellFormed_four_lines :
    ∃ p, Program.parse "Δx\t+LDA #0x10 , X \t it \n \n BYTE C'é'x\n. a\t".toList = .ok p ∧
      p.map Record.text = ["Δx       +LDA    #16,X  it".toList,"         BYTE    X'C3A9'  x".toList,
        ". a".toList] ∧
      ∀ r ∈ p, r.location.column = 1 ∧ r.WellFormed ∧
        r.isExtended = r.body.mnemonic?.any fun m => m.spelling.head? == some '+' := by
  have h : (Program.parse "Δx\t+LDA #0x10 , X \t it \n \n BYTE C'é'x\n. a\t".toList).toOption.map
      (List.map Record.text) = some ["Δx       +LDA    #16,X  it".toList,
        "         BYTE    X'C3A9'  x".toList,". a".toList] := by decide +kernel
  obtain ⟨p,hp,htext⟩ := Program.exists_of_parse h
  exact ⟨p,hp,htext,parse_emits_wellFormed hp⟩

end SicXE
