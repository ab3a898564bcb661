import SicXE.Assembly.Listing
import SicXE.Proofs.FinalNewline
import SicXE.Proofs.LineGrammar
import SicXE.Proofs.OperandRecovery

/-! # Reading back a line

The listed line of a well-formed record is a line of the grammar, written for that record, so it is
read back as the record. Only the location changes: the record is found at the start of the line.
-/
namespace SicXE
open Text

/-- The columns are the words in order with spaces between them; the gap before the operand is
left out together with the operand. -/
theorem Body.columns_instruction {m : Mnemonic} {o : Operand} (label : Option Symbol)
    (hm : Registry.ofSpelling? m.spelling = some m) (ho : o.Fits m.shape) :
    ∃ pad gap : Text, (∀ a ∈ pad, a = ' ') ∧ (∀ a ∈ gap, a = ' ') ∧ pad ≠ [] ∧
      (gap = [] ↔ o.text = []) ∧ (Body.instruction m o).columns label =
        (label.map Symbol.name).getD [] ++ (pad ++ (m.spelling ++ (gap ++ o.text))) := by
  have hs := m.visible_spelling hm
  have hspaces : ∀ n, ∀ a ∈ List.replicate n ' ' ++ [' '], a = ' ' := by
    intro n a ha
    rcases List.mem_append.1 ha with ha | ha
    · exact List.eq_of_mem_replicate ha
    · exact List.mem_singleton.1 ha
  let name := (label.map Symbol.name).getD []
  let pad := List.replicate (8 - name.length) ' ' ++ [' ']
  let gap := List.replicate (7 - m.spelling.length) ' ' ++ [' ']
  have hc : (Body.instruction m o).columns label =
      trimEnd (name ++ (pad ++ m.spelling) ++ (gap ++ o.text)) := by
    simp [columns,padRight,List.rightpad,name,pad,gap]
  by_cases ht : o.text = []
  · refine ⟨pad,[],hspaces _,by simp,by simp [pad],by simp [ht],?_⟩
    rw [hc,ht,List.append_nil,List.append_nil,List.append_nil]
    apply trimEnd_append
    · rw [List.reverse_append,List.reverse_append,List.append_assoc]
      exact (stops_reverse_of_forall hs).append (by simpa using m.spelling_ne_nil hm)
    · intro a ha
      rw [hspaces _ a ha]
      decide
  · refine ⟨pad,gap,hspaces _,hspaces _,by simp [pad],by simp [ht,gap],?_⟩
    rw [hc,trimEnd_eq_self]
    · simp [name]
    · rw [List.reverse_append,List.reverse_append,List.append_assoc]
      exact (stops_reverse_of_forall (Operand.visible_text ho)).append (by simpa using ht)

theorem Mnemonic.written_spelling {m : Mnemonic} {u : Text}
    (h : Registry.ofSpelling? m.spelling = some m) (hu : Stops isSymbolChar u) :
    m.Written m.spelling u := by
  have hw := isWord_operation_name m (Registry.mem_all_of_ofSpelling? h).1
  refine ⟨h,⟨m.operation.name.toList,?_,hw.symbolic⟩,hu⟩
  unfold spelling
  cases m.shape.isExtended with
  | true => exact .inr rfl
  | false => exact .inl rfl

/-- The rest of a line is its remark, whatever blanks stand before it. -/
theorem Text.remarkWritten_append {b : Text} {t : Option Text} (hb : ∀ a ∈ b, isBlank a)
    (ht : ∀ r ∈ t, Tidy r) : RemarkWritten (b ++ t.getD []) t := by
  have hw : ∀ a ∈ b, isWhitespace a := fun a ha => isWhitespace_of_isBlank (hb a ha)
  cases t with
  | none => simpa [RemarkWritten] using hw
  | some r =>
    have hr := ht r rfl
    exact ⟨⟨hr.ne_nil,hr.starts,hr.ends⟩,b,[],by simp,hw,nofun⟩

/-- The text of an operand with a gap before it and a remark behind it. Where the operand has no
text, there is no gap, and the blanks before the remark are those behind the mnemonic. -/
theorem Operand.behind_text {shape : Shape} {o : Operand} {gap b : Text} {remark : Option Text}
    (ho : o.Fits shape) (hgap : ∀ a ∈ gap, isBlank a) (hempty : gap = [] ↔ o.text = [])
    (hf : o.Follows b (remark.getD [])) (ht : ∀ t ∈ remark, Tidy t) :
    o.Behind shape remark (gap ++ (o.text ++ (b ++ remark.getD []))) := by
  by_cases hnil : o.text = []
  · rw [hempty.2 hnil,hnil]
    have hremark := remarkWritten_append (b := []) nofun ht
    exact ⟨b,[],_,rfl,⟨hf.blank,hf.stops⟩,written_empty ho hnil hf,hremark⟩
  · obtain ⟨b₁,b₂,rfl,hw⟩ := Operand.exists_written ho hf hnil
    have hb₂ : ∀ a ∈ b₂, isBlank a := fun a ha => hf.blank a (List.mem_append_right _ ha)
    have hstops : Stops isBlank (o.text ++ (b₁ ++ b₂ ++ remark.getD [])) :=
      (stops_isBlank (stops_of_forall (visible_text ho))).append hnil
    refine ⟨gap,o.text ++ b₁,b₂ ++ remark.getD [],by simp,⟨hgap,by simpa using hstops⟩,hw,?_⟩
    exact remarkWritten_append hb₂ ht

theorem Text.ne_newline_of_visible {t : Text} (h : ∀ a ∈ t, isWhitespace a = false) :
    '\n' ∉ t := by
  intro hn
  have hw := h '\n' hn
  revert hw
  decide

theorem Text.IsWord.one_line {first : Char → Bool} {t : Text} (h : IsWord first t) : '\n' ∉ t :=
  ne_newline_of_visible fun a ha => isWhitespace_of_isSymbolChar (h.symbolic a ha)

section Lines
variable {r : Record} {m : Mnemonic} {o : Operand}

/-- What stands on the line of a record behind its operand cannot be taken for a part of it. -/
theorem Record.IsInstructionLine.exists_follows (hb : r.body = .instruction m o)
    (hr : r.IsInstructionLine m o) :
    ∃ b : Text, r.tail = b ++ r.remark.getD [] ∧ o.Follows b (r.remark.getD []) := by
  cases hremark : r.remark with
  | none =>
    refine ⟨[],by simp [tail,hb,hremark],?_⟩
    exact ⟨by simp,by simp,stops_nil,fun _ => .inl rfl,fun _ _ _ => by simp⟩
  | some t =>
    have ht := hr.remark_tidy t hremark
    have ha := hr.remark_admitted t hremark
    have hblanks : ∀ a ∈ [' ',' '], isBlank a := List.all_eq_true.1 (by decide)
    refine ⟨[' ',' '],by simp [tail,hb,hremark],?_⟩
    refine ⟨hblanks,stops_isBlank ht.starts,stops_cons.2 (by decide),?_,?_⟩
    · rintro rfl
      exact ha.elim
    · rintro m' rfl hi
      exact ha hi

theorem Record.IsInstructionLine.label_written (hr : r.IsInstructionLine m o) {pad u : Text}
    (hpad : ∀ a ∈ pad, a = ' ') (hne : pad ≠ []) :
    LabelWritten ((r.label.map Symbol.name).getD []) r.label (pad ++ u) := by
  obtain ⟨a,pad,rfl⟩ := List.exists_cons_of_ne_nil hne
  obtain rfl : a = ' ' := hpad a List.mem_cons_self
  cases hl : r.label with
  | none => exact .unlabelled (stops_cons.2 (by decide))
  | some s => exact .label (hr.label_word s hl) (stops_cons.2 (by decide))

/-- The listed line of an instruction is written for its record. -/
theorem Record.IsInstructionLine.written_text (hb : r.body = .instruction m o)
    (hr : r.IsInstructionLine m o) : Record.Written r.text (r.atLine 1) := by
  obtain ⟨pad,gap,hpad,hgap,hne,hempty,hcol⟩ :=
    Body.columns_instruction r.label hr.registered hr.operand_fits
  obtain ⟨b,htail,hf⟩ := hr.exists_follows hb
  have hblank : ∀ t : Text, (∀ a ∈ t, a = ' ') → ∀ a ∈ t, isBlank a := by
    intro t ht a ha
    rw [ht a ha]
    decide
  have hword : Stops isSymbolChar (gap ++ (o.text ++ (b ++ r.remark.getD []))) := by
    by_cases hnil : gap = []
    · rw [hnil,hempty.1 hnil]
      exact hf.word_ends
    · refine (stops_of_forall fun a ha => ?_).append hnil
      exact isSymbolChar_of_isWhitespace (isWhitespace_of_isBlank (hblank gap hgap a ha))
  have hspelling : Stops isBlank (m.spelling ++ (gap ++ (o.text ++ (b ++ r.remark.getD [])))) :=
    (stops_isBlank (stops_of_forall (m.visible_spelling hr.registered))).append
      (m.spelling_ne_nil hr.registered)
  refine written_iff.2 ⟨_,pad,m.spelling,_,r.label,m,o,r.remark,?_,
    ⟨hr.label_written hpad hne,⟨hblank pad hpad,hspelling⟩,
      Mnemonic.written_spelling hr.registered hword⟩,
    Operand.behind_text hr.operand_fits (hblank gap hgap) hempty hf hr.remark_tidy,?_⟩
  · rw [text,hb,hcol,htail]
    simp only [List.append_assoc]
  · rw [atLine,hb]
    rfl

theorem Record.IsInstructionLine.head?_text_ne_dot (hb : r.body = .instruction m o)
    (hr : r.IsInstructionLine m o) : r.text.head? ≠ some '.' := by
  obtain ⟨pad,gap,hpad,_,hne,_,hcol⟩ :=
    Body.columns_instruction r.label hr.registered hr.operand_fits
  rw [text,hb,hcol]
  cases hl : r.label with
  | none =>
    obtain ⟨a,rest,rfl⟩ := List.exists_cons_of_ne_nil hne
    have ha := hpad a List.mem_cons_self
    simp [ha]
  | some s =>
    obtain ⟨a,ha,hf⟩ := Option.any_eq_true .. |>.1 (hr.label_word s hl).head
    have hdot : a ≠ '.' := by
      rintro rfl
      revert hf
      decide
    simpa [List.head?_append,ha] using hdot

theorem Record.IsInstructionLine.exists_visible (hb : r.body = .instruction m o)
    (hr : r.IsInstructionLine m o) : ∃ a ∈ r.text, isWhitespace a = false := by
  obtain ⟨pad,gap,_,_,_,_,hcol⟩ :=
    Body.columns_instruction r.label hr.registered hr.operand_fits
  obtain ⟨a,ha⟩ := List.exists_mem_of_ne_nil _ (m.spelling_ne_nil hr.registered)
  refine ⟨a,?_,m.visible_spelling hr.registered a ha⟩
  rw [text,hb,hcol]
  simp [ha]

theorem Record.IsInstructionLine.one_line (hb : r.body = .instruction m o)
    (hr : r.IsInstructionLine m o) : '\n' ∉ r.text := by
  obtain ⟨pad,gap,hpad,hgap,_,_,hcol⟩ :=
    Body.columns_instruction r.label hr.registered hr.operand_fits
  have hspaces : ∀ t : Text, (∀ a ∈ t, a = ' ') → '\n' ∉ t := by
    intro t ht hn
    cases ht _ hn
  have hlabel : '\n' ∉ (r.label.map Symbol.name).getD [] := by
    cases hl : r.label with
    | none => simp
    | some s => exact (hr.label_word s hl).one_line
  have htail : '\n' ∉ r.tail := by
    cases hremark : r.remark with
    | none => simp [tail,hb,hremark]
    | some t => simpa [tail,hb,hremark] using (hr.remark_tidy t hremark).one_line
  have hspelling := ne_newline_of_visible (m.visible_spelling hr.registered)
  have hoperand := ne_newline_of_visible (Operand.visible_text hr.operand_fits)
  rw [text,hb,hcol]
  simp only [List.mem_append,not_or]
  exact ⟨⟨hlabel,hspaces pad hpad,hspelling,hspaces gap hgap,hoperand⟩,htail⟩

end Lines

/-- A well-formed record is listed on one line. -/
theorem Record.WellFormed.one_line {r : Record} (hr : r.WellFormed) : '\n' ∉ r.text := by
  cases hb : r.body with
  | comment text =>
    simp only [WellFormed,hb] at hr
    simpa [Record.text,Body.columns,Record.tail,hb] using hr.one_line
  | instruction m o =>
    simp only [WellFormed,hb] at hr
    exact hr.one_line hb

/-- A well-formed record is read back from its line. -/
theorem parse_text {r : Record} (hr : r.WellFormed) : Program.parse r.text = .ok [r.atLine 1] := by
  have hline := hr.one_line
  cases hb : r.body with
  | comment text =>
    simp only [Record.WellFormed,hb] at hr
    have htext : r.text = text := by
      simp [Record.text,Body.columns,Record.tail,hb]
    rw [htext] at hline ⊢
    have h := Reading.parse_comment hline hr.marked
    rw [trimEnd_eq_self hr.ends] at h
    rw [h,Record.atLine,hb,hr.label_eq,hr.remark_eq]
    rfl
  | instruction m o =>
    simp only [Record.WellFormed,hb] at hr
    obtain ⟨a,ha,hvisible⟩ := hr.exists_visible hb
    exact (Reading.parse_eq_ok_iff_written hline ha hvisible (hr.head?_text_ne_dot hb) _).2
      ⟨_,rfl,hr.written_text hb⟩

end SicXE
