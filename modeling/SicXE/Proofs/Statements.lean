import SicXE.Proofs.LineGrammar
import SicXE.Proofs.TrailingBlanks

/-! # Lines up to their mnemonic

What stands before the mnemonic of a line is told without a look at the operand, and the text behind
it is left to the scan of the operand: the line is accepted where that succeeds and has its fault
where that fails. So two lines are compared by what stands behind their mnemonics.
-/
namespace SicXE
open Text

variable {before spelling gap t u v : Text} {s : Option Symbol} {m : Mnemonic}

theorem Text.exists_gap (u : Text) : ∃ gap t, u = gap ++ t ∧ Gap gap t :=
  ⟨u.takeWhile isBlank,u.dropWhile isBlank,List.takeWhile_append_dropWhile.symm,
    ⟨fun _ ha => List.mem_takeWhile_imp ha,stops_dropWhile⟩⟩

theorem Text.gap_space (h : Stops isBlank u) : Gap [' '] u :=
  ⟨List.all_eq_true.1 (by decide),h⟩

/-- Behind a text that is there in both cases, only an empty one makes a difference. -/
theorem Text.Stops.replace {p : Char → Bool} (h : Stops p (t ++ u)) (hv : Stops p v) :
    Stops p (t ++ v) := by
  cases t with
  | nil => exact hv
  | cons a t => exact h

/-- The first character alone tells where a run before a text ends. -/
theorem Text.Stops.behind {p : Char → Bool} (h : Stops p (t ++ u)) (ht : t ≠ []) :
    Stops p (t ++ v) := h.of_append.append ht

theorem Text.IsWord.stops_isBlank {first : Char → Bool} (h : IsWord first t) :
    Stops isBlank (t ++ u) := by
  obtain ⟨a,ha,_⟩ := Option.any_eq_true .. |>.1 h.head
  obtain ⟨rest,rfl⟩ := List.head?_eq_some_iff.1 ha
  exact stops_cons.2 (isBlank_of_isSymbolChar (h.symbolic a List.mem_cons_self))

theorem Text.LabelWritten.behind {label : Text} (h : LabelWritten label s (t ++ u)) (ht : t ≠ []) :
    LabelWritten label s (t ++ v) := by
  cases h with
  | label hw hu => exact .label hw (hu.behind ht)
  | unlabelled hu => exact .unlabelled (hu.behind ht)

/-- Before a character of no symbol a label ends, as it does before a gap. -/
theorem Text.LabelWritten.replace {label : Text} {a : Char}
    (h : LabelWritten label s (gap ++ u)) (ha : isSymbolChar a = false) :
    LabelWritten label s (gap ++ a :: v) := by
  have halpha : isAlphabetic a = false :=
    eq_false_of_ne_true (mt isSymbolChar_of_isAlphabetic (ne_true_of_eq_false ha))
  cases h with
  | label ht hu => exact .label ht (hu.replace (stops_cons.2 ha))
  | unlabelled hu => exact .unlabelled (hu.replace (stops_cons.2 halpha))

/-- Of what stands behind it, only the first character tells where a mnemonic ends. -/
theorem Mnemonic.Placed.behind (h : m.Placed before spelling s (t ++ u)) (ht : t ≠ []) :
    m.Placed before spelling s (t ++ v) := by
  obtain ⟨label,gap,rfl,hlabel,hgap,hm⟩ := h
  have hne : spelling ≠ [] := hm.visible.1
  refine ⟨label,gap,rfl,?_,⟨hgap.blank,hgap.stops.behind hne⟩,hm.registered,hm.spelled,
    hm.stops.behind ht⟩
  rw [← List.append_assoc] at hlabel ⊢
  exact hlabel.behind (by simp [hne])

/-- A mnemonic between two spaces. -/
theorem Mnemonic.placed_spaced (hm : Registry.ofSpelling? spelling = some m)
    (hw : IsWord isAlphabetic spelling) : m.Placed [' '] spelling none (' ' :: u) :=
  ⟨[],[' '],rfl,.unlabelled (stops_cons.2 (by decide)),gap_space hw.stops_isBlank,hm,
    ⟨spelling,.inl rfl,hw.symbolic⟩,stops_cons.2 (by decide)⟩

namespace Reading
open Scan

variable {o : Operand}

section Lines
variable {e : Diagnostic} {d : Cursor} {p : Program} (h : m.Placed before spelling s (gap ++ t))
  (hg : Gap gap t) (hl : '\n' ∉ before ++ (spelling ++ (gap ++ t)))
include h hg hl

theorem parse_placed_of_ok {remark : Option Text}
    (ho : (operand m.shape).run ⟨t,Position.start.past (before ++ (spelling ++ gap))⟩ = .ok o d)
    (hremark : RemarkWritten d.rest remark) :
    Program.parse (before ++ (spelling ++ (gap ++ t))) =
      .ok [⟨.start,s,.instruction m o,remark⟩] := by
  obtain ⟨operand,ht,hw⟩ := (accepts_operand h.written.limit_lt).gives ho
  have ht : t = operand ++ d.rest := ht
  have hbehind : o.Behind m.shape remark (gap ++ t) :=
    ⟨gap,operand,d.rest,by rw [ht],ht ▸ hg,hw,hremark⟩
  obtain ⟨a,ha,_⟩ := h.visible.1
  obtain ⟨label,gap₁,rfl,hbefore⟩ := h
  have hwritten : Record.Written (label ++ gap₁ ++ (spelling ++ (gap ++ t)))
      ⟨.start,s,.instruction m o,remark⟩ :=
    Record.written_iff.2 ⟨_,_,_,_,_,_,_,_,List.append_assoc _ _ _,hbefore,hbehind,rfl⟩
  exact parse_of_run_line hl (List.ne_nil_of_mem ha) (run_line_of_written hl hwritten)

/-- A line has the fault of its operand. -/
theorem parse_placed_of_error
    (ho : (operand m.shape).run ⟨t,Position.start.past (before ++ (spelling ++ gap))⟩ =
      .error e d) :
    Program.parse (before ++ (spelling ++ (gap ++ t))) = .error e := by
  obtain ⟨a,ha,_⟩ := h.visible.1
  rw [parse_alone (List.ne_nil_of_mem ha) (Cursor.rest_dropTo_last hl _),run_line_placed h hg,
    EStateM.run_bind,ho]
  rfl

/-- A line is accepted exactly where an operand of the shape is written behind its mnemonic. -/
theorem parse_placed_iff : Program.parse (before ++ (spelling ++ (gap ++ t))) = .ok p ↔
    ∃ o operand rest remark, t = operand ++ rest ∧ o.Written m.shape operand rest ∧
      RemarkWritten rest remark ∧ p = [⟨.start,s,.instruction m o,remark⟩] := by
  constructor
  · intro hp
    cases ho : (operand m.shape).run ⟨t,Position.start.past (before ++ (spelling ++ gap))⟩ with
    | error e d =>
      rw [parse_placed_of_error h hg hl ho] at hp
      cases hp
    | ok o d =>
      obtain ⟨remark,hremark⟩ := exists_remarkWritten d.rest
      rw [parse_placed_of_ok h hg hl ho hremark] at hp
      cases hp
      obtain ⟨operand,ht,hw⟩ := (accepts_operand h.written.limit_lt).gives ho
      exact ⟨o,operand,d.rest,remark,ht,hw,hremark,rfl⟩
  · rintro ⟨o,operand,rest,remark,rfl,hw,hremark,rfl⟩
    exact parse_placed_of_ok h hg hl (((accepts_operand h.written.limit_lt).reads hw).run _) hremark

end Lines

/-- Behind an operand that ends there whatever follows, any remark may stand. -/
theorem parse_placed_behind {remark : Option Text}
    (h : m.Placed before spelling s (gap ++ (t ++ u)))
    (hg : Gap gap (t ++ u)) (ht : t ≠ []) (hw : o.Written m.shape t v)
    (hremark : RemarkWritten v remark)
    (hl : '\n' ∉ before ++ (spelling ++ (gap ++ (t ++ v)))) :
    Program.parse (before ++ (spelling ++ (gap ++ (t ++ v)))) =
      .ok [⟨.start,s,.instruction m o,remark⟩] := by
  have hne : gap ++ t ≠ [] := List.append_ne_nil_of_right_ne_nil gap ht
  rw [← List.append_assoc gap] at h
  have hm : m.Placed before spelling s (gap ++ (t ++ v)) :=
    List.append_assoc gap t v ▸ h.behind hne
  exact (parse_placed_iff hm ⟨hg.blank,hg.stops.behind ht⟩ hl).2 ⟨o,t,v,remark,rfl,hw,hremark,rfl⟩

/-- An accepted instruction has a mnemonic that stands in its line. -/
theorem exists_placed {l : Text} {location : Position} {remark : Option Text} (hl : '\n' ∉ l)
    (h : Program.parse l = .ok [⟨location,s,.instruction m o,remark⟩]) :
    ∃ before spelling u, l = before ++ (spelling ++ u) ∧ m.Placed before spelling s u := by
  obtain ⟨a,ha,hvisible⟩ : ∃ a ∈ l, isWhitespace a = false := by
    cases hall : l.all isWhitespace with
    | true =>
      rw [parse_blank hl (List.all_eq_true.1 hall)] at h
      cases h
    | false =>
      obtain ⟨a,ha,hvisible⟩ := List.all_eq_false.1 hall
      exact ⟨a,ha,by simpa using hvisible⟩
  have hdot : l.head? ≠ some '.' := by
    intro hdot
    rw [parse_comment hl hdot] at h
    cases h
  obtain ⟨r,hr,hw⟩ := (parse_eq_ok_iff_written hl ha hvisible hdot _).1 h
  obtain ⟨label,gap,spelling,u,_,_,_,_,hline,hbefore,_,rfl⟩ := Record.written_iff.1 hw
  cases hr
  exact ⟨label ++ gap,spelling,u,by rw [hline,List.append_assoc],label,gap,rfl,hbefore⟩

end Reading
/-- What is parsed around a mnemonic of the registry, where both can be evaluated. -/
theorem Program.exists_mnemonic (source spelling : Text) (shape : Shape) {f : Mnemonic → Program}
    (hm : (Registry.ofSpelling? spelling).map Mnemonic.shape = some shape)
    (h : (Program.parse source).toOption = (Registry.ofSpelling? spelling).map f) :
    ∃ m, Registry.ofSpelling? spelling = some m ∧ m.shape = shape ∧
      Program.parse source = .ok (f m) := by
  obtain ⟨m,hfound,hshape⟩ := Option.map_eq_some_iff.1 hm
  rw [hfound] at h
  obtain ⟨_,hp,rfl⟩ := Program.exists_of_parse (f := id) (by rw [h]; rfl)
  exact ⟨m,hfound,hshape,hp⟩

end SicXE
