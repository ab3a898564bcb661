import SicXE.Proofs.Grammar
import SicXE.Proofs.Numerals

/-! # The texts of operands

The text of an operand that fits its shape contains no whitespace, and the grammar of the shape has
it for the same operand. The blanks behind it are the delicate part: a memory operand without an
index takes them for the search for one, and all other operands leave them.
-/
namespace SicXE
open Text

section Visible

theorem visible_decimal (n : Nat) : ∀ a ∈ decimal n, isWhitespace a = false := fun _ ha =>
  isWhitespace_of_isSymbolChar (isSymbolChar_of_isDigit (isDigit_of_mem_decimal ha))

theorem Value.visible_text {limit : Nat} {v : Value} (hv : v.Fits limit) :
    ∀ a ∈ v.text, isWhitespace a = false := by
  intro a ha
  cases v with
  | number n => exact visible_decimal n a ha
  | symbol s => exact isWhitespace_of_isSymbolChar (hv.symbolic a ha)
  | here =>
    rw [List.mem_singleton.1 ha]
    decide

theorem visible_hexLiteral (bytes : List UInt8) :
    ∀ a ∈ hexLiteral bytes, isWhitespace a = false := by
  intro a ha
  simp only [hexLiteral,List.cons_append,List.mem_cons,List.mem_append,List.not_mem_nil,
    or_false] at ha
  rcases ha with rfl | rfl | ha | rfl
  · decide
  · decide
  · exact isWhitespace_of_isSymbolChar (isSymbolChar_of_isDigitOf (isHexDigit_of_mem_hexBytes ha))
  · decide

theorem Register.visible_name (r : Register) : ∀ a ∈ r.name, isWhitespace a = false := by
  apply visible_of_all
  cases r <;> decide

theorem Register.name_ne_nil (r : Register) : r.name ≠ [] := by
  cases r <;> decide

theorem Target.visible_text {mode : Addressing} {limit : Nat} {t : Target}
    (ht : t.Fits mode limit) : ∀ a ∈ t.text, isWhitespace a = false := by
  cases t with
  | value v => exact Value.visible_text ht
  | literal bytes =>
    intro a ha
    rcases List.mem_cons.1 ha with rfl | ha
    · decide
    · exact visible_hexLiteral bytes a ha

theorem MemoryOperand.visible_text {extended : Bool} {m : MemoryOperand} (hm : m.Fits extended) :
    ∀ a ∈ m.text, isWhitespace a = false := by
  intro a ha
  simp only [MemoryOperand.text,List.mem_append] at ha
  rcases ha with (ha | ha) | ha
  · refine visible_of_all ?_ a ha
    cases m.addressing <;> decide
  · exact Target.visible_text hm.target_fits a ha
  · refine visible_of_all ?_ a ha
    cases m.indexed <;> decide

theorem Operand.visible_text {shape : Shape} {o : Operand} (ho : o.Fits shape) :
    ∀ a ∈ o.text, isWhitespace a = false := by
  cases ho with
  | directive | format1 | format3 | omitted => simp [Operand.text]
  | directiveOperand hv | directiveOptional hv => exact Value.visible_text hv
  | storageReserve | format2Number => exact visible_decimal _
  | storageByte | storageWord => exact visible_hexLiteral _
  | @format2Register r => exact r.visible_name
  | @format2RegisterNumber r n =>
    intro a ha
    rcases List.mem_append.1 ha with ha | ha
    · exact r.visible_name a ha
    · rcases List.mem_cons.1 ha with rfl | ha
      · decide
      · exact visible_decimal n a ha
  | @format2RegisterPair first second =>
    intro a ha
    rcases List.mem_append.1 ha with ha | ha
    · exact first.visible_name a ha
    · rcases List.mem_cons.1 ha with rfl | ha
      · decide
      · exact second.visible_name a ha
  | format3Memory hm | format4Memory hm => exact MemoryOperand.visible_text hm

end Visible

section Written
variable {t u b : Text} {lo hi limit n : Nat}

theorem Text.numberWritten_decimal (hlo : lo ≤ n) (hhi : n ≤ hi) (hu : Stops isSymbolChar u) :
    NumberWritten lo hi (decimal n) n u := by
  have hne := decimal_ne_nil n
  have ht : Numeral (decimal n) 10 (decimal n) := .decimal hne fun _ => isDigit_of_mem_decimal
  have hv := numeral_decimal n
  have hw : NumberWritten lo hi (decimal n) (numeral 10 (decimal n)) u :=
    .intro ht hne (by rwa [hv]) (by rwa [hv]) hu
  rwa [hv] at hw

theorem Value.written_text {v : Value} (hv : v.Fits limit) (hu : Stops isSymbolChar u) :
    v.Written limit v.text u := by
  cases v with
  | number n => exact .number (numberWritten_decimal (Nat.zero_le n) hv hu)
  | symbol s => exact .symbol hv hu
  | here => exact .here

theorem Text.literalWritten_hexLiteral (bytes : List UInt8) :
    LiteralWritten (hexLiteral bytes) bytes :=
  .digits (hexBytes?_eq_some_iff.1 (hexBytes?_hexBytes bytes))

theorem Target.written_text {mode : Addressing} {target : Target} (ht : target.Fits mode limit)
    (hu : Stops isSymbolChar u) : target.Written mode limit target.text u := by
  cases target with
  | value v => exact .value (Value.written_text ht hu)
  | literal bytes => exact .literal ht (.literal (literalWritten_hexLiteral bytes))

theorem Target.text_ne_nil {mode : Addressing} {target : Target} (ht : target.Fits mode limit) :
    target.text ≠ [] := by
  cases target with
  | value v =>
    obtain ⟨a,rest,ha,_⟩ := (Value.written_text ht stops_nil).head
    simp [Target.text,ha]
  | literal bytes => simp [Target.text]

/-- Only an operand that is not there has no text. -/
theorem Operand.eq_of_text_eq_nil {shape : Shape} {o : Operand} (ho : o.Fits shape)
    (ht : o.text = []) : o = .none ∨ o = .optionalValue .none := by
  cases ho with
  | directive | format1 | format3 => exact .inl rfl
  | omitted => exact .inr rfl
  | directiveOperand hv | directiveOptional hv =>
    obtain ⟨a,rest,ha,_⟩ := (Value.written_text hv stops_nil).head
    cases ha.symm.trans ht
  | storageReserve | format2Number => exact absurd ht (decimal_ne_nil _)
  | storageByte | storageWord => cases ht
  | @format2Register r =>
    cases r <;> cases ht
  | format2RegisterNumber | format2RegisterPair => cases (List.append_eq_nil_iff.1 ht).2
  | format3Memory hm | format4Memory hm =>
    have hmark := (List.append_eq_nil_iff.1 ht).1
    exact absurd (List.append_eq_nil_iff.1 hmark).2 (Target.text_ne_nil hm.target_fits)

/-- What may follow an operand on its line: blanks, and then a text that cannot be taken for a
continuation of the operand. -/
structure Operand.Follows (o : Operand) (b u : Text) : Prop where
  blank : ∀ a ∈ b, isBlank a
  stops : Stops isBlank u
  word_ends : Stops isSymbolChar (b ++ u)
  omitted : o = .optionalValue Option.none → Ended u
  unindexed : ∀ m, o = .memory m → m.indexed = false → u.head? ≠ some ','

/-- The comma between two parts, with nothing around it. -/
theorem Text.commaWritten_singleton (hu : Stops isBlank u) : CommaWritten [','] u := by
  have hnil : ∀ a ∈ ([] : Text), isBlank a := nofun
  exact .intro hnil ⟨hnil,hu⟩

/-- The index of a memory operand; where there is none, the blanks that follow belong to it. -/
theorem MemoryOperand.exists_index {m : MemoryOperand} (hf : Operand.Follows (.memory m) b u) :
    ∃ b₁ b₂, b = b₁ ++ b₂ ∧
      Stops isSymbolChar ((if m.indexed then [',','X'] else []) ++ b₁ ++ (b₂ ++ u)) ∧
      IndexWritten ((if m.indexed then [',','X'] else []) ++ b₁) m.indexed (b₂ ++ u) := by
  cases hi : m.indexed with
  | true =>
    have hnil : ∀ a ∈ ([] : Text), isBlank a := nofun
    exact ⟨[],b,rfl,stops_cons.2 (by decide),.indexed hnil hnil⟩
  | false =>
    refine ⟨b,[],(List.append_nil b).symm,hf.word_ends,?_⟩
    exact .unindexed ⟨hf.blank,hf.stops⟩ (hf.unindexed m rfl hi)

theorem MemoryOperand.exists_written {extended : Bool} {m : MemoryOperand} (hm : m.Fits extended)
    (hf : Operand.Follows (.memory m) b u) :
    ∃ b₁ b₂, b = b₁ ++ b₂ ∧ m.Written extended (m.text ++ b₁) (b₂ ++ u) := by
  obtain ⟨b₁,b₂,hb,hword,hindex⟩ := exists_index hf
  refine ⟨b₁,b₂,hb,hm.extended_eq,m.target.text,_,?_,Target.written_text hm.target_fits hword,
    hindex⟩
  simp only [MemoryOperand.text,List.append_assoc]

/-- An operand that leaves the blanks behind it. -/
theorem Operand.Written.leaving_blanks {shape : Shape} {o : Operand}
    (h : o.Written shape t (b ++ u)) :
    ∃ b₁ b₂, b = b₁ ++ b₂ ∧ o.Written shape (t ++ b₁) (b₂ ++ u) :=
  ⟨[],b,rfl,by rwa [List.append_nil]⟩

/-- An operand without a text is written as nothing, if it may be omitted there. -/
theorem Operand.written_empty {shape : Shape} {o : Operand} (ho : o.Fits shape) (ht : o.text = [])
    (hf : o.Follows b u) : o.Written shape [] u := by
  rcases Operand.eq_of_text_eq_nil ho ht with rfl | rfl
  · cases ho <;> exact ⟨rfl,rfl⟩
  · cases ho
    exact .inl ⟨rfl,rfl,hf.omitted rfl⟩

/-- The text of a fitting operand is written for the operand, together with those of the blanks
behind it that belong to the search for an index. -/
theorem Operand.exists_written {shape : Shape} {o : Operand} (ho : o.Fits shape)
    (hf : o.Follows b u) (ht : o.text ≠ []) :
    ∃ b₁ b₂, b = b₁ ++ b₂ ∧ o.Written shape (o.text ++ b₁) (b₂ ++ u) := by
  have hword := hf.word_ends
  cases ho with
  | directive | format1 | format3 | omitted => exact absurd rfl ht
  | directiveOperand hv => exact Written.leaving_blanks ⟨_,rfl,Value.written_text hv hword⟩
  | directiveOptional hv =>
    exact Written.leaving_blanks (.inr ⟨_,rfl,Value.written_text hv hword⟩)
  | storageReserve hn | format2Number hn =>
    exact Written.leaving_blanks ⟨_,rfl,numberWritten_decimal (Nat.zero_le _) hn hword⟩
  | storageByte => exact Written.leaving_blanks (.inl ⟨_,rfl,literalWritten_hexLiteral _⟩)
  | storageWord => exact Written.leaving_blanks ⟨_,rfl,.literal (literalWritten_hexLiteral _)⟩
  | format2Register hr => exact Written.leaving_blanks ⟨_,hr,rfl,rfl⟩
  | @format2RegisterNumber r n hr hlo hhi =>
    have hn := numberWritten_decimal hlo hhi hword
    have hstops : Stops isBlank (decimal n ++ (b ++ u)) := (stops_isBlank
      (stops_of_forall (visible_decimal n))).append (decimal_ne_nil n)
    exact Written.leaving_blanks
      ⟨r,hr,[','],decimal n,n,rfl,rfl,commaWritten_singleton hstops,hn⟩
  | @format2RegisterPair first second hr hs =>
    have hstops : Stops isBlank (second.name ++ (b ++ u)) := (stops_isBlank
      (stops_of_forall second.visible_name)).append second.name_ne_nil
    exact Written.leaving_blanks
      ⟨first,hr,second,hs,[','],rfl,rfl,commaWritten_singleton hstops⟩
  | @format3Memory m hm | @format4Memory m hm =>
    obtain ⟨b₁,b₂,hb,hw⟩ := MemoryOperand.exists_written hm hf
    exact ⟨b₁,b₂,hb,m,rfl,hw⟩

end Written

end SicXE
