import SicXE.Proofs.WellFormed
import SicXE.Text.Utf8

/-! # The grammar of lines

How the parts of a line are written, told apart from how they are read. Each relation is between a
text, what it stands for, and the text behind it: a word ends where no symbol character follows,
an omitted operand stands at the end of its line, and an operand without an index has no comma
behind it.
-/
namespace SicXE
open Text

/-- The letters that stand for a radix behind a zero. -/
def Text.radixMarks : List (Char × Nat) := [('b',2),('o',8),('x',16)]

/-- A numeral with its radix and its digits, which may be missing behind a mark. -/
inductive Text.Numeral : Text → Nat → Text → Prop where
  | decimal {ds : Text} : ds ≠ [] → (∀ a ∈ ds, a.isDigit) → Numeral ds 10 ds
  | marked {mark : Char} {radix : Nat} {ds : Text} : (mark,radix) ∈ radixMarks →
      (∀ a ∈ ds, isDigitOf radix a) → Numeral ('0' :: mark :: ds) radix ds

/-- A number between two bounds, written as a whole word. -/
inductive Text.NumberWritten (lo hi : Nat) : Text → Nat → Text → Prop where
  | intro {t ds u : Text} {radix : Nat} : Numeral t radix ds → ds ≠ [] → lo ≤ numeral radix ds →
      numeral radix ds ≤ hi → Stops isSymbolChar u → NumberWritten lo hi t (numeral radix ds) u

/-- A numeral starts with a decimal digit. -/
theorem Text.Numeral.head {t ds : Text} {radix : Nat} (h : Numeral t radix ds) :
    t.head?.any Char.isDigit := by
  cases h with
  | decimal hne hd =>
    obtain ⟨a,rest,rfl⟩ := List.exists_cons_of_ne_nil hne
    exact hd a List.mem_cons_self
  | marked => rfl

theorem Text.NumberWritten.head {lo hi n : Nat} {t u : Text} (h : NumberWritten lo hi t n u) :
    t.head?.any Char.isDigit := by
  cases h with
  | intro ht => exact ht.head

theorem Text.NumberWritten.head_append {lo hi n : Nat} {t u v : Text}
    (h : NumberWritten lo hi t n u) : (t ++ v).head?.any Char.isDigit := by
  obtain ⟨a,ha,hd⟩ := Option.any_eq_true .. |>.1 h.head
  rw [List.head?_append,ha]
  exact hd

theorem Text.NumberWritten.lo_le {lo hi n : Nat} {t u : Text} (h : NumberWritten lo hi t n u) :
    lo ≤ n := by
  cases h
  assumption

theorem Text.NumberWritten.le_hi {lo hi n : Nat} {t u : Text} (h : NumberWritten lo hi t n u) :
    n ≤ hi := by
  cases h
  assumption

inductive Value.Written (limit : Nat) : Text → Value → Text → Prop where
  | number {t u : Text} {n : Nat} : NumberWritten 0 limit t n u → Written limit t (.number n) u
  | symbol {t u : Text} : IsWord isSymbolStart t → Stops isSymbolChar u →
      Written limit t (.symbol ⟨t⟩) u
  | here {u : Text} : Written limit ['*'] .here u

/-- A value starts with a symbol character or is the star. -/
theorem Value.Written.head {limit : Nat} {t u : Text} {v : Value} (h : v.Written limit t u) :
    ∃ a rest, t = a :: rest ∧ (isSymbolChar a ∨ a = '*') := by
  cases h with
  | number hn =>
    obtain ⟨a,ha,hd⟩ := Option.any_eq_true .. |>.1 hn.head
    obtain ⟨rest,ht⟩ := List.head?_eq_some_iff.1 ha
    exact ⟨a,rest,ht,.inl (isSymbolChar_of_isDigit hd)⟩
  | symbol hs =>
    obtain ⟨a,ha,hf⟩ := Option.any_eq_true .. |>.1 hs.head
    obtain ⟨rest,ht⟩ := List.head?_eq_some_iff.1 ha
    exact ⟨a,rest,ht,.inl (isSymbolChar_of_isSymbolStart hf)⟩
  | here => exact ⟨'*',[],rfl,.inr rfl⟩

theorem Value.Written.head_ne {limit : Nat} {t u w : Text} {v : Value} (h : v.Written limit t u)
    {a : Char} (ha : isSymbolChar a = false) (hs : a ≠ '*') : (t ++ w).head? ≠ some a := by
  obtain ⟨b,rest,rfl,hb⟩ := h.head
  rintro ⟨⟩
  rcases hb with hb | hb
  · rw [hb] at ha
    cases ha
  · exact hs hb

theorem Value.Written.not_ended {limit : Nat} {t u w : Text} {v : Value}
    (h : v.Written limit t u) : ¬Ended (t ++ w) := by
  rintro (hend | hend)
  · obtain ⟨a,rest,rfl,_⟩ := h.head
    cases hend
  · exact h.head_ne (by decide) (by decide) hend

/-- Pairs of hexadecimal digits, the high one first, and the bytes they stand for. -/
inductive Text.HexPairs : Text → List UInt8 → Prop where
  | nil : HexPairs [] []
  | cons {a b : Char} {high low : Nat} {t : Text} {bytes : List UInt8} :
      digit? 16 a = some high → digit? 16 b = some low → HexPairs t bytes →
      HexPairs (a :: b :: t) (UInt8.ofNat (high * 16 + low) :: bytes)

theorem Text.HexPairs.digits {t : Text} {bytes : List UInt8} (h : HexPairs t bytes) :
    ∀ a ∈ t, isHexDigit a := by
  induction h with
  | nil => simp
  | cons ha hb _ ih =>
    intro a hmem
    rcases List.mem_cons.1 hmem with rfl | hmem
    · simp [isHexDigit,isDigitOf,ha]
    · rcases List.mem_cons.1 hmem with rfl | hmem
      · simp [isHexDigit,isDigitOf,hb]
      · exact ih a hmem

theorem Text.HexPairs.even {t : Text} {bytes : List UInt8} (h : HexPairs t bytes) :
    t.length % 2 = 0 := by
  induction h with
  | nil => rfl
  | cons _ _ _ ih =>
    simp only [List.length_cons]
    omega

theorem Text.hexBytes?_eq_some_iff {t : Text} {bytes : List UInt8} :
    hexBytes? t = some bytes ↔ HexPairs t bytes := by
  constructor
  · intro h
    fun_induction hexBytes? t generalizing bytes with
    | case1 =>
      cases h
      exact .nil
    | case2 => cases h
    | case3 a b rest ih =>
      cases ha : digit? 16 a with
      | none => simp [ha] at h
      | some high =>
        cases hb : digit? 16 b with
        | none => simp [ha,hb] at h
        | some low =>
          cases hr : hexBytes? rest with
          | none => simp [ha,hb,hr] at h
          | some bs =>
            simp only [ha,hb,hr] at h
            cases h
            exact .cons ha hb (ih hr)
  · intro h
    induction h with
    | nil => rfl
    | cons ha hb _ ih => simp [hexBytes?,ha,hb,ih]

/-- Bytes between quotes, as characters or as hexadecimal digits. -/
inductive Text.LiteralWritten : Text → List UInt8 → Prop where
  | characters {body : Text} : (∀ a ∈ body, a ≠ '\x27' ∧ a ≠ '\n') →
      LiteralWritten ('C' :: '\x27' :: (body ++ ['\x27'])) (Utf8.encode body)
  | digits {body : Text} {bytes : List UInt8} : HexPairs body bytes →
      LiteralWritten ('X' :: '\x27' :: (body ++ ['\x27'])) bytes

theorem Text.LiteralWritten.head_append {t u : Text} {bytes : List UInt8}
    (h : LiteralWritten t bytes) : (t ++ u).head?.any Char.isDigit = false := by
  cases h <;> rfl

/-- The three bytes of a number, the most significant one first. -/
def Text.wordBytes (n : Nat) : List UInt8 :=
  [UInt8.ofNat (n / 65536),UInt8.ofNat (n / 256),UInt8.ofNat n]

inductive Text.DataWritten : Text → List UInt8 → Text → Prop where
  | literal {t u : Text} {bytes : List UInt8} : LiteralWritten t bytes → DataWritten t bytes u
  | word {t u : Text} {n : Nat} : NumberWritten 0 16777215 t n u → DataWritten t (wordBytes n) u

/-- A text of blanks that is as long as it can be. -/
structure Text.Gap (t u : Text) : Prop where
  blank : ∀ a ∈ t, isBlank a
  stops : Stops isBlank u

/-- A comma with blanks on either side. -/
inductive Text.CommaWritten : Text → Text → Prop where
  | intro {before behind u : Text} : (∀ a ∈ before, isBlank a) → Gap behind u →
      CommaWritten (before ++ ',' :: behind) u

/-- The index of a memory operand, or the lack of it. -/
inductive Text.IndexWritten : Text → Bool → Text → Prop where
  | indexed {before between u : Text} : (∀ a ∈ before, isBlank a) → (∀ a ∈ between, isBlank a) →
      IndexWritten (before ++ ',' :: (between ++ ['X'])) true u
  | unindexed {gap u : Text} : Gap gap u → u.head? ≠ some ',' → IndexWritten gap false u

inductive Target.Written (mode : Addressing) (limit : Nat) : Text → Target → Text → Prop where
  | value {t u : Text} {v : Value} : v.Written limit t u → Written mode limit t (.value v) u
  | literal {t u : Text} {bytes : List UInt8} : mode = .simple → DataWritten t bytes u →
      Written mode limit ('=' :: t) (.literal bytes) u

theorem Target.Written.head_ne {mode : Addressing} {limit : Nat} {t u w : Text} {target : Target}
    (h : target.Written mode limit t u) {a : Char} (ha : isSymbolChar a = false) (hs : a ≠ '*')
    (he : a ≠ '=') : (t ++ w).head? ≠ some a := by
  cases h with
  | value hv => exact hv.head_ne ha hs
  | literal =>
    rintro ⟨⟩
    exact he rfl

/-- The mark of the addressing mode, what is addressed, and the index. -/
structure MemoryOperand.Written (extended : Bool) (t : Text) (m : MemoryOperand) (u : Text) :
    Prop where
  extended_eq : m.extended = extended
  parts : ∃ body index : Text, t = m.addressing.mark ++ (body ++ index) ∧
    m.target.Written m.addressing m.numberLimit body (index ++ u) ∧
    IndexWritten index m.indexed u

/-- The operand texts of each shape. A number that is to be a byte keeps its low byte only. -/
def Operand.Written : Shape → Text → Operand → Text → Prop
  | .directive | .format1 | .format3 => fun t o _ => t = [] ∧ o = .none
  | .directiveOperand limit => fun t o u => ∃ v, o = .value v ∧ v.Written limit t u
  | .directiveOptional limit => fun t o u =>
    (t = [] ∧ o = .optionalValue .none ∧ Ended u) ∨
      ∃ v, o = .optionalValue (some v) ∧ v.Written limit t u
  | .storageReserve => fun t o u => ∃ n, o = .count n ∧ NumberWritten 0 1048575 t n u
  | .storageByte => fun t o u =>
    (∃ bytes, o = .data bytes ∧ LiteralWritten t bytes) ∨
      ∃ n, o = .data [UInt8.ofNat n] ∧ NumberWritten 0 16777215 t n u
  | .storageWord => fun t o u => ∃ bytes, o = .data bytes ∧ DataWritten t bytes u
  | .format2Number => fun t o u => ∃ n, o = .number n ∧ NumberWritten 0 15 t n u
  | .format2Register => fun t o _ => ∃ r ∈ Register.operands, o = .register r ∧ t = r.name
  | .format2RegisterNumber => fun t o u => ∃ r ∈ Register.operands, ∃ comma number n,
    o = .registerNumber r n ∧ t = r.name ++ (comma ++ number) ∧
      CommaWritten comma (number ++ u) ∧ NumberWritten 1 16 number n u
  | .format2RegisterPair => fun t o u => ∃ first ∈ Register.operands, ∃ second ∈ Register.operands,
    ∃ comma, o = .registerPair first second ∧ t = first.name ++ (comma ++ second.name) ∧
      CommaWritten comma (second.name ++ u)
  | .format3Memory => fun t o u => ∃ m, o = .memory m ∧ m.Written false t u
  | .format4Memory => fun t o u => ∃ m, o = .memory m ∧ m.Written true t u

/-- A label is the word that a line starts with, if it starts with a letter. -/
inductive Text.LabelWritten : Text → Option Symbol → Text → Prop where
  | label {t u : Text} : IsWord isAlphabetic t → Stops isSymbolChar u → LabelWritten t (some ⟨t⟩) u
  | unlabelled {u : Text} : Stops isAlphabetic u → LabelWritten [] none u

/-- A spelling is a word, perhaps with a plus sign before it, that the registry knows. -/
structure Mnemonic.Written (t : Text) (m : Mnemonic) (u : Text) : Prop where
  registered : Registry.ofSpelling? t = some m
  spelled : ∃ word, (t = word ∨ t = '+' :: word) ∧ ∀ a ∈ word, isSymbolChar a
  stops : Stops isSymbolChar u

theorem Mnemonic.Written.registered_spelling {t u : Text} {m : Mnemonic} (h : m.Written t u) :
    Registry.ofSpelling? m.spelling = some m := by
  rw [(Registry.mem_all_of_ofSpelling? h.registered).2]
  exact h.registered

/-- What is left of a line behind an operand: nothing but whitespace, or a remark that starts and
ends visibly, with whitespace on either side of it. -/
def Text.RemarkWritten (t : Text) : Option Text → Prop
  | none => ∀ a ∈ t, isWhitespace a
  | some r => (r ≠ [] ∧ Stops isWhitespace r ∧ Stops isWhitespace r.reverse) ∧
    ∃ before behind, t = before ++ (r ++ behind) ∧ (∀ a ∈ before, isWhitespace a) ∧
      ∀ a ∈ behind, isWhitespace a

/-- Trimming finds the remark. -/
theorem Text.remarkWritten_iff {t : Text} {r : Option Text} :
    RemarkWritten t r ↔ r = if (trim t).isEmpty then none else some (trim t) := by
  constructor
  · intro h
    cases r with
    | none =>
      rw [trim_blank h]
      rfl
    | some r =>
      obtain ⟨⟨hne,hs,he⟩,before,behind,rfl,hbefore,hbehind⟩ := h
      rw [trim_between hbefore hne hs he hbehind,if_neg (by simpa using hne)]
  · rintro rfl
    obtain ⟨before,behind,ht,hbefore,hbehind⟩ := exists_trim_append t
    split
    case isTrue h =>
      rw [List.isEmpty_iff.1 h] at ht
      intro a ha
      rw [ht] at ha
      exact (List.mem_append.1 ha).elim (hbefore a) (hbehind a)
    case isFalse h =>
      exact ⟨⟨by simpa using h,stops_trim t,stops_reverse_trimEnd _⟩,before,behind,ht,hbefore,
        hbehind⟩

theorem Text.exists_remarkWritten (t : Text) : ∃ r, RemarkWritten t r :=
  ⟨_,remarkWritten_iff.2 rfl⟩

/-- Where a text starts visibly, its remark starts there. -/
theorem Text.RemarkWritten.head?_eq {t r : Text} (h : RemarkWritten t (some r))
    (ht : Stops isWhitespace t) : r.head? = t.head? := by
  obtain ⟨⟨hne,_,_⟩,before,behind,rfl,hbefore,_⟩ := h
  obtain ⟨a,r,rfl⟩ := List.exists_cons_of_ne_nil hne
  cases before with
  | nil => rfl
  | cons b before =>
    have hb := hbefore b List.mem_cons_self
    rw [stops_cons.1 ht] at hb
    cases hb

/-- A line that is neither blank nor a comment: a label, a mnemonic, an operand and a remark, with
blanks between them wherever there are any. -/
inductive Record.Written (line : Text) : Record → Prop where
  | intro {label gap₁ spelling gap₂ operand rest : Text} {l : Option Symbol} {m : Mnemonic}
      {o : Operand} {remark : Option Text} : line = label ++ (gap₁ ++ (spelling ++ (gap₂ ++ (operand ++ rest)))) →
      LabelWritten label l (gap₁ ++ (spelling ++ (gap₂ ++ (operand ++ rest)))) →
      Gap gap₁ (spelling ++ (gap₂ ++ (operand ++ rest))) →
      m.Written spelling (gap₂ ++ (operand ++ rest)) →
      Gap gap₂ (operand ++ rest) →
      o.Written m.shape operand rest →
      RemarkWritten rest remark →
      Written line ⟨.start,l,.instruction m o,remark⟩

/-- What stands up to the mnemonic: a label, a gap and the mnemonic itself. -/
structure Mnemonic.Before (label gap spelling : Text) (s : Option Symbol) (m : Mnemonic)
    (u : Text) : Prop where
  label_written : LabelWritten label s (gap ++ (spelling ++ u))
  gap_stops : Gap gap (spelling ++ u)
  spelling_written : m.Written spelling u

/-- A mnemonic behind the text that its line starts with, which is a label and a gap. -/
def Mnemonic.Placed (before spelling : Text) (s : Option Symbol) (m : Mnemonic) (u : Text) : Prop :=
  ∃ label gap, before = label ++ gap ∧ Mnemonic.Before label gap spelling s m u

theorem Mnemonic.Placed.written {before spelling u : Text} {s : Option Symbol} {m : Mnemonic}
    (h : m.Placed before spelling s u) : m.Written spelling u := by
  obtain ⟨_,_,_,h⟩ := h
  exact h.spelling_written

/-- What stands behind a mnemonic: a gap, an operand and a remark. -/
def Operand.Behind (shape : Shape) (o : Operand) (remark : Option Text) (t : Text) : Prop :=
  ∃ gap operand rest, t = gap ++ (operand ++ rest) ∧ Gap gap (operand ++ rest) ∧
    o.Written shape operand rest ∧ RemarkWritten rest remark

/-- A line falls apart at the end of its mnemonic. -/
theorem Record.written_iff {l : Text} {r : Record} : Record.Written l r ↔ ∃ label gap spelling u s m o remark,
    l = label ++ (gap ++ (spelling ++ u)) ∧ Mnemonic.Before label gap spelling s m u ∧
      o.Behind m.shape remark u ∧ r = ⟨.start,s,.instruction m o,remark⟩ := by
  constructor
  · rintro ⟨hline,hlabel,hgap₁,hm,hgap₂,ho,hremark⟩
    exact ⟨_,_,_,_,_,_,_,_,hline,⟨hlabel,hgap₁,hm⟩,⟨_,_,_,rfl,hgap₂,ho,hremark⟩,rfl⟩
  · rintro ⟨label,gap,spelling,_,s,m,o,_,hline,⟨hlabel,hgap₁,hm⟩,
      ⟨gap₂,operand,rest,rfl,hgap₂,ho,hremark⟩,rfl⟩
    exact ⟨hline,hlabel,hgap₁,hm,hgap₂,ho,hremark⟩

end SicXE
