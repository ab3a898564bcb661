import SicXE.Proofs.OperandRecovery
import SicXE.Proofs.Words

/-! # Blanks at the end of a line

A blank behind a line changes nothing that the line is written for. It becomes a part of the
remark, of the blanks that are skipped in search of an index, or of those behind a mnemonic that
has no operand. Nothing else ends with a blank, and no word is continued by one.
-/
namespace SicXE
open Text

variable {t u : Text} {b : Char}

section Ends
variable {p : Char → Bool}

theorem Text.Stops.of_append {w : Text} (h : Stops p (u ++ w)) : Stops p u := by
  cases u with
  | nil => exact stops_nil
  | cons a u => exact h

theorem Text.Stops.concat (h : Stops p u) (hb : p b = false) : Stops p (u ++ [b]) := by
  cases u with
  | nil => exact stops_cons.2 hb
  | cons a u => exact h

/-- A text that ends visibly does not end with a blank. -/
theorem Text.not_ends_concat (hb : isBlank b) : ¬Stops isBlank (t ++ [b]).reverse := by
  rw [List.reverse_append]
  intro h
  have hfalse : isBlank b = false := stops_cons.1 h
  rw [hb] at hfalse
  cases hfalse

/-- The last character of a text is that of its second part, if there is one. -/
theorem Text.exists_of_concat_eq {w : Text} (h : t ++ [b] = w ++ u) :
    u = [] ∨ ∃ v, u = v ++ [b] ∧ t = w ++ v := by
  rcases List.eq_nil_or_concat u with rfl | ⟨v,a,rfl⟩
  · exact .inl rfl
  · rw [List.concat_eq_append] at h ⊢
    rw [← List.append_assoc] at h
    obtain ⟨ht,hba⟩ := List.append_inj' h rfl
    exact .inr ⟨v,by rw [hba],ht⟩

theorem Text.isSymbolChar_of_isBlank (hb : isBlank b) : isSymbolChar b = false :=
  isSymbolChar_of_isWhitespace (isWhitespace_of_isBlank hb)

/-- A blank is in no class of characters that belong to symbols. -/
theorem Text.eq_false_of_isBlank {p : Char → Bool} (hp : p b → isSymbolChar b) (hb : isBlank b) :
    p b = false := by
  cases h : p b with
  | false => rfl
  | true =>
    have hsym := isSymbolChar_of_isBlank hb
    rw [hp h] at hsym
    cases hsym

theorem Text.isAlphabetic_of_isBlank (hb : isBlank b) : isAlphabetic b = false :=
  eq_false_of_isBlank isSymbolChar_of_isAlphabetic hb

theorem Text.isDigit_of_isBlank (hb : isBlank b) : b.isDigit = false :=
  eq_false_of_isBlank isSymbolChar_of_isDigit hb

/-- Characters that mean something are no blanks. -/
theorem Text.ne_of_isBlank {a : Char} (hb : isBlank b) (ha : isBlank a = false) : a ≠ b := by
  rintro rfl
  rw [ha] at hb
  cases hb

theorem Text.Gap.of_append {w : Text} (h : Gap t (u ++ w)) : Gap t u := ⟨h.blank,h.stops.of_append⟩

theorem Text.Gap.append {w : Text} (h : Gap t u) (hne : u ≠ []) : Gap t (u ++ w) :=
  ⟨h.blank,h.stops.append hne⟩

theorem Text.Numeral.symbolic {ds : Text} {radix : Nat} (h : Numeral t radix ds) :
    ∀ a ∈ t, isSymbolChar a := by
  cases h with
  | decimal _ hd => exact fun a ha => isSymbolChar_of_isDigit (hd a ha)
  | @marked mark _ _ hm hd =>
    have hmark : isSymbolChar mark := by
      simp only [radixMarks,List.mem_cons,Prod.mk.injEq,List.not_mem_nil,or_false] at hm
      rcases hm with ⟨rfl,_⟩ | ⟨rfl,_⟩ | ⟨rfl,_⟩ <;> decide
    intro a ha
    rcases List.mem_cons.1 ha with rfl | ha
    · decide
    · rcases List.mem_cons.1 ha with rfl | ha
      · exact hmark
      · exact isSymbolChar_of_isDigitOf (hd a ha)

theorem Text.stops_reverse_of_symbolic (h : ∀ a ∈ t, isSymbolChar a) : Stops isBlank t.reverse :=
  stops_reverse_of_forall fun a ha => isBlank_of_isSymbolChar (h a ha)

end Ends

section Numbers
variable {lo hi limit n : Nat} {v : Value}

theorem Text.NumberWritten.concat_iff (hb : isBlank b) :
    NumberWritten lo hi t n (u ++ [b]) ↔ NumberWritten lo hi t n u := by
  constructor
  · rintro ⟨ht,hne,hlo,hhi,hu⟩
    exact ⟨ht,hne,hlo,hhi,hu.of_append⟩
  · rintro ⟨ht,hne,hlo,hhi,hu⟩
    exact ⟨ht,hne,hlo,hhi,hu.concat (isSymbolChar_of_isBlank hb)⟩

theorem Text.NumberWritten.ends (h : NumberWritten lo hi t n u) : Stops isBlank t.reverse := by
  cases h with
  | intro ht => exact stops_reverse_of_symbolic ht.symbolic

theorem Text.NumberWritten.ne_nil (h : NumberWritten lo hi t n u) : t ≠ [] := by
  rintro rfl
  have hh := h.head
  cases hh

theorem Value.Written.concat_iff (hb : isBlank b) :
    v.Written limit t (u ++ [b]) ↔ v.Written limit t u := by
  constructor
  · intro h
    cases h with
    | number hn => exact .number ((NumberWritten.concat_iff hb).1 hn)
    | symbol ht hu => exact .symbol ht hu.of_append
    | here => exact .here
  · intro h
    cases h with
    | number hn => exact .number ((NumberWritten.concat_iff hb).2 hn)
    | symbol ht hu => exact .symbol ht (hu.concat (isSymbolChar_of_isBlank hb))
    | here => exact .here

theorem Value.Written.ends (h : v.Written limit t u) : Stops isBlank t.reverse := by
  cases h with
  | number hn => exact hn.ends
  | symbol ht => exact stops_reverse_of_symbolic ht.symbolic
  | here => decide

end Numbers

section Data
variable {bytes : List UInt8}

theorem Text.LiteralWritten.ends (h : LiteralWritten t bytes) : Stops isBlank t.reverse := by
  cases h with
  | characters | digits =>
    simp only [List.reverse_cons,List.reverse_append,List.reverse_nil,List.nil_append,
      List.cons_append]
    exact stops_cons.2 (by decide)

theorem Text.DataWritten.concat_iff (hb : isBlank b) :
    DataWritten t bytes (u ++ [b]) ↔ DataWritten t bytes u := by
  constructor
  · intro h
    cases h with
    | literal h => exact .literal h
    | word h => exact .word ((NumberWritten.concat_iff hb).1 h)
  · intro h
    cases h with
    | literal h => exact .literal h
    | word h => exact .word ((NumberWritten.concat_iff hb).2 h)

theorem Text.DataWritten.ends (h : DataWritten t bytes u) : Stops isBlank t.reverse := by
  cases h with
  | literal h => exact h.ends
  | word h => exact h.ends

theorem Text.DataWritten.ne_nil (h : DataWritten t bytes u) : t ≠ [] := by
  cases h with
  | literal h => cases h <;> simp
  | word h => exact h.ne_nil

end Data

section Memory
variable {mode : Addressing} {limit : Nat} {target : Target} {extended indexed : Bool}
  {m : MemoryOperand}

theorem Target.Written.concat_iff (hb : isBlank b) :
    target.Written mode limit t (u ++ [b]) ↔ target.Written mode limit t u := by
  constructor
  · intro h
    cases h with
    | value hv => exact .value ((Value.Written.concat_iff hb).1 hv)
    | literal hmode hd => exact .literal hmode ((DataWritten.concat_iff hb).1 hd)
  · intro h
    cases h with
    | value hv => exact .value ((Value.Written.concat_iff hb).2 hv)
    | literal hmode hd => exact .literal hmode ((DataWritten.concat_iff hb).2 hd)

theorem Target.Written.ends (h : target.Written mode limit t u) :
    Stops isBlank t.reverse ∧ t ≠ [] := by
  cases h with
  | value hv =>
    obtain ⟨a,rest,rfl,_⟩ := hv.head
    exact ⟨hv.ends,List.cons_ne_nil a rest⟩
  | literal _ hd =>
    refine ⟨?_,List.cons_ne_nil _ _⟩
    rw [List.reverse_cons]
    exact hd.ends.append (by simpa using hd.ne_nil)

theorem Text.IndexWritten.of_append {w : Text} (h : IndexWritten t indexed (u ++ w)) :
    IndexWritten t indexed u := by
  cases h with
  | indexed hbefore hbetween => exact .indexed hbefore hbetween
  | unindexed hg hc =>
    refine .unindexed hg.of_append fun hhead => hc ?_
    rw [List.head?_append,hhead]
    rfl

/-- The search for an index goes over a blank, but only if it has come to the end. -/
theorem Text.IndexWritten.concat (hb : isBlank b) (h : IndexWritten t indexed u) :
    IndexWritten t indexed (u ++ [b]) ∨ u = [] ∧ IndexWritten (t ++ [b]) indexed [] := by
  cases h with
  | indexed hbefore hbetween => exact .inl (.indexed hbefore hbetween)
  | unindexed hg hc =>
    cases u with
    | nil =>
      refine .inr ⟨rfl,.unindexed ⟨fun a ha => ?_,stops_nil⟩ nofun⟩
      rcases List.mem_append.1 ha with ha | ha
      · exact hg.blank a ha
      · rwa [List.mem_singleton.1 ha]
    | cons a u => exact .inl (.unindexed (hg.append (List.cons_ne_nil a u)) hc)

theorem Text.IndexWritten.of_concat (hb : isBlank b) (h : IndexWritten (t ++ [b]) indexed []) :
    IndexWritten t indexed [] := by
  generalize ht : t ++ [b] = text at h
  cases h with
  | @indexed before between _ hbefore hbetween =>
    have hends : Stops isBlank (before ++ ',' :: (between ++ ['X'])).reverse := by
      simp only [List.reverse_append,List.reverse_cons,List.reverse_nil,List.nil_append,
        List.cons_append]
      exact stops_cons.2 (by decide)
    rw [← ht] at hends
    exact (not_ends_concat hb hends).elim
  | unindexed hg =>
    subst ht
    exact .unindexed ⟨fun a ha => hg.blank a (List.mem_append_left _ ha),stops_nil⟩ nofun

theorem MemoryOperand.Written.of_append (hb : isBlank b) (h : m.Written extended t (u ++ [b])) :
    m.Written extended t u := by
  obtain ⟨hext,body,index,rfl,hbody,hindex⟩ := h
  rw [← List.append_assoc] at hbody
  exact ⟨hext,body,index,rfl,(Target.Written.concat_iff hb).1 hbody,hindex.of_append⟩

theorem MemoryOperand.Written.concat (hb : isBlank b) (h : m.Written extended t u) :
    m.Written extended t (u ++ [b]) ∨ u = [] ∧ m.Written extended (t ++ [b]) [] := by
  obtain ⟨hext,body,index,rfl,hbody,hindex⟩ := h
  have hbody' := (Target.Written.concat_iff hb).2 hbody
  rw [List.append_assoc] at hbody'
  rcases hindex.concat hb with hlonger | ⟨rfl,hlonger⟩
  · exact .inl ⟨hext,body,index,rfl,hbody',hlonger⟩
  · refine .inr ⟨rfl,hext,body,index ++ [b],?_,?_,hlonger⟩
    · simp only [List.append_assoc]
    · rwa [List.append_nil]

theorem MemoryOperand.Written.of_concat (hb : isBlank b) (h : m.Written extended (t ++ [b]) []) :
    m.Written extended t [] := by
  obtain ⟨hext,body,index,ht,hbody,hindex⟩ := h
  rw [List.append_nil] at hbody
  rw [← List.append_assoc] at ht
  rcases exists_of_concat_eq ht with rfl | ⟨index,rfl,rfl⟩
  · -- Without an index the operand would end with what is addressed.
    have hends := hbody.ends
    have hlast : Stops isBlank (t ++ [b]).reverse := by
      rw [ht,List.append_nil,List.reverse_append]
      exact hends.1.append (by simpa using hends.2)
    exact (not_ends_concat hb hlast).elim
  · refine ⟨hext,body,index,List.append_assoc _ _ _,?_,hindex.of_concat hb⟩
    rw [List.append_nil]
    exact (Target.Written.concat_iff hb).1 hbody

end Memory

section Operands
variable {shape : Shape} {o : Operand}

theorem Text.CommaWritten.of_append {w : Text} (h : CommaWritten t (u ++ w)) : CommaWritten t u := by
  cases h with
  | intro hbefore hg => exact .intro hbefore hg.of_append

theorem Text.CommaWritten.append {w : Text} (h : CommaWritten t u) (hne : u ≠ []) :
    CommaWritten t (u ++ w) := by
  cases h with
  | intro hbefore hg => exact .intro hbefore (hg.append hne)

theorem Register.ends_name (r : Register) : Stops isBlank r.name.reverse :=
  stops_isBlank (stops_reverse_of_forall r.visible_name)

/-- An operand that stands before a blank stands there without it, too. -/
theorem Operand.Written.of_append (hb : isBlank b) (h : o.Written shape t (u ++ [b])) :
    o.Written shape t u := by
  cases shape with
  | directive | format1 | format3 => exact h
  | directiveOperand limit =>
    obtain ⟨v,rfl,hv⟩ := h
    exact ⟨v,rfl,(Value.Written.concat_iff hb).1 hv⟩
  | directiveOptional limit =>
    rcases h with ⟨rfl,rfl,hend⟩ | ⟨v,rfl,hv⟩
    · refine .inl ⟨rfl,rfl,?_⟩
      cases u with
      | nil => exact .inl rfl
      | cons a u => exact hend
    · exact .inr ⟨v,rfl,(Value.Written.concat_iff hb).1 hv⟩
  | storageReserve | format2Number =>
    obtain ⟨n,rfl,hn⟩ := h
    exact ⟨n,rfl,(NumberWritten.concat_iff hb).1 hn⟩
  | storageByte =>
    rcases h with ⟨bytes,rfl,hd⟩ | ⟨n,rfl,hn⟩
    · exact .inl ⟨bytes,rfl,hd⟩
    · exact .inr ⟨n,rfl,(NumberWritten.concat_iff hb).1 hn⟩
  | storageWord =>
    obtain ⟨bytes,rfl,hd⟩ := h
    exact ⟨bytes,rfl,(DataWritten.concat_iff hb).1 hd⟩
  | format2Register => exact h
  | format2RegisterNumber =>
    obtain ⟨r,hr,comma,number,n,rfl,rfl,hcomma,hn⟩ := h
    rw [← List.append_assoc] at hcomma
    exact ⟨r,hr,comma,number,n,rfl,rfl,hcomma.of_append,(NumberWritten.concat_iff hb).1 hn⟩
  | format2RegisterPair =>
    obtain ⟨first,hfirst,second,hsecond,comma,rfl,rfl,hcomma⟩ := h
    rw [← List.append_assoc] at hcomma
    exact ⟨first,hfirst,second,hsecond,comma,rfl,rfl,hcomma.of_append⟩
  | format3Memory | format4Memory =>
    obtain ⟨m,rfl,hm⟩ := h
    exact ⟨m,rfl,hm.of_append hb⟩

/-- A blank behind an operand stands behind it in the line, or becomes a part of it. -/
theorem Operand.Written.concat (hb : isBlank b) (h : o.Written shape t u) (hne : t ++ u ≠ []) :
    o.Written shape t (u ++ [b]) ∨ u = [] ∧ o.Written shape (t ++ [b]) [] := by
  cases shape with
  | directive | format1 | format3 => exact .inl h
  | directiveOperand limit =>
    obtain ⟨v,rfl,hv⟩ := h
    exact .inl ⟨v,rfl,(Value.Written.concat_iff hb).2 hv⟩
  | directiveOptional limit =>
    rcases h with ⟨rfl,rfl,hend⟩ | ⟨v,rfl,hv⟩
    · refine .inl (.inl ⟨rfl,rfl,?_⟩)
      cases u with
      | nil => exact absurd rfl hne
      | cons a u => exact hend
    · exact .inl (.inr ⟨v,rfl,(Value.Written.concat_iff hb).2 hv⟩)
  | storageReserve | format2Number =>
    obtain ⟨n,rfl,hn⟩ := h
    exact .inl ⟨n,rfl,(NumberWritten.concat_iff hb).2 hn⟩
  | storageByte =>
    rcases h with ⟨bytes,rfl,hd⟩ | ⟨n,rfl,hn⟩
    · exact .inl (.inl ⟨bytes,rfl,hd⟩)
    · exact .inl (.inr ⟨n,rfl,(NumberWritten.concat_iff hb).2 hn⟩)
  | storageWord =>
    obtain ⟨bytes,rfl,hd⟩ := h
    exact .inl ⟨bytes,rfl,(DataWritten.concat_iff hb).2 hd⟩
  | format2Register => exact .inl h
  | format2RegisterNumber =>
    obtain ⟨r,hr,comma,number,n,rfl,rfl,hcomma,hn⟩ := h
    have hcomma := hcomma.append (w := [b]) (by simp [hn.ne_nil])
    rw [List.append_assoc] at hcomma
    exact .inl ⟨r,hr,comma,number,n,rfl,rfl,hcomma,(NumberWritten.concat_iff hb).2 hn⟩
  | format2RegisterPair =>
    obtain ⟨first,hfirst,second,hsecond,comma,rfl,rfl,hcomma⟩ := h
    have hcomma := hcomma.append (w := [b]) (by simp [second.name_ne_nil])
    rw [List.append_assoc] at hcomma
    exact .inl ⟨first,hfirst,second,hsecond,comma,rfl,rfl,hcomma⟩
  | format3Memory | format4Memory =>
    obtain ⟨m,rfl,hm⟩ := h
    exact (hm.concat hb).imp (fun hm => ⟨m,rfl,hm⟩) fun ⟨hu,hm⟩ => ⟨hu,m,rfl,hm⟩

/-- Only the operand of a memory instruction may end with a blank. -/
theorem Operand.Written.ends (h : o.Written shape t u) (hm : ∀ m, o ≠ .memory m) :
    Stops isBlank t.reverse := by
  cases shape with
  | directive | format1 | format3 =>
    obtain ⟨rfl,_⟩ := h
    exact stops_nil
  | directiveOperand limit =>
    obtain ⟨v,_,hv⟩ := h
    exact hv.ends
  | directiveOptional limit =>
    rcases h with ⟨rfl,_⟩ | ⟨v,_,hv⟩
    · exact stops_nil
    · exact hv.ends
  | storageReserve | format2Number =>
    obtain ⟨n,_,hn⟩ := h
    exact hn.ends
  | storageByte =>
    rcases h with ⟨bytes,_,hd⟩ | ⟨n,_,hn⟩
    · exact hd.ends
    · exact hn.ends
  | storageWord =>
    obtain ⟨bytes,_,hd⟩ := h
    exact hd.ends
  | format2Register =>
    obtain ⟨r,_,_,rfl⟩ := h
    exact r.ends_name
  | format2RegisterNumber =>
    obtain ⟨r,_,comma,number,n,_,rfl,_,hn⟩ := h
    simp only [List.reverse_append,List.append_assoc]
    exact hn.ends.append (by simpa using hn.ne_nil)
  | format2RegisterPair =>
    obtain ⟨first,_,second,_,comma,_,rfl,_⟩ := h
    simp only [List.reverse_append,List.append_assoc]
    exact second.ends_name.append (by simpa using second.name_ne_nil)
  | format3Memory | format4Memory =>
    obtain ⟨m,rfl,_⟩ := h
    exact absurd rfl (hm m)

theorem Operand.Written.of_concat (hb : isBlank b) (h : o.Written shape (t ++ [b]) []) :
    o.Written shape t [] := by
  cases shape with
  | format3Memory | format4Memory =>
    obtain ⟨m,rfl,hm⟩ := h
    exact ⟨m,rfl,hm.of_concat hb⟩
  | _ =>
    refine (not_ends_concat hb (h.ends fun m hm => ?_)).elim
    subst hm
    simp [Operand.Written] at h

end Operands

section Lines
variable {l : Text} {r : Record}

theorem Text.trimEnd_concat (hb : isBlank b) : trimEnd (t ++ [b]) = trimEnd t := by
  rw [trimEnd,List.reverse_append,List.reverse_singleton,List.singleton_append,List.dropWhile_cons,
    if_pos (isWhitespace_of_isBlank hb),trimEnd]

theorem Text.trim_concat (hb : isBlank b) : trim (t ++ [b]) = trim t := by
  have hw := isWhitespace_of_isBlank hb
  rw [trim,trim,trimStart,trimStart,List.dropWhile_append]
  split
  case isTrue h =>
    rw [List.isEmpty_iff.1 h,List.dropWhile_cons,if_pos hw]
    rfl
  case isFalse => exact trimEnd_concat hb

theorem Text.remarkWritten_concat_iff {remark : Option Text} (hb : isBlank b) :
    RemarkWritten (t ++ [b]) remark ↔ RemarkWritten t remark := by
  rw [remarkWritten_iff,remarkWritten_iff,trim_concat hb]

theorem Operand.behind_concat_iff {shape : Shape} {o : Operand} {remark : Option Text}
    (hb : isBlank b) : o.Behind shape remark (t ++ [b]) ↔ o.Behind shape remark t := by
  constructor
  · rintro ⟨gap,operand,rest,ht,hg,ho,hremark⟩
    rw [← List.append_assoc] at ht
    rcases exists_of_concat_eq ht with rfl | ⟨rest,rfl,rfl⟩
    · rw [List.append_nil] at ht hg
      rcases exists_of_concat_eq ht with rfl | ⟨operand,rfl,rfl⟩
      · rw [List.append_nil] at ht
        subst ht
        exact ⟨t,[],[],by simp,⟨fun a ha => hg.blank a (List.mem_append_left _ ha),stops_nil⟩,ho,
          hremark⟩
      · refine ⟨gap,operand,[],by simp,?_,ho.of_concat hb,hremark⟩
        rw [List.append_nil]
        exact hg.of_append
    · rw [← List.append_assoc] at hg
      exact ⟨gap,operand,rest,List.append_assoc _ _ _,hg.of_append,ho.of_append hb,
        (remarkWritten_concat_iff hb).1 hremark⟩
  · rintro ⟨gap,operand,rest,rfl,hg,ho,hremark⟩
    by_cases hne : operand ++ rest = []
    · obtain ⟨rfl,rfl⟩ := List.append_eq_nil_iff.1 hne
      refine ⟨gap ++ [b],[],[],by simp,⟨fun a ha => ?_,stops_nil⟩,ho,hremark⟩
      rcases List.mem_append.1 ha with ha | ha
      · exact hg.blank a ha
      · rwa [List.mem_singleton.1 ha]
    · have hg := hg.append (w := [b]) hne
      rw [List.append_assoc] at hg
      rcases ho.concat hb hne with hlonger | ⟨rfl,hlonger⟩
      · exact ⟨gap,operand,rest ++ [b],by simp,hg,hlonger,(remarkWritten_concat_iff hb).2 hremark⟩
      · exact ⟨gap,operand ++ [b],[],by simp,by simpa using hg,hlonger,hremark⟩

theorem Mnemonic.before_concat_iff {label gap spelling : Text} {s : Option Symbol} {m : Mnemonic}
    (hb : isBlank b) :
    m.Before label gap spelling s (u ++ [b]) ↔ m.Before label gap spelling s u := by
  have hsym := isSymbolChar_of_isBlank hb
  constructor
  · rintro ⟨hl,hg,hm,hs,hu⟩
    simp only [← List.append_assoc] at hl hg
    refine ⟨?_,?_,hm,hs,hu.of_append⟩
    · cases hl with
      | label ht hstops => exact .label ht (by simpa using hstops.of_append)
      | unlabelled hstops => exact .unlabelled (by simpa using hstops.of_append)
    · exact hg.of_append
  · rintro ⟨hl,hg,hm⟩
    have hne : spelling ++ u ≠ [] := by simp [hm.visible.1]
    refine ⟨?_,?_,hm.registered,hm.spelled,hm.stops.concat hsym⟩
    · rw [← List.append_assoc,← List.append_assoc]
      rw [← List.append_assoc] at hl
      cases hl with
      | label ht hstops => exact .label ht (hstops.concat hsym)
      | unlabelled hstops => exact .unlabelled (hstops.concat (isAlphabetic_of_isBlank hb))
    · rw [← List.append_assoc]
      exact hg.append hne

/-- A blank behind a line changes nothing that the line is written for. -/
theorem Record.written_concat_iff (hb : isBlank b) :
    Record.Written (l ++ [b]) r ↔ Record.Written l r := by
  rw [Record.written_iff,Record.written_iff]
  constructor
  · rintro ⟨label,gap,spelling,u,s,m,o,remark,hline,hbefore,hbehind,rfl⟩
    simp only [← List.append_assoc] at hline
    rcases exists_of_concat_eq hline with rfl | ⟨u,rfl,rfl⟩
    · -- The mnemonic ends visibly, so the blank stands behind it.
      obtain ⟨hne,hvisible⟩ := hbefore.spelling_written.visible
      have hends : Stops isBlank (l ++ [b]).reverse := by
        rw [hline,List.append_nil,List.reverse_append]
        exact (stops_isBlank (stops_reverse_of_forall hvisible)).append (by simpa using hne)
      exact (not_ends_concat hb hends).elim
    · exact ⟨label,gap,spelling,u,s,m,o,remark,by simp,(Mnemonic.before_concat_iff hb).1 hbefore,
        (Operand.behind_concat_iff hb).1 hbehind,rfl⟩
  · rintro ⟨label,gap,spelling,u,s,m,o,remark,rfl,hbefore,hbehind,rfl⟩
    exact ⟨label,gap,spelling,u ++ [b],s,m,o,remark,by simp,(Mnemonic.before_concat_iff hb).2 hbefore,
      (Operand.behind_concat_iff hb).2 hbehind,rfl⟩

end Lines

end SicXE
