import SicXE.Proofs.Emission
import SicXE.Proofs.Statements

/-! # Register letters

A register is written as one letter, and so is the index of a memory operand. Before another part
of the operand such a letter is a word. As the last part of the operand it is not asked to be one:
whatever follows it in its line, symbol characters too, is taken for the remark.
-/
namespace SicXE
open Text

section Ends
variable {lo hi limit n : Nat} {t u w : Text}

theorem Text.NumberWritten.of_stops (h : NumberWritten lo hi t n u) (hw : Stops isSymbolChar w) :
    NumberWritten lo hi t n w := by
  cases h with
  | intro ht hne hlo hhi => exact .intro ht hne hlo hhi hw

theorem Value.Written.of_stops {v : Value} (h : v.Written limit t u) (hw : Stops isSymbolChar w) :
    v.Written limit t w := by
  cases h with
  | number hn => exact .number (hn.of_stops hw)
  | symbol ht => exact .symbol ht hw
  | here => exact .here

theorem Text.DataWritten.of_stops {bytes : List UInt8} (h : DataWritten t bytes u)
    (hw : Stops isSymbolChar w) : DataWritten t bytes w := by
  cases h with
  | literal hb => exact .literal hb
  | word hn => exact .word (hn.of_stops hw)

theorem Target.Written.of_stops {mode : Addressing} {target : Target}
    (h : target.Written mode limit t u) (hw : Stops isSymbolChar w) :
    target.Written mode limit t w := by
  cases h with
  | value hv => exact .value (hv.of_stops hw)
  | literal hmode hb => exact .literal hmode (hb.of_stops hw)

/-- Blanks and then a comma are no part of a word. -/
theorem Text.stops_of_comma {blanks : Text} (hb : ∀ a ∈ blanks, isBlank a) :
    Stops isSymbolChar (blanks ++ ',' :: w) := by
  cases blanks with
  | nil => exact stops_cons.2 (by decide)
  | cons a blanks => exact stops_cons.2 (isSymbolChar_of_isBlank (hb a List.mem_cons_self))

/-- Behind its index a memory operand ends, whatever follows. -/
theorem MemoryOperand.Written.of_indexed {extended : Bool} {m : MemoryOperand}
    (h : m.Written extended t u) (hm : m.indexed) :
    m.Written extended t w ∧ ∃ v, t = v ++ ['X'] := by
  obtain ⟨hext,body,index,rfl,hbody,hindex⟩ := h
  rw [hm] at hindex
  cases hindex with
  | @indexed before between _ hbefore hbetween =>
    refine ⟨⟨hext,body,_,rfl,?_,hm ▸ .indexed hbefore hbetween⟩,
      m.addressing.mark ++ (body ++ (before ++ ',' :: between)),by simp⟩
    rw [List.append_assoc,List.cons_append]
    exact hbody.of_stops (stops_of_comma hbefore)

end Ends

/-- The letters of an operand that name registers. -/
def Operand.letters : Operand → Text
  | register r | registerNumber r _ => r.name
  | registerPair first second => first.name ++ second.name
  | memory m => if m.indexed then ['X'] else []
  | _ => []

/-- A letter that names a register of the operand, with the parts of the operand around it. -/
inductive Operand.Takes : Operand → Text → Char → Text → Prop where
  | sole {r : Register} {a : Char} : r.name = [a] → Takes (.register r) [] a []
  | shifted {r : Register} {n : Nat} {a : Char} {v : Text} : r.name = [a] →
      Takes (.registerNumber r n) [] a v
  | first {r r' : Register} {a : Char} {v : Text} : r.name = [a] →
      Takes (.registerPair r r') [] a v
  | second {r r' : Register} {t : Text} {a : Char} : r'.name = [a] →
      Takes (.registerPair r r') t a []
  | index {m : MemoryOperand} {t : Text} : m.indexed → Takes (.memory m) t 'X' []

theorem Text.CommaWritten.starts {comma t u : Text} (h : CommaWritten comma u) :
    ∃ gap v, comma ++ t = gap ++ ',' :: v ∧ ∀ a ∈ gap, isBlank a := by
  obtain ⟨hbefore,_⟩ := h
  exact ⟨_,_,List.append_assoc ..,hbefore⟩

/-- The gap behind a comma ends at whatever the next part of the operand starts with. -/
theorem Text.CommaWritten.behind {comma t u v : Text} (h : CommaWritten comma (t ++ u))
    (ht : t ≠ []) : CommaWritten comma (t ++ v) := by
  cases h with
  | intro hbefore hgap => exact .intro hbefore ⟨hgap.blank,hgap.stops.behind ht⟩

theorem Register.exists_letter {r : Register} (h : r ∈ operands) : ∃ a, r.name = [a] := by
  have hall : ∀ r ∈ operands, r.name = [r.name.headD 'A'] := by decide
  exact ⟨_,hall r h⟩

section Letters
variable {t u v : Text} {a : Char} {o : Operand} {shape : Shape}

theorem MemoryOperand.Written.exists_takes {extended : Bool} {m : MemoryOperand}
    (h : m.Written extended t u) (ha : a ∈ (Operand.memory m).letters) :
    ∃ t' v, t = t' ++ a :: v ∧ (Operand.memory m).Takes t' a v := by
  rw [Operand.letters] at ha
  split at ha
  case isTrue hm =>
    obtain ⟨v,rfl⟩ := (h.of_indexed (w := []) hm).2
    rw [List.mem_singleton.1 ha]
    exact ⟨v,[],rfl,.index hm⟩
  case isFalse => cases ha

/-- Each letter of an operand stands somewhere in it. -/
theorem Operand.Written.exists_takes (h : o.Written shape t u) (ha : a ∈ o.letters) :
    ∃ t' v, t = t' ++ a :: v ∧ o.Takes t' a v := by
  cases h.fits.1 with
  | format2Register =>
    obtain ⟨r,hr,ho,rfl⟩ := h
    cases ho
    obtain ⟨b,hb⟩ := Register.exists_letter hr
    rw [letters,hb,List.mem_singleton] at ha
    rw [ha]
    exact ⟨[],[],hb,.sole hb⟩
  | format2RegisterNumber =>
    obtain ⟨r,hr,comma,number,n,ho,rfl,_⟩ := h
    cases ho
    obtain ⟨b,hb⟩ := Register.exists_letter hr
    rw [letters,hb,List.mem_singleton] at ha
    rw [ha,hb]
    exact ⟨[],comma ++ number,rfl,.shifted hb⟩
  | format2RegisterPair =>
    obtain ⟨r,hr,r',hr',comma,ho,rfl,_⟩ := h
    cases ho
    obtain ⟨b,hb⟩ := Register.exists_letter hr
    obtain ⟨b',hb'⟩ := Register.exists_letter hr'
    rw [letters,hb,hb',List.mem_append,List.mem_singleton,List.mem_singleton] at ha
    rw [hb,hb']
    rcases ha with rfl | rfl
    · exact ⟨[],comma ++ [b'],rfl,.first hb⟩
    · exact ⟨b :: comma,[],rfl,.second hb'⟩
  | format3Memory | format4Memory =>
    obtain ⟨m,ho,hw⟩ := h
    cases ho
    exact hw.exists_takes ha
  | _ => cases ha

/-- Behind a register a comma follows, perhaps after blanks, or the operand ends. -/
theorem Operand.Takes.inner_or_last (h : o.Takes t a v) (hw : o.Written shape (t ++ a :: v) u) :
    (∃ gap w, v = gap ++ ',' :: w ∧ ∀ b ∈ gap, isBlank b) ∨
      v = [] ∧ ∀ w, o.Written shape (t ++ [a]) w := by
  cases h with
  | sole hr =>
    right
    cases hw.fits.1
    exact ⟨rfl,fun _ => hw⟩
  | shifted hr =>
    left
    cases hw.fits.1
    obtain ⟨_,_,comma,number,_,ho,ht,hc,_⟩ := hw
    cases ho
    rw [hr] at ht
    rw [(List.cons.inj ht).2]
    exact hc.starts
  | first hr =>
    left
    cases hw.fits.1
    obtain ⟨_,_,_,_,comma,ho,ht,hc⟩ := hw
    cases ho
    rw [hr] at ht
    rw [(List.cons.inj ht).2]
    exact hc.starts
  | second hr =>
    right
    cases hw.fits.1
    obtain ⟨_,hfirst,_,hsecond,comma,ho,ht,hc⟩ := hw
    cases ho
    exact ⟨rfl,fun w => ⟨_,hfirst,_,hsecond,comma,rfl,ht,hc.behind (by simp [hr])⟩⟩
  | index hm =>
    right
    cases hw.fits.1 with
    | format3Memory | format4Memory =>
      obtain ⟨_,ho,hw⟩ := hw
      cases ho
      exact ⟨rfl,fun w => ⟨_,rfl,(hw.of_indexed hm).1⟩⟩

end Letters

/-- A letter of an instruction that names a register, with what stands around it in the line. -/
def Mnemonic.Takes (m : Mnemonic) (s : Option Symbol) (o : Operand) (before : Text) (a : Char)
    (behind : Text) : Prop :=
  ∃ start spelling gap t v rest, before = start ++ (spelling ++ (gap ++ t)) ∧ behind = v ++ rest ∧
    m.Placed start spelling s (gap ++ ((t ++ a :: v) ++ rest)) ∧ Gap gap ((t ++ a :: v) ++ rest) ∧
    o.Written m.shape (t ++ a :: v) rest ∧ o.Takes t a v

section Lines
open Reading

variable {l : Text} {a : Char} {s : Option Symbol} {m : Mnemonic} {o : Operand}
  {location : Position} {remark : Option Text}

theorem Reading.exists_takes (hl : '\n' ∉ l)
    (h : Program.parse l = .ok [⟨location,s,.instruction m o,remark⟩]) (ha : a ∈ o.letters) :
    ∃ before behind, l = before ++ a :: behind ∧ m.Takes s o before a behind := by
  obtain ⟨start,spelling,u,rfl,hm⟩ := exists_placed hl h
  obtain ⟨gap,t,rfl,hg⟩ := exists_gap u
  obtain ⟨_,operand,rest,_,rfl,hw,_,hp⟩ := (parse_placed_iff hm hg hl).1 h
  cases hp
  obtain ⟨t,v,rfl,htakes⟩ := hw.exists_takes ha
  exact ⟨start ++ (spelling ++ (gap ++ t)),v ++ rest,by simp,
    start,spelling,gap,t,v,rest,rfl,rfl,hm,hg,hw,htakes⟩

/-- A letter that names a register has a comma behind it, perhaps after blanks, or it ends the
operand. Then the remark starts right behind it, and any other remark could stand there. -/
theorem parse_register_letters (hl : '\n' ∉ l)
    (h : Program.parse l = .ok [⟨location,s,.instruction m o,remark⟩]) :
    (∀ a ∈ o.letters, ∃ before behind, l = before ++ a :: behind ∧ m.Takes s o before a behind) ∧
    ∀ {before : Text} {a : Char} {behind : Text}, l = before ++ a :: behind →
      m.Takes s o before a behind →
      (∃ gap v, behind = gap ++ ',' :: v ∧ ∀ b ∈ gap, isBlank b) ∨
      RemarkWritten behind remark ∧ ∀ w : Text, '\n' ∉ w → ∃ r, RemarkWritten w r ∧
        Program.parse (before ++ a :: w) = .ok [⟨location,s,.instruction m o,r⟩] := by
  refine ⟨fun a ha => exists_takes hl h ha,?_⟩
  rintro _ a _ rfl ⟨start,spelling,gap,t,v,rest,rfl,rfl,hm,hg,hw,htakes⟩
  have hline : ∀ u w : Text, start ++ (spelling ++ (gap ++ t)) ++ a :: (u ++ w) =
      start ++ (spelling ++ (gap ++ ((t ++ a :: u) ++ w))) := by simp
  rw [hline] at h hl
  obtain ⟨_,hremark⟩ := exists_remarkWritten rest
  rw [(parse_placed_iff hm hg hl).2 ⟨o,_,rest,_,rfl,hw,hremark,rfl⟩] at h
  cases h
  rcases htakes.inner_or_last hw with ⟨blanks,w,rfl,hb⟩ | ⟨rfl,hlast⟩
  · exact .inl ⟨blanks,w ++ rest,by simp,hb⟩
  · refine .inr ⟨hremark,fun w hn => ?_⟩
    obtain ⟨r,hr⟩ := exists_remarkWritten w
    have hl' : '\n' ∉ start ++ (spelling ++ (gap ++ ((t ++ [a]) ++ w))) := by
      simp only [List.mem_append,not_or] at hl ⊢
      exact ⟨hl.1,hl.2.1,hl.2.2.1,hl.2.2.2.1,hn⟩
    refine ⟨r,hr,?_⟩
    rw [← List.nil_append w,hline]
    exact parse_placed_behind hm hg (by simp) (hlast w) hr hl'

theorem parse_register_letters_pair :
    ∃ m, Program.parse " RMO A ,SW".toList =
      .ok [⟨.start,none,.instruction m (.registerPair .a .s),some ['W']⟩] ∧
    Program.parse " RMO A ,S!".toList =
      .ok [⟨.start,none,.instruction m (.registerPair .a .s),some ['!']⟩] := by
  obtain ⟨m,hm,hshape,h⟩ := Program.exists_mnemonic " RMO A ,SW".toList "RMO".toList
    .format2RegisterPair
    (f := fun m => [⟨.start,none,.instruction m (.registerPair .a .s),some ['W']⟩])
    (by decide +kernel) (by decide +kernel)
  have hplaced : m.Placed [' '] "RMO".toList none " A ,SW".toList :=
    Mnemonic.placed_spaced hm (by decide)
  have hcomma : CommaWritten " ,".toList "SW".toList :=
    @CommaWritten.intro [' '] [] _ (List.all_eq_true.1 (by decide)) ⟨nofun,by decide⟩
  have htakes : m.Takes none (.registerPair .a .s) " RMO A ,".toList 'S' ['W'] :=
    ⟨[' '],"RMO".toList,[' '],"A ,".toList,[],['W'],rfl,rfl,hplaced,gap_space (by decide),
      hshape ▸ ⟨.a,by decide,.s,by decide,_,rfl,rfl,hcomma⟩,.second rfl⟩
  rcases (parse_register_letters (by decide) h).2 rfl htakes with ⟨gap,v,hbehind,hgap⟩ | hlast
  · cases gap with
    | nil => cases hbehind
    | cons b gap =>
      have hb := hgap b List.mem_cons_self
      rw [← (List.cons.inj hbehind).1] at hb
      exact absurd hb (by decide)
  · obtain ⟨r,hr,hp⟩ := hlast.2 ['!'] (by decide)
    cases remarkWritten_iff.1 hr
    exact ⟨m,h,hp⟩

/-- The status word is taken for the register that its name starts with. -/
theorem not_parse_register_words :
    ¬∀ {l : Text} {location : Position} {s : Option Symbol} {m : Mnemonic} {o : Operand}
      {remark : Option Text}, '\n' ∉ l →
      Program.parse l = .ok [⟨location,s,.instruction m o,remark⟩] →
      ∀ {before : Text} {a : Char} {behind : Text}, l = before ++ a :: behind →
        m.Takes s o before a behind → Stops isSymbolChar behind := by
  intro hwords
  obtain ⟨m,hm,hshape,h⟩ := Program.exists_mnemonic " CLEAR SW".toList "CLEAR".toList
    .format2Register
    (f := fun m => [⟨.start,none,.instruction m (.register .s),some ['W']⟩])
    (by decide +kernel) (by decide +kernel)
  have hplaced : m.Placed [' '] "CLEAR".toList none " SW".toList :=
    Mnemonic.placed_spaced hm (by decide)
  have htakes : m.Takes none (.register .s) " CLEAR ".toList 'S' ['W'] :=
    ⟨[' '],"CLEAR".toList,[' '],[],[],['W'],rfl,rfl,hplaced,gap_space (by decide),
      hshape ▸ ⟨.s,by decide,rfl,rfl⟩,.sole rfl⟩
  have hstops := hwords (by decide) h rfl htakes
  revert hstops
  decide

end Lines

end SicXE
