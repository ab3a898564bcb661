import SicXE.Proofs.Grammar

/-! # What is written fits

Whatever is written as an operand satisfies what is asked of it: numbers lie between their bounds,
symbols are words, operands fit their shapes. An operand without an index also says something of
the text behind it, since the search for the index ended there.
-/
namespace SicXE
open Text

variable {t u : Text}

theorem Value.Written.fits {limit : Nat} {v : Value} (h : v.Written limit t u) : v.Fits limit := by
  cases h with
  | number hn => exact hn.le_hi
  | symbol hs => exact hs
  | here => trivial

theorem Target.Written.fits {mode : Addressing} {limit : Nat} {target : Target}
    (h : target.Written mode limit t u) : target.Fits mode limit := by
  cases h with
  | value hv => exact hv.fits
  | literal hmode => exact hmode

/-- What an operand without an index, or without anything, leaves of its line. -/
structure Operand.Leaves (o : Operand) (u : Text) : Prop where
  omitted : o = .optionalValue Option.none → Ended u
  stops : ∀ m, o = .memory m → m.indexed = false → Stops isBlank u
  unindexed : ∀ m, o = .memory m → m.indexed = false → u.head? ≠ some ','

theorem Operand.leaves_of_ne {o : Operand} (hopt : o ≠ .optionalValue Option.none)
    (hmem : ∀ m, o ≠ .memory m) : o.Leaves u :=
  ⟨fun h => absurd h hopt,fun m h => absurd h (hmem m),fun m h => absurd h (hmem m)⟩

theorem MemoryOperand.Written.fits {extended : Bool} {m : MemoryOperand}
    (h : m.Written extended t u) : m.Fits extended ∧ Operand.Leaves (.memory m) u := by
  obtain ⟨hext,body,index,_,hbody,hindex⟩ := h
  refine ⟨⟨hext,hbody.fits⟩,?_⟩
  cases hi : m.indexed with
  | true =>
    refine ⟨nofun,?_,?_⟩
    all_goals
      rintro _ ⟨⟩ hn
      rw [hi] at hn
      cases hn
  | false =>
    rw [hi] at hindex
    cases hindex with
    | unindexed hg hc =>
      refine ⟨nofun,?_,?_⟩
      all_goals rintro _ ⟨⟩ _
      · exact hg.stops
      · exact hc

theorem Operand.Written.fits {shape : Shape} {o : Operand} (h : o.Written shape t u) :
    o.Fits shape ∧ o.Leaves u := by
  cases shape with
  | directive | format1 | format3 =>
    obtain ⟨_,rfl⟩ := h
    exact ⟨by constructor,leaves_of_ne nofun nofun⟩
  | directiveOperand limit =>
    obtain ⟨v,rfl,hv⟩ := h
    exact ⟨.directiveOperand hv.fits,leaves_of_ne nofun nofun⟩
  | directiveOptional limit =>
    rcases h with ⟨_,rfl,hend⟩ | ⟨v,rfl,hv⟩
    · exact ⟨.omitted,fun _ => hend,nofun,nofun⟩
    · exact ⟨.directiveOptional hv.fits,leaves_of_ne nofun nofun⟩
  | storageReserve =>
    obtain ⟨n,rfl,hn⟩ := h
    exact ⟨.storageReserve hn.le_hi,leaves_of_ne nofun nofun⟩
  | storageByte =>
    rcases h with ⟨bytes,rfl,_⟩ | ⟨n,rfl,_⟩
    all_goals exact ⟨.storageByte,leaves_of_ne nofun nofun⟩
  | storageWord =>
    obtain ⟨bytes,rfl,_⟩ := h
    exact ⟨.storageWord,leaves_of_ne nofun nofun⟩
  | format2Number =>
    obtain ⟨n,rfl,hn⟩ := h
    exact ⟨.format2Number hn.le_hi,leaves_of_ne nofun nofun⟩
  | format2Register =>
    obtain ⟨r,hr,rfl,_⟩ := h
    exact ⟨.format2Register hr,leaves_of_ne nofun nofun⟩
  | format2RegisterNumber =>
    obtain ⟨r,hr,comma,number,n,rfl,_,_,hn⟩ := h
    exact ⟨.format2RegisterNumber hr hn.lo_le hn.le_hi,leaves_of_ne nofun nofun⟩
  | format2RegisterPair =>
    obtain ⟨first,hfirst,second,hsecond,comma,rfl,_⟩ := h
    exact ⟨.format2RegisterPair hfirst hsecond,leaves_of_ne nofun nofun⟩
  | format3Memory =>
    obtain ⟨m,rfl,hm⟩ := h
    exact ⟨.format3Memory hm.fits.1,hm.fits.2⟩
  | format4Memory =>
    obtain ⟨m,rfl,hm⟩ := h
    exact ⟨.format4Memory hm.fits.1,hm.fits.2⟩

end SicXE
