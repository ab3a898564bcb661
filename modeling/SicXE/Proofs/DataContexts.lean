import SicXE.Proofs.DataReading
import SicXE.Proofs.Statements

/-! # Data in their three contexts

The same data may be placed as bytes, as a word, or as the literal of a memory operand. What is
written is read alike in each of them, with the same faults. Only a number differs: it fills a word,
and where bytes are placed its low byte alone is kept.
-/
namespace SicXE
open Text

/-- The bytes that are placed for data which fill a word with the given ones. -/
structure Text.Places (t : Text) (bytes word : List UInt8) : Prop where
  number : t.head?.any Char.isDigit →
    word.length = 3 ∧ ∃ low, word.getLast? = some low ∧ bytes = [low]
  other : t.head?.any Char.isDigit = false → bytes = word

namespace Reading
open Scan

variable {c : Cursor}

/-- A digit announces none of the literals. -/
theorem run_data_of_digit (h : c.atDigit) : data.run c = wordData.run c := by
  have hadvance : ∀ letter : Char, letter.isDigit = false →
      (advanceIf letter).run c = .ok false c := by
    intro letter hletter
    rw [run_advanceIf,if_neg]
    intro hpeek
    rw [Cursor.atDigit,hpeek] at h
    exact ne_true_of_eq_false hletter h
  refine (run_bind_of_ok (hadvance 'C' rfl)).trans ?_
  rw [if_neg Bool.false_ne_true]
  refine (run_bind_of_ok (hadvance 'X' rfl)).trans ?_
  rw [if_neg Bool.false_ne_true]
  refine (run_bind_of_ok (x := atDigit) rfl).trans ?_
  rw [if_pos h]

theorem places_wordBytes {t : Text} {n : Nat} (h : t.head?.any Char.isDigit) :
    t.Places [UInt8.ofNat n] (wordBytes n) :=
  ⟨fun _ => ⟨rfl,_,rfl,rfl⟩,fun hdigit => absurd h (ne_true_of_eq_false hdigit)⟩

/-- Bytes and a word are read to the same end, or they have the same fault. -/
theorem run_storage (c : Cursor) :
    (∃ e d, (operand .storageByte).run c = .error e d ∧
      (operand .storageWord).run c = .error e d) ∨
    ∃ bytes word d, (operand .storageByte).run c = .ok (.data bytes) d ∧
      (operand .storageWord).run c = .ok (.data word) d ∧ c.rest.Places bytes word := by
  have hbyte : (operand .storageByte).run c = (if c.atDigit then
      do return .data (← byte) else do return .data (← data) : Scan Operand).run c :=
    run_bind_of_ok (x := atDigit) rfl
  rw [hbyte]
  cases hdigit : c.atDigit with
  | true =>
    rw [if_pos rfl]
    cases hn : (number 0 16777215).run c with
    | error e d =>
      have hdata : data.run c = .error e d :=
        (run_data_of_digit hdigit).trans (run_bind_of_error hn)
      exact .inl ⟨e,d,run_bind_of_error (run_bind_of_error hn),run_bind_of_error hdata⟩
    | ok n d =>
      obtain ⟨t,hrest,hpos,hw⟩ := number_run_iff.1 hn
      have hdata : data.run c = .ok (wordBytes n) d :=
        run_data_iff.2 ⟨t,hrest,hpos,.word hdigit hn (toNat_wordBytes hw.le_hi)⟩
      have hlow : byte.run c = .ok [UInt8.ofNat n] d := run_bind_of_ok hn
      exact .inr ⟨_,_,d,run_bind_of_ok hlow,run_bind_of_ok hdata,places_wordBytes hdigit⟩
  | false =>
    rw [if_neg Bool.false_ne_true]
    cases hdata : data.run c with
    | error e d => exact .inl ⟨e,d,run_bind_of_error hdata,run_bind_of_error hdata⟩
    | ok bytes d =>
      exact .inr ⟨bytes,bytes,d,run_bind_of_ok hdata,run_bind_of_ok hdata,
        fun h => absurd h (ne_true_of_eq_false hdigit),fun _ => rfl⟩

section Lines
variable {t : Text} {byte word load : Mnemonic} {p : Program} (hn : '\n' ∉ t) (hs : Stops isBlank t)
include hn hs

theorem parse_storage (hbyte : Registry.ofSpelling? "BYTE".toList = some byte)
    (hword : Registry.ofSpelling? "WORD".toList = some word) (hbs : byte.shape = .storageByte)
    (hws : word.shape = .storageWord) :
    (∃ e, Program.parse (" BYTE ".toList ++ t) = .error e ∧
      Program.parse (" WORD ".toList ++ t) = .error e) ∨
    ∃ bytes w remark,
      Program.parse (" BYTE ".toList ++ t) =
        .ok [⟨.start,none,.instruction byte (.data bytes),remark⟩] ∧
      Program.parse (" WORD ".toList ++ t) =
        .ok [⟨.start,none,.instruction word (.data w),remark⟩] ∧ t.Places bytes w := by
  have hpb : byte.Placed [' '] "BYTE".toList none ([' '] ++ t) :=
    Mnemonic.placed_spaced hbyte (by decide)
  have hpw : word.Placed [' '] "WORD".toList none ([' '] ++ t) :=
    Mnemonic.placed_spaced hword (by decide)
  have hg : Gap [' '] t := gap_space hs
  have hlb : '\n' ∉ [' '] ++ ("BYTE".toList ++ ([' '] ++ t)) := by simpa using hn
  have hlw : '\n' ∉ [' '] ++ ("WORD".toList ++ ([' '] ++ t)) := by simpa using hn
  -- The names are equally long, so the operands start in the same column.
  rcases run_storage ⟨t,⟨1,7⟩⟩ with ⟨e,d,hb,hw⟩ | ⟨bytes,w,d,hb,hw,hplaces⟩
  · rw [← hbs] at hb
    rw [← hws] at hw
    exact .inl ⟨e,parse_placed_of_error hpb hg hlb hb,parse_placed_of_error hpw hg hlw hw⟩
  · rw [← hbs] at hb
    rw [← hws] at hw
    obtain ⟨remark,hremark⟩ := exists_remarkWritten d.rest
    exact .inr ⟨bytes,w,remark,parse_placed_of_ok hpb hg hlb hb hremark,
      parse_placed_of_ok hpw hg hlw hw hremark,hplaces⟩

/-- The literal of a memory operand may be placed as a word. -/
theorem parse_literal (hword : Registry.ofSpelling? "WORD".toList = some word)
    (hload : Registry.ofSpelling? "LDA".toList = some load) (hws : word.shape = .storageWord)
    (hls : load.shape = .format3Memory) (h : Program.parse (" LDA =".toList ++ t) = .ok p) :
    ∃ w indexed remark remark',
      p = [⟨.start,none,.instruction load (.memory ⟨.simple,.literal w,indexed,false⟩),remark⟩] ∧
      Program.parse (" WORD ".toList ++ t) =
        .ok [⟨.start,none,.instruction word (.data w),remark'⟩] := by
  have hpl : load.Placed [' '] "LDA".toList none ([' '] ++ '=' :: t) :=
    Mnemonic.placed_spaced hload (by decide)
  have hpw : word.Placed [' '] "WORD".toList none ([' '] ++ t) :=
    Mnemonic.placed_spaced hword (by decide)
  have hll : '\n' ∉ [' '] ++ ("LDA".toList ++ ([' '] ++ '=' :: t)) := by simpa using hn
  have hlw : '\n' ∉ [' '] ++ ("WORD".toList ++ ([' '] ++ t)) := by simpa using hn
  obtain ⟨o,operand,rest,_,ht,ho,_,rfl⟩ :=
    (parse_placed_iff hpl (gap_space (stops_cons.2 (by decide))) hll).1 h
  rw [hls] at ho
  obtain ⟨m,rfl,hext,body,index,rfl,hbody,_⟩ := ho
  obtain ⟨mode,target,indexed,extended⟩ := m
  obtain rfl : extended = false := hext
  cases mode with
  | immediate | indirect => cases ht
  | simple =>
    cases hbody with
    | value hv =>
      refine absurd ?_ (hv.head_ne (a := '=') (w := index ++ rest) (by decide) (by decide))
      rw [← List.append_assoc]
      exact congrArg List.head? ht.symm
    | @literal t' _ w _ hb =>
      obtain rfl : t = t' ++ (index ++ rest) := by
        rw [← List.append_assoc]
        exact (List.cons.inj ht).2
      obtain ⟨remark,hremark⟩ := exists_remarkWritten (index ++ rest)
      refine ⟨w,indexed,_,remark,rfl,(parse_placed_iff hpw (gap_space hs) hlw).2
        ⟨.data w,t',index ++ rest,remark,rfl,?_,hremark,rfl⟩⟩
      rw [hws]
      exact ⟨w,rfl,hb⟩

end Lines

end Reading

open Reading

/-- The three contexts of data agree on what they accept and on what they reject. A literal ends
before its index, so its remark may be another one. -/
theorem data_contexts_agree {t : Text} (hn : '\n' ∉ t) (hs : Stops isWhitespace t) :
    ∃ byte word load, Registry.ofSpelling? "BYTE".toList = some byte ∧
      Registry.ofSpelling? "WORD".toList = some word ∧
      Registry.ofSpelling? "LDA".toList = some load ∧
      ((∃ e, Program.parse (" BYTE ".toList ++ t) = .error e ∧
          Program.parse (" WORD ".toList ++ t) = .error e) ∨
        ∃ bytes w remark,
          Program.parse (" BYTE ".toList ++ t) =
            .ok [⟨.start,none,.instruction byte (.data bytes),remark⟩] ∧
          Program.parse (" WORD ".toList ++ t) =
            .ok [⟨.start,none,.instruction word (.data w),remark⟩] ∧ t.Places bytes w) ∧
      ∀ p, Program.parse (" LDA =".toList ++ t) = .ok p → ∃ w indexed remark remark',
        p = [⟨.start,none,.instruction load
          (.memory ⟨.simple,.literal w,indexed,false⟩),remark⟩] ∧
        Program.parse (" WORD ".toList ++ t) =
          .ok [⟨.start,none,.instruction word (.data w),remark'⟩] := by
  have hs := stops_isBlank hs
  obtain ⟨byte,hbyte,hbs⟩ := Option.map_eq_some_iff.1 (show
    (Registry.ofSpelling? "BYTE".toList).map Mnemonic.shape = some .storageByte by decide +kernel)
  obtain ⟨word,hword,hws⟩ := Option.map_eq_some_iff.1 (show
    (Registry.ofSpelling? "WORD".toList).map Mnemonic.shape = some .storageWord by decide +kernel)
  obtain ⟨load,hload,hls⟩ := Option.map_eq_some_iff.1 (show
    (Registry.ofSpelling? "LDA".toList).map Mnemonic.shape = some .format3Memory by decide +kernel)
  exact ⟨byte,word,load,hbyte,hword,hload,parse_storage hn hs hbyte hword hbs hws,
    fun p => parse_literal hn hs hword hload hws hls⟩

theorem data_contexts_agree_indexed : ∃ byte word remark,
    Program.parse " BYTE 0x1FF ,X it".toList =
      .ok [⟨.start,none,.instruction byte (.data [255]),remark⟩] ∧
    Program.parse " WORD 0x1FF ,X it".toList =
      .ok [⟨.start,none,.instruction word (.data [0,1,255]),remark⟩] := by
  obtain ⟨_,_,_,h⟩ := Program.exists_mnemonic " LDA =0x1FF ,X it".toList "LDA".toList
    .format3Memory
    (f := fun m => [⟨.start,none,.instruction m
      (.memory ⟨.simple,.literal [0,1,255],true,false⟩),some "it".toList⟩])
    (by decide +kernel) (by decide +kernel)
  obtain ⟨byte,word,_,_,_,_,hstorage,hliteral⟩ :=
    data_contexts_agree (t := "0x1FF ,X it".toList) (by decide) (by decide)
  obtain ⟨w,_,_,remark,hp,hw⟩ := hliteral _ h
  cases hp
  rcases hstorage with ⟨e,_,he⟩ | ⟨bytes,w',remark',hb,hw',hplaces⟩
  · rw [hw] at he
    cases he
  · rw [hw] at hw'
    cases hw'
    obtain ⟨_,low,hlow,rfl⟩ := hplaces.number rfl
    cases hlow
    exact ⟨byte,word,remark,hb,hw⟩

end SicXE
