import Mathlib.Data.List.Nodup
import SicXE.Proofs.NumberReading
import SicXE.Proofs.Statements

/-! # The two formats of a memory instruction

A memory instruction is written in format 3, or with a plus sign before it in format 4. Both formats
have the same operands and mean the same by them, except that an immediate number of format 3 has to
fit twelve bits. So the sign may be put before any instruction of format 3, and may be taken away
unless the number is too wide.
-/
namespace SicXE
open Text

namespace Registry

theorem nodup_spellings : (all.map Mnemonic.spelling).Nodup := by
  decide +kernel

/-- Every entry of the registry is found by its spelling. -/
theorem ofSpelling?_of_mem {m : Mnemonic} (h : m ∈ all) : ofSpelling? m.spelling = some m := by
  cases hfound : ofSpelling? m.spelling with
  | none =>
    have hne := List.find?_eq_none.1 hfound m h
    simp at hne
  | some m' =>
    obtain ⟨hmem,hspelling⟩ := mem_all_of_ofSpelling? hfound
    rw [List.inj_on_of_nodup_map nodup_spellings hmem h hspelling]

/-- Memory instructions are registered in both formats, and nothing else is in either. -/
theorem mem_all_formats {m : Mnemonic} (h : m ∈ all)
    (hs : m.shape = .format3Memory ∨ m.shape = .format4Memory) :
    { m with shape := .format3Memory } ∈ all ∧ { m with shape := .format4Memory } ∈ all := by
  have hother : ∀ m ∈ directives ++ storage ++ plainInstructions ++ registerInstructions,
      ¬(m.shape = .format3Memory ∨ m.shape = .format4Memory) := by decide
  obtain ⟨entry,hentry,hform⟩ :=
    List.mem_flatMap.1 ((List.mem_append.1 h).resolve_left fun h => hother m h hs)
  obtain ⟨op,pattern,description⟩ := entry
  have hforms : ∀ n ∈ memoryForms (op,pattern,description), n ∈ all := fun n hn =>
    List.mem_append_right _ (List.mem_flatMap.2 ⟨_,hentry,hn⟩)
  simp only [memoryForms,List.mem_cons,List.not_mem_nil,or_false] at hform hforms
  rcases hform with rfl | rfl
  · exact ⟨hforms _ (.inl rfl),hforms _ (.inr rfl)⟩
  · exact ⟨hforms _ (.inl rfl),hforms _ (.inr rfl)⟩

end Registry

section Limits
variable {t u : Text}

theorem Text.NumberWritten.within {lo hi limit n : Nat} (h : NumberWritten lo hi t n u)
    (hn : n ≤ limit) : NumberWritten lo limit t n u := by
  cases h with
  | intro ht hne hlo _ hu => exact .intro ht hne hlo hn hu

theorem Value.Written.within {limit limit' : Nat} {v : Value} (h : v.Written limit t u)
    (hn : ∀ n, v = .number n → n ≤ limit') : v.Written limit' t u := by
  cases h with
  | number hw => exact .number (hw.within (hn _ rfl))
  | symbol ht hu => exact .symbol ht hu
  | here => exact .here

theorem Target.Written.within {mode : Addressing} {limit limit' : Nat} {target : Target}
    (h : target.Written mode limit t u) (hn : ∀ n, target = .value (.number n) → n ≤ limit') :
    target.Written mode limit' t u := by
  cases h with
  | value hv => exact .value (hv.within fun n hv => hn n (congrArg Target.value hv))
  | literal hmode hd => exact .literal hmode hd

/-- Only the number of a memory operand depends on the format. -/
theorem MemoryOperand.Written.inFormat {extended extended' : Bool} {m : MemoryOperand}
    (h : m.Written extended t u) (hn : ∀ n, m.target = .value (.number n) →
      n ≤ { m with extended := extended' }.numberLimit) :
    { m with extended := extended' }.Written extended' t u := by
  obtain ⟨_,body,index,ht,hbody,hindex⟩ := h
  exact ⟨rfl,body,index,ht,hbody.within hn,hindex⟩

theorem MemoryOperand.numberLimit_le (m : MemoryOperand) : m.numberLimit ≤ 1048575 := by
  unfold numberLimit
  split
  · decide
  · exact Nat.le_refl _

theorem MemoryOperand.Written.number_le {extended : Bool} {m : MemoryOperand}
    (h : m.Written extended t u) {n : Nat} (hn : m.target = .value (.number n)) : n ≤ 1048575 := by
  have hfits := h.fits.1.target_fits
  rw [hn] at hfits
  exact Nat.le_trans hfits m.numberLimit_le

end Limits

section Signs
variable {before spelling word u : Text} {s : Option Symbol} {m : Mnemonic}

theorem Mnemonic.Placed.spelling_eq (h : m.Placed before spelling s u) :
    m ∈ Registry.all ∧ m.spelling = spelling :=
  Registry.mem_all_of_ofSpelling? h.written.registered

/-- The sign stands before the name of an operation, and only in format 4. -/
theorem Mnemonic.Placed.of_sign (h : m.Placed before ('+' :: word) s u) :
    m.shape = .format4Memory ∧ word = m.operation.name.toList := by
  obtain ⟨hmem,hspelling⟩ := h.spelling_eq
  rw [Mnemonic.spelling] at hspelling
  split at hspelling
  case isTrue hext =>
    refine ⟨?_,(List.cons.inj hspelling).2.symm⟩
    cases hshape : m.shape with
    | format4Memory => rfl
    | _ =>
      rw [hshape] at hext
      cases hext
  case isFalse =>
    have hname := (isWord_operation_name m hmem).head
    rw [List.nil_append] at hspelling
    rw [hspelling] at hname
    have hplus : isAlphabetic '+' := hname
    exact absurd hplus (by decide)

/-- An instruction of format 3 may be signed. -/
theorem Mnemonic.Placed.signed (h : m.Placed before spelling s u)
    (hshape : m.shape = .format3Memory) :
    { m with shape := .format4Memory }.Placed before ('+' :: spelling) s u := by
  obtain ⟨hmem,hspelling⟩ := h.spelling_eq
  have hfound := Registry.ofSpelling?_of_mem (Registry.mem_all_formats hmem (.inl hshape)).2
  have hname : spelling = m.operation.name.toList := by
    rw [← hspelling,Mnemonic.spelling,hshape]
    rfl
  obtain ⟨label,gap,rfl,hlabel,hgap,hm⟩ := h
  have hword : ∀ a ∈ spelling, isSymbolChar a := by
    rw [hname]
    exact (isWord_operation_name m hmem).symbolic
  refine ⟨label,gap,rfl,hlabel.replace (by decide),⟨hgap.blank,stops_cons.2 (by decide)⟩,?_⟩
  refine ⟨?_,⟨spelling,.inr rfl,hword⟩,hm.stops⟩
  rw [← hfound,hname]
  rfl

/-- The sign of an instruction of format 4 may become a part of the gap. -/
theorem Mnemonic.Placed.unsigned (h : m.Placed before ('+' :: word) s u) :
    { m with shape := .format3Memory }.Placed (before ++ [' ']) word s u := by
  obtain ⟨hshape,rfl⟩ := h.of_sign
  have hmem := h.spelling_eq.1
  have hfound := Registry.ofSpelling?_of_mem (Registry.mem_all_formats hmem (.inr hshape)).1
  obtain ⟨label,gap,rfl,hlabel,hgap,hm⟩ := h
  have hword := isWord_operation_name m hmem
  refine ⟨label,gap ++ [' '],by simp,?_,⟨?_,hword.stops_isBlank⟩,hfound,
    ⟨_,.inl rfl,hword.symbolic⟩,hm.stops⟩
  · rw [List.append_assoc]
    exact hlabel.replace (by decide)
  · intro b hb
    rcases List.mem_append.1 hb with hb | hb
    · exact hgap.blank b hb
    · rw [List.mem_singleton.1 hb]
      decide

end Signs

namespace Reading
open Scan

variable {t u : Text} {p : Position} {n : Nat}

/-- A number that is too wide for its bounds is reported as it is. -/
theorem run_number_wide {lo hi limit : Nat} (h : NumberWritten lo limit t n u) (hhi : hi < n)
    (hlimit : limit < capacity 32) : (number lo hi).run ⟨t ++ u,p⟩ =
      .error ⟨.outOfRange (decimal n) lo hi,p⟩ ⟨u,p.past t⟩ := by
  cases h with
  | @intro ds _ radix ht hne _ hle hu =>
    have hn : numeral radix ds < 2 ^ 32 := Nat.lt_of_le_of_lt hle hlimit
    have hbounded : bounded lo hi radix ds =
        .error (.outOfRange (decimal (numeral radix ds)) lo hi) := by
      rw [bounded_of_out (Nat.lt_trans hhi hn) hne fun hb => Nat.not_lt.2 hb.2 hhi,if_pos hn]
    refine (run_bind_of_ok (x := here) rfl).trans ?_
    refine (run_bind_of_ok ((reads_numeral ht hu).run p)).trans ?_
    refine (run_bind_of_ok (x := peek) (a := u.head?) rfl).trans ?_
    rw [filter_eq_none_of_stops hu]
    dsimp only
    rw [hbounded]
    rfl

theorem run_value_wide {limit limit' : Nat} (h : NumberWritten 0 limit t n u) (hn : limit' < n)
    (hlimit : limit < capacity 32) : (value limit').run ⟨t ++ u,p⟩ =
      .error ⟨.outOfRange (decimal n) 0 limit',p⟩ ⟨u,p.past t⟩ := by
  obtain ⟨a,ha,hdigit⟩ := Option.any_eq_true .. |>.1 (h.head_append (v := u))
  have hpeek : peek.run ⟨t ++ u,p⟩ = .ok (some a) ⟨t ++ u,p⟩ := by
    rw [← ha]
    rfl
  refine (run_bind_of_ok hpeek).trans ?_
  dsimp only
  rw [if_pos hdigit,run_bind_of_error (run_number_wide h hn hlimit)]

/-- An immediate number beyond twelve bits is no operand of format 3. -/
theorem run_operand_wide {m : MemoryOperand} (h : m.Written true t u)
    (hmode : m.addressing = .immediate) (htarget : m.target = .value (.number n)) (hn : 4095 < n) :
    ∃ v d, t = '#' :: v ∧ (operand .format3Memory).run ⟨t ++ u,p⟩ =
      .error ⟨.outOfRange (decimal n) 0 4095,p.along 1⟩ d := by
  obtain ⟨_,body,index,rfl,hbody,_⟩ := h
  rw [htarget] at hbody
  rw [hmode,List.append_assoc,List.append_assoc]
  cases hbody with
  | value hv =>
    cases hv with
    | number hw =>
      have hmark := (accepts_addressing.reads (u := body ++ (index ++ u))
        ⟨rfl,nofun⟩ : Reads addressing ['#'] .immediate _).run p
      have hvalue : (value (memoryLimit .immediate false)).run ⟨body ++ (index ++ u),p.along 1⟩ =
          .error ⟨.outOfRange (decimal n) 0 4095,p.along 1⟩ ⟨index ++ u,(p.along 1).past body⟩ :=
        run_value_wide hw hn (Nat.lt_of_le_of_lt m.numberLimit_le (by decide))
      have htarget : (target .immediate false).run ⟨body ++ (index ++ u),p.along 1⟩ =
          .error ⟨.outOfRange (decimal n) 0 4095,p.along 1⟩ ⟨index ++ u,(p.along 1).past body⟩ := by
        rw [target,if_neg (by decide)]
        exact run_bind_of_error hvalue
      exact ⟨body ++ index,⟨index ++ u,(p.along 1).past body⟩,rfl,
        run_bind_of_error ((run_bind_of_ok hmark).trans (run_bind_of_error htarget))⟩

/-- The bounds of format 3 in the words of a message. -/
theorem message_wide (n : Nat) : (Fault.outOfRange (decimal n) 0 4095).message =
    s!"Number '{n}' out of range [0..4095]" := by
  have hbounds : "' out of range [" ++ (toString 0 ++ (".." ++ (toString 4095 ++ "]"))) =
      "' out of range [0..4095]" := by decide
  rw [Fault.message_outOfRange]
  change "Number '" ++ toString n ++ "' out of range [" ++ toString 0 ++ ".." ++ toString 4095 ++
    "]" = _
  simp only [String.append_assoc,hbounds]
  rfl

section Lines
variable {before spelling word : Text} {s : Option Symbol} {m : Mnemonic} {o : Operand}
  {mo : MemoryOperand} {location : Position} {remark : Option Text}

/-- An accepted line of either format, at the gap behind its mnemonic. -/
theorem exists_memoryOperand (extended : Bool) (hm : m.Placed before spelling s u)
    (hshape : m.shape = if extended then .format4Memory else .format3Memory)
    (hl : '\n' ∉ before ++ (spelling ++ u))
    (h : Program.parse (before ++ (spelling ++ u)) =
      .ok [⟨location,s,.instruction m o,remark⟩]) :
    ∃ gap operand rest mo, u = gap ++ (operand ++ rest) ∧ Gap gap (operand ++ rest) ∧
      mo.Written extended operand rest ∧ location = .start ∧ o = .memory mo ∧
      RemarkWritten rest remark := by
  obtain ⟨gap,t,rfl,hg⟩ := exists_gap u
  obtain ⟨o',operand,rest,_,rfl,ho,hremark,hp⟩ := (parse_placed_iff hm hg hl).1 h
  cases hp
  rw [hshape] at ho
  cases extended with
  | false | true =>
    obtain ⟨mo,rfl,hw⟩ := ho
    exact ⟨gap,operand,rest,mo,rfl,hg,hw,rfl,rfl,hremark⟩

/-- With a sign before its mnemonic an instruction has its operand in format 4. -/
theorem parse_signed (hm : m.Placed before spelling s u) (hshape : m.shape = .format3Memory)
    (hl : '\n' ∉ before ++ (spelling ++ u))
    (h : Program.parse (before ++ (spelling ++ u)) =
      .ok [⟨location,s,.instruction m o,remark⟩]) :
    ∃ mo, o = .memory mo ∧ mo.extended = false ∧
      Program.parse (before ++ '+' :: (spelling ++ u)) =
        .ok [⟨location,s,.instruction { m with shape := .format4Memory }
          (.memory { mo with extended := true }),remark⟩] := by
  obtain ⟨gap,operand,rest,mo,rfl,hg,hw,rfl,rfl,hremark⟩ :=
    exists_memoryOperand false hm hshape hl h
  refine ⟨mo,rfl,hw.extended_eq,?_⟩
  have hlimit : { mo with extended := true }.numberLimit = 1048575 := if_neg fun h => nomatch h.2
  have hfits : ∀ n, mo.target = .value (.number n) → n ≤ { mo with extended := true }.numberLimit :=
    fun n hn => hlimit ▸ hw.number_le hn
  exact (parse_placed_iff (hm.signed hshape) hg (by simpa using hl)).2
    ⟨_,operand,rest,remark,rfl,⟨_,rfl,hw.inFormat hfits⟩,hremark,rfl⟩

/-- Without its sign an instruction has its operand in format 3, if the number fits. -/
theorem parse_unsigned (hm : m.Placed before ('+' :: word) s u)
    (hl : '\n' ∉ before ++ '+' :: (word ++ u))
    (h : Program.parse (before ++ '+' :: (word ++ u)) =
      .ok [⟨location,s,.instruction m o,remark⟩]) :
    ∃ mo, o = .memory mo ∧ mo.extended = true ∧
      ((mo.addressing = .immediate → ∀ n, mo.target = .value (.number n) → n ≤ 4095) →
        Program.parse (before ++ ' ' :: (word ++ u)) =
          .ok [⟨location,s,.instruction { m with shape := .format3Memory }
            (.memory { mo with extended := false }),remark⟩]) ∧
      ∀ n, mo.addressing = .immediate → mo.target = .value (.number n) → 4095 < n →
        ∃ gap v e, u = gap ++ '#' :: v ∧ (∀ a ∈ gap, isBlank a) ∧
          Program.parse (before ++ ' ' :: (word ++ u)) = .error e ∧
          e.fault = .outOfRange (decimal n) 0 4095 ∧
          e.message = s!"Number '{n}' out of range [0..4095]" ∧
          e.location = Position.start.past (before ++ ' ' :: (word ++ (gap ++ ['#']))) := by
  obtain ⟨gap,operand,rest,mo,rfl,hg,hw,rfl,rfl,hremark⟩ :=
    exists_memoryOperand true hm hm.of_sign.1 hl h
  have hm' := hm.unsigned
  have hl' : '\n' ∉ before ++ [' '] ++ (word ++ (gap ++ (operand ++ rest))) := by
    simpa using hl
  have hline : before ++ [' '] ++ (word ++ (gap ++ (operand ++ rest))) =
      before ++ ' ' :: (word ++ (gap ++ (operand ++ rest))) := by simp
  refine ⟨mo,rfl,hw.extended_eq,fun hfits => ?_,fun n hmode htarget hn => ?_⟩
  · rw [← hline]
    refine (parse_placed_iff hm' hg hl').2
      ⟨_,operand,rest,remark,rfl,⟨_,rfl,hw.inFormat ?_⟩,hremark,rfl⟩
    intro n hn
    unfold MemoryOperand.numberLimit
    split
    case isTrue hmode => exact hfits hmode.1 n hn
    case isFalse => exact hw.number_le hn
  · obtain ⟨v,d,rfl,hrun⟩ := run_operand_wide hw hmode htarget hn
      (p := Position.start.past (before ++ [' '] ++ (word ++ gap)))
    have hpast : (Position.start.past (before ++ [' '] ++ (word ++ gap))).along 1 =
        Position.start.past (before ++ ' ' :: (word ++ (gap ++ ['#']))) := by
      refine (Position.past_append _ _ ['#']).symm.trans (congrArg _ ?_)
      simp
    rw [hpast] at hrun
    refine ⟨gap,v ++ rest,⟨.outOfRange (decimal n) 0 4095,_⟩,rfl,hg.blank,?_,rfl,message_wide n,rfl⟩
    rw [← hline]
    exact parse_placed_of_error hm' hg hl' hrun

end Lines

end Reading

open Reading

/-- Both formats accept the same memory instructions and read the same in them, except for an
immediate number of more than twelve bits, which format 3 rejects. -/
theorem formats_agree {l : Text} {s : Option Symbol} {m : Mnemonic} {o : Operand}
    {location : Position} {remark : Option Text} (hl : '\n' ∉ l)
    (h : Program.parse l = .ok [⟨location,s,.instruction m o,remark⟩]) :
    (∃ before spelling u, l = before ++ (spelling ++ u) ∧ m.Placed before spelling s u) ∧
    ∀ {before spelling u : Text}, l = before ++ (spelling ++ u) → m.Placed before spelling s u →
      (m.shape = .format3Memory →
        Registry.ofSpelling? ('+' :: spelling) = some { m with shape := .format4Memory } ∧
        ∃ mo, o = .memory mo ∧ mo.extended = false ∧
          Program.parse (before ++ '+' :: (spelling ++ u)) =
            .ok [⟨location,s,.instruction { m with shape := .format4Memory }
              (.memory { mo with extended := true }),remark⟩]) ∧
      ∀ word, spelling = '+' :: word →
        Registry.ofSpelling? word = some { m with shape := .format3Memory } ∧
        ∃ mo, o = .memory mo ∧ mo.extended = true ∧
          ((mo.addressing = .immediate → ∀ n, mo.target = .value (.number n) → n ≤ 4095) →
            Program.parse (before ++ ' ' :: (word ++ u)) =
              .ok [⟨location,s,.instruction { m with shape := .format3Memory }
                (.memory { mo with extended := false }),remark⟩]) ∧
          ∀ n, mo.addressing = .immediate → mo.target = .value (.number n) → 4095 < n →
            ∃ gap v e, u = gap ++ '#' :: v ∧ (∀ a ∈ gap, isBlank a) ∧
              Program.parse (before ++ ' ' :: (word ++ u)) = .error e ∧
              e.fault = .outOfRange (decimal n) 0 4095 ∧
              e.message = s!"Number '{n}' out of range [0..4095]" ∧
              e.location = Position.start.past (before ++ ' ' :: (word ++ (gap ++ ['#']))) := by
  refine ⟨exists_placed hl h,?_⟩
  rintro before spelling u rfl hm
  constructor
  · intro hshape
    exact ⟨(hm.signed hshape).written.registered,parse_signed hm hshape hl h⟩
  · rintro word rfl
    exact ⟨hm.unsigned.written.registered,parse_unsigned hm hl h⟩

/-- A wide number behind a sign that is glued to its label. -/
theorem formats_agree_wide : ∃ m, Registry.ofSpelling? "+COMP".toList = some m ∧
    Program.parse "L+COMP#0x1000 it".toList = .ok [⟨.start,some ⟨['L']⟩,.instruction m
      (.memory ⟨.immediate,.value (.number 4096),false,true⟩),some "it".toList⟩] ∧
    ∃ e, Program.parse "L COMP#0x1000 it".toList = .error e ∧
      e.message = "Number '4096' out of range [0..4095]" ∧ e.location = ⟨1,8⟩ := by
  obtain ⟨m,hm,_,h⟩ := Program.exists_mnemonic "L+COMP#0x1000 it".toList "+COMP".toList
    .format4Memory
    (f := fun m => [⟨.start,some ⟨['L']⟩,.instruction m
      (.memory ⟨.immediate,.value (.number 4096),false,true⟩),some "it".toList⟩])
    (by decide +kernel) (by decide +kernel)
  have hplaced : m.Placed ['L'] ('+' :: "COMP".toList) (some ⟨['L']⟩) "#0x1000 it".toList :=
    ⟨['L'],[],rfl,.label (by decide) (by decide),⟨nofun,by decide⟩,hm,
      ⟨"COMP".toList,.inr rfl,List.all_eq_true.1 (by decide)⟩,by decide⟩
  obtain ⟨_,mo,hmo,_,_,hwide⟩ := ((formats_agree (by decide) h).2 rfl hplaced).2 _ rfl
  cases hmo
  obtain ⟨gap,v,e,hu,hgap,herror,_,hmessage,hlocation⟩ := hwide 4096 rfl rfl (by decide)
  cases gap with
  | cons a gap =>
    have ha := hgap a List.mem_cons_self
    rw [← (List.cons.inj hu).1] at ha
    exact absurd ha (by decide)
  | nil => exact ⟨m,hm,h,e,herror,hmessage.trans (by decide),hlocation⟩

end SicXE
