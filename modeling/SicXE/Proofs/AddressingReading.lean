import SicXE.Proofs.AcceptedOperands

/-! # Addressing expressions are read exactly

An addressing expression is the mark of its mode, what is addressed, a gap, and perhaps an index.
Nothing else is read as a memory operand: a comma behind the gap has to start an index, and a
literal has no mark before it.
-/
namespace SicXE
open Text

/-- The index of a memory operand behind the gap, or the lack of it. -/
inductive Text.SuffixWritten : Text → Bool → Text → Prop where
  | indexed {between u : Text} : (∀ a ∈ between, isBlank a) →
      SuffixWritten (',' :: (between ++ ['X'])) true u
  | unindexed {u : Text} : u.head? ≠ some ',' → SuffixWritten [] false u

variable {t u : Text} {m : MemoryOperand}

theorem Text.indexWritten_iff {indexed : Bool} : IndexWritten t indexed u ↔
    ∃ gap index, t = gap ++ index ∧ Gap gap (index ++ u) ∧ SuffixWritten index indexed u := by
  constructor
  · intro h
    cases h with
    | indexed hbefore hbetween =>
      exact ⟨_,_,rfl,⟨hbefore,stops_cons.2 (by decide)⟩,.indexed hbetween⟩
    | unindexed hg hc => exact ⟨t,[],(List.append_nil t).symm,hg,.unindexed hc⟩
  · rintro ⟨gap,index,rfl,hg,hindex⟩
    cases hindex with
    | indexed hbetween => exact .indexed hg.blank hbetween
    | unindexed hc =>
      rw [List.append_nil]
      exact .unindexed hg hc

/-- A memory operand falls apart into four texts. -/
theorem MemoryOperand.written_iff {extended : Bool} : m.Written extended t u ↔
    m.extended = extended ∧ ∃ body gap index : Text,
      t = m.addressing.mark ++ (body ++ (gap ++ index)) ∧
      m.target.Written m.addressing m.numberLimit body (gap ++ (index ++ u)) ∧
      Gap gap (index ++ u) ∧ SuffixWritten index m.indexed u := by
  constructor
  · rintro ⟨hext,body,suffix,rfl,hbody,hsuffix⟩
    obtain ⟨gap,index,rfl,hg,hindex⟩ := indexWritten_iff.1 hsuffix
    rw [List.append_assoc] at hbody
    exact ⟨hext,body,gap,index,rfl,hbody,hg,hindex⟩
  · rintro ⟨hext,body,gap,index,rfl,hbody,hg,hindex⟩
    rw [← List.append_assoc] at hbody
    exact ⟨hext,body,gap ++ index,rfl,hbody,indexWritten_iff.2 ⟨gap,index,rfl,hg,hindex⟩⟩

namespace Reading
open Scan

variable {c d : Cursor} {p : Position}

/-- A value starts with a digit, the star or the first character of a symbol. -/
theorem run_value_missing {limit : Nat} {a : Char} (hdigit : a.isDigit = false) (hstar : a ≠ '*')
    (hsymbol : isSymbolStart a = false) :
    (value limit).run ⟨a :: u,p⟩ = .error ⟨.valueExpected,p⟩ ⟨a :: u,p⟩ := by
  refine (run_bind_of_ok (x := peek) (a := some a) rfl).trans ?_
  dsimp only
  rw [if_neg (ne_true_of_eq_false hdigit),if_neg hstar,if_neg (ne_true_of_eq_false hsymbol)]
  rfl

/-- Behind the mark of a mode there is no literal. -/
theorem run_memoryOperand_marked {extended : Bool} {mode : Addressing} (hmode : mode ≠ .simple) :
    (memoryOperand extended).run ⟨mode.mark ++ '=' :: u,p⟩ =
      .error ⟨.valueExpected,p.along 1⟩ ⟨'=' :: u,p.along 1⟩ := by
  have hmark := (accepts_addressing.reads (u := '=' :: u)
    ⟨rfl,fun h => absurd h hmode⟩ : Reads addressing mode.mark mode ('=' :: u)).run p
  have hpast : p.past mode.mark = p.along 1 := by
    cases mode with
    | simple => exact absurd rfl hmode
    | immediate | indirect => rfl
  have hvalue : (value (memoryLimit mode extended)).run ⟨'=' :: u,p.along 1⟩ =
      .error ⟨.valueExpected,p.along 1⟩ ⟨'=' :: u,p.along 1⟩ :=
    run_value_missing (by decide) (by decide) (by decide)
  rw [hpast] at hmark
  rw [memoryOperand,run_bind_of_ok hmark,target,if_neg hmode,EStateM.run_bind,EStateM.run_bind,
    hvalue]

/-- A memory operand is read exactly where an addressing expression stands, and up to its end. A
literal behind a mark is rejected at its sign. -/
theorem memoryOperand_exact (extended : Bool) (c : Cursor) :
    (∀ m d, (memoryOperand extended).run c = .ok m d ↔ m.extended = extended ∧
      ∃ body gap index : Text,
        c.rest = m.addressing.mark ++ (body ++ (gap ++ (index ++ d.rest))) ∧
        d.pos = c.pos.past (m.addressing.mark ++ (body ++ (gap ++ index))) ∧
        m.target.Written m.addressing m.numberLimit body (gap ++ (index ++ d.rest)) ∧
        Gap gap (index ++ d.rest) ∧ SuffixWritten index m.indexed d.rest) ∧
    ∀ (mode : Addressing) (u : Text), mode ≠ .simple → c.rest = mode.mark ++ '=' :: u →
      ∃ d, (memoryOperand extended).run c = .error ⟨.valueExpected,c.pos.along 1⟩ d := by
  constructor
  · intro m d
    rw [(accepts_memoryOperand extended).run_eq_ok_iff]
    constructor
    · rintro ⟨t,hrest,hpos,hw⟩
      obtain ⟨hext,body,gap,index,rfl,hbody,hg,hindex⟩ := MemoryOperand.written_iff.1 hw
      exact ⟨hext,body,gap,index,by simpa using hrest,hpos,hbody,hg,hindex⟩
    · rintro ⟨hext,body,gap,index,hrest,hpos,hbody,hg,hindex⟩
      exact ⟨_,by simpa using hrest,hpos,
        MemoryOperand.written_iff.2 ⟨hext,body,gap,index,rfl,hbody,hg,hindex⟩⟩
  · intro mode u hmode hrest
    obtain ⟨rest,pos⟩ := c
    obtain rfl : rest = mode.mark ++ '=' :: u := hrest
    exact ⟨_,run_memoryOperand_marked hmode⟩

theorem memoryOperand_exact_immediate :
    (memoryOperand false).run ⟨"#0x0fFf ,\tX1".toList,⟨2,9⟩⟩ =
      .ok ⟨.immediate,.value (.number 4095),true,false⟩ ⟨['1'],⟨2,20⟩⟩ ∧
    ∃ d, (memoryOperand true).run ⟨"@=C'@' it".toList,⟨3,1⟩⟩ = .error ⟨.valueExpected,⟨3,2⟩⟩ d := by
  constructor
  · have hn : NumberWritten 0 4095 "0x0fFf".toList 4095 " ,\tX1".toList :=
      .intro (@Numeral.marked 'x' 16 "0fFf".toList (by decide)
        (List.all_eq_true.1 (by decide))) (by decide) (by decide) (by decide) (by decide)
    have hg : Gap [' '] ",\tX1".toList := ⟨List.all_eq_true.1 (by decide),by decide⟩
    have hindex : SuffixWritten ",\tX".toList true ['1'] :=
      @SuffixWritten.indexed ['\t'] ['1'] (List.all_eq_true.1 (by decide))
    exact ((memoryOperand_exact false _).1 _ _).2
      ⟨rfl,"0x0fFf".toList,[' '],",\tX".toList,rfl,rfl,.value (.number hn),hg,hindex⟩
  · exact (memoryOperand_exact true ⟨"@=C'@' it".toList,⟨3,1⟩⟩).2 .indirect "C'@' it".toList
      (by decide) rfl

end Reading
end SicXE
