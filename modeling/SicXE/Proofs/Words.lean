import SicXE.Proofs.Grammar
import SicXE.Proofs.Numerals
import SicXE.Proofs.Reads
import SicXE.Reading.Number

/-! # Reading words

Mnemonics, registers and decimal digits are read where they stand. Words have no end mark, so what
follows them must not be a symbol character; a register may be followed by anything.
-/
namespace SicXE
open Text

/-- The name of an operation is a word, so its end is found without a separator. -/
theorem isWord_operation_name :
    ∀ m ∈ Registry.all, IsWord isAlphabetic m.operation.name.toList := by
  decide +kernel

theorem Mnemonic.visible_spelling {m : Mnemonic}
    (h : Registry.ofSpelling? m.spelling = some m) : ∀ a ∈ m.spelling, isWhitespace a = false := by
  have hw := isWord_operation_name m (Registry.mem_all_of_ofSpelling? h).1
  intro a ha
  rcases List.mem_append.1 ha with ha | ha
  · cases he : m.shape.isExtended with
    | true =>
      rw [he,if_pos rfl,List.mem_singleton] at ha
      rw [ha]
      decide
    | false => simp [he] at ha
  · exact isWhitespace_of_isSymbolChar (hw.symbolic a ha)

theorem Mnemonic.spelling_ne_nil {m : Mnemonic}
    (h : Registry.ofSpelling? m.spelling = some m) : m.spelling ≠ [] := by
  have hw := isWord_operation_name m (Registry.mem_all_of_ofSpelling? h).1
  intro hs
  have hn := (List.append_eq_nil_iff.1 hs).2
  have hh := hw.head
  rw [hn] at hh
  cases hh

theorem Mnemonic.Written.visible {t u : Text} {m : Mnemonic} (h : m.Written t u) :
    t ≠ [] ∧ ∀ a ∈ t, isWhitespace a = false := by
  obtain ⟨_,rfl⟩ := Registry.mem_all_of_ofSpelling? h.registered
  exact ⟨m.spelling_ne_nil h.registered,m.visible_spelling h.registered⟩

namespace Reading
open Scan

variable {u : Text}

theorem reads_mnemonic {m : Mnemonic} (h : Registry.ofSpelling? m.spelling = some m)
    (hu : Stops isSymbolChar u) : Reads mnemonic m.spelling m u := by
  have hw := isWord_operation_name m (Registry.mem_all_of_ofSpelling? h).1
  have hname : Reads readSymbol m.operation.name.toList m.operation.name.toList u :=
    reads_readWhile hw.symbolic hu
  refine Reads.located fun p => ?_
  unfold Mnemonic.spelling at h ⊢
  cases he : m.shape.isExtended with
  | true =>
    rw [he] at h
    refine (reads_advanceIf '+' _).bind (hname.bind_last ?_)
    dsimp only
    rw [h]
    exact Reads.pure m u
  | false =>
    rw [he] at h
    refine (reads_advanceIf_ne ?_).look (hname.bind_last ?_)
    · intro hp
      obtain ⟨a,ha,hf⟩ := Option.any_eq_true .. |>.1 hw.head
      rw [if_neg Bool.false_ne_true,List.nil_append,List.head?_append,ha] at hp
      cases hp
      revert hf
      decide
    · dsimp only
      rw [h]
      exact Reads.pure m u

/-- Each register that may be an operand has a name of one letter, which no other has. -/
theorem exists_operand_letter {r : Register} (hr : r ∈ Register.operands) :
    ∃ a, r.name = [a] ∧ a ≠ '\n' ∧ Register.ofLetter? a = some r := by
  simp only [Register.operands,List.mem_cons,List.not_mem_nil,or_false] at hr
  rcases hr with rfl | rfl | rfl | rfl | rfl | rfl | rfl <;> exact ⟨_,rfl,by decide,rfl⟩

theorem reads_register {r : Register} (hr : r ∈ Register.operands) (u : Text) :
    Reads register r.name r u := by
  obtain ⟨a,hn,ha,hl⟩ := exists_operand_letter hr
  rw [hn]
  refine Reads.located fun p => (reads_next ha u).bind_last ?_
  dsimp only
  rw [hl]
  exact Reads.pure r u

section Numbers

theorem radixOfLetter_eq_none {a : Char} (h : a.isDigit ∨ isSymbolChar a = false) :
    radixOfLetter a = none := by
  unfold radixOfLetter
  split
  case h_4 => rfl
  all_goals
    revert h
    decide

theorem announcedRadix_eq_none {t : Text} (h : ∀ a, t[1]? = some a → radixOfLetter a = none) :
    announcedRadix t = none := by
  unfold announcedRadix
  split
  · exact h _ rfl
  · rfl

/-- No radix is announced by decimal digits: the character behind the first one is a digit too
or ends the word. -/
theorem announcedRadix_digits {ds : Text} (hne : ds ≠ []) (hd : ∀ a ∈ ds, a.isDigit)
    (hu : Stops isSymbolChar u) : announcedRadix (ds ++ u) = none := by
  refine announcedRadix_eq_none fun a ha => radixOfLetter_eq_none ?_
  match ds,hne with
  | [b],_ =>
    right
    refine hu a ?_
    rw [List.head?_eq_getElem?]
    exact ha
  | b :: c :: rest,_ =>
    left
    cases ha
    exact hd _ (List.mem_cons_of_mem _ List.mem_cons_self)

theorem reads_digits {ds : Text} (hne : ds ≠ []) (hd : ∀ a ∈ ds, a.isDigit)
    (hu : Stops isSymbolChar u) : Reads digits ds (10,ds) u := by
  have ht : ∀ a ∈ ds, isDigitOf 10 a := fun a ha => (isDigitOf_ten a).trans (hd a ha)
  have hs : Stops (isDigitOf 10) u := by
    intro a ha
    cases hda : a.isDigit with
    | false => rw [isDigitOf_ten,hda]
    | true =>
      have hsym := isSymbolChar_of_isDigit hda
      rw [hu a ha] at hsym
      cases hsym
  have hat : (ds ++ u).head?.any Char.isDigit = true := by
    obtain ⟨a,rest,rfl⟩ := List.exists_cons_of_ne_nil hne
    exact hd a List.mem_cons_self
  have hr : Reads (do if ← atDigit then return (10,← readDigits 10) else fail .numberExpected)
      ds (10,ds) u :=
    (reads_atDigit _).look (Reads.ite_pos hat ((reads_readWhile ht hs).bind_pure fun b => (10,b)))
  refine Reads.get fun p => ?_
  rw [announcedRadix_digits hne hd hu]
  exact hr

end Numbers

end Reading
end SicXE
