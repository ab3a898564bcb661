import SicXE.Proofs.NumberReading
import SicXE.Proofs.Trailing

/-! # Faults of a line with a blank behind it

Every part of a line is followed to the blank behind the line. Where blanks are skipped first the
blank makes no difference, and where a class of characters is read it does not belong to the class.
The mark of a radix needs a letter, so a number ends before the blank in the same way.
-/
namespace SicXE
open Text

namespace Reading
open Cursor Scan

variable {b : Char} {l : Text}

section Tokens

theorem follows_label (hb : isBlank b) :
    Follows b l (fun c c' => Near b l c c' ∧ c'.atStartOfLine = c.atStartOfLine) (Near b l)
      label label := by
  rintro c c' ⟨hc,hstart⟩
  rw [run_label,run_label,hstart,hc.any_peek (isAlphabetic_of_isBlank hb),
    hc.takeWhile (isSymbolChar_of_isBlank hb)]
  split
  · exact .ok (hc.dropWhile (isSymbolChar_of_isBlank hb))
  · exact .ok hc

theorem follows_symbol (hb : isBlank b) : Follows b l (Near b l) (Near b l) symbol symbol :=
  (follows_readWhile (isSymbolChar_of_isBlank hb)).bind_pure _

theorem mem_of_getLast?_append {v t : Text} {a : Char} (ht : t ≠ [])
    (h : (v ++ t).getLast? = some a) : a ∈ t := by
  rw [List.getLast?_append,List.getLast?_eq_some_getLast ht,Option.some_or] at h
  rw [← Option.some.inj h]
  exact List.getLast_mem ht

/-- A mnemonic does not end with the sign of a literal operand. -/
theorem clear_of_mnemonic {c c' d : Cursor} {m : Mnemonic} (hc : Near b l c c')
    (h : mnemonic.run c = .ok m d) : Clear l d := by
  intro hd hlast
  obtain ⟨t,ht,hw⟩ := accepts_mnemonic.gives h
  have hpeek : c.peek = (t ++ d.rest).head? := congrArg List.head? ht
  obtain ⟨a,w,rfl⟩ := List.exists_cons_of_ne_nil hw.visible.1
  obtain ⟨⟨v,hv⟩,_⟩ := hc.beside_of_peek hpeek
  rw [hv,ht,hd,List.append_nil] at hlast
  have hmem := mem_of_getLast?_append hw.visible.1 hlast
  obtain ⟨word,hword,hsym⟩ := hw.spelled
  have hsign : '=' ∉ word := fun h => by
    have hfalse : isSymbolChar '=' = false := by decide
    rw [hsym '=' h] at hfalse
    cases hfalse
  rcases hword with hword | hword
  · exact hsign (hword ▸ hmem)
  · rw [hword] at hmem
    rcases List.mem_cons.1 hmem with h | h
    · cases h
    · exact hsign h

theorem follows_mnemonic (hb : isBlank b) :
    Follows b l (Near b l) (fun d d' => Near b l d d' ∧ Clear l d) mnemonic mnemonic := by
  refine Follows.and ?_ clear_of_mnemonic
  refine Follows.located fun p p' => (follows_advanceIf (ne_of_isBlank hb rfl)).bind fun _ => ?_
  refine (follows_readWhile (isSymbolChar_of_isBlank hb)).bind fun _ => ?_
  dsimp only
  split
  · exact .pure _
  · exact follows_failAt rfl

theorem follows_register (hl : '\n' ∉ l) :
    Follows b l (Level b l) (Near b l) register register := by
  refine Follows.located fun p p' => (follows_next hl).bind fun letter => ?_
  cases letter with
  | none => exact follows_failAt rfl
  | some letter =>
    dsimp only
    split
    · exact .pure _
    · exact follows_failAt rfl

theorem follows_comma (hb : isBlank b) : Follows b l (Near b l) (Level b l) comma comma :=
  (follows_skipBlanks hb).bind fun _ =>
    (follows_expect (ne_of_isBlank hb rfl) (by decide)).bind fun _ =>
      (follows_skipBlanks hb).bind_pure _

theorem follows_indexed (hb : isBlank b) : Follows b l (Near b l) (Near b l) indexed indexed := by
  refine (follows_skipBlanks hb).bind fun _ => ?_
  refine Follows.branch (ne_of_isBlank hb rfl) Level.near ?_ ((Follows.pure _).from Level.near)
  refine (follows_skipBlanks hb).from (fun h => .beside h.1) |>.bind fun _ => ?_
  exact (follows_expect (ne_of_isBlank hb rfl) (by decide)).bind_pure _

end Tokens

/-- What an operand is read from: blanks have been skipped behind a mnemonic. -/
abbrev AtOperand (b : Char) (l : Text) (c c' : Cursor) : Prop := Level b l c c' ∧ Clear l c

theorem follows_skipBlanks_clear (hb : isBlank b) :
    Follows b l (fun c c' => Near b l c c' ∧ Clear l c) (AtOperand b l) skipBlanks skipBlanks := by
  refine ((follows_skipBlanks hb).from And.left).and fun {c c' ended d} hc h hd => ?_
  rw [run_skipBlanks] at h
  cases h
  by_cases hnil : c.rest = []
  · exact hc.2 hnil
  · obtain ⟨a,ha⟩ := Option.isSome_iff_exists.1 (List.isSome_head?.2 hnil)
    obtain ⟨⟨v,hv⟩,_⟩ := hc.1.beside_of_peek ha
    intro hlast
    rw [hv] at hlast
    have hblank : isBlank '=' := by
      have hmem := mem_of_getLast?_append hnil hlast
      have hall : c.rest.takeWhile isBlank = c.rest := by
        have hsplit := List.takeWhile_append_dropWhile (p := isBlank) (l := c.rest)
        have hdrop : c.rest.dropWhile isBlank = [] := hd
        rwa [hdrop,List.append_nil] at hsplit
      rw [← hall] at hmem
      exact List.mem_takeWhile_imp hmem
    revert hblank
    decide

section Numbers

theorem isSymbolChar_of_mem_radixMarks {letter : Char} {radix : Nat}
    (h : (letter,radix) ∈ radixMarks) : isSymbolChar letter := by
  simp only [radixMarks,List.mem_cons,Prod.mk.injEq,List.not_mem_nil,or_false] at h
  rcases h with ⟨rfl,_⟩ | ⟨rfl,_⟩ | ⟨rfl,_⟩ <;> decide

/-- A blank behind a text belongs neither to the mark nor to the digits it starts with. -/
theorem leading_concat {t mark ds u : Text} {radix : Nat} (h : Leading t mark radix ds u)
    (hb : isBlank b) : Leading (t ++ [b]) mark radix ds (u ++ [b]) := by
  have hsym := isSymbolChar_of_isBlank hb
  have hdigit : ∀ radix, isDigitOf radix b = false := fun radix =>
    eq_false_of_isBlank isSymbolChar_of_isDigitOf hb
  cases h with
  | @marked letter radix ds u hm hd hu =>
    have hmarked := Leading.marked hm hd (hu.concat (hdigit radix))
    rwa [← List.append_assoc] at hmarked
  | @decimal ds u hne hd hu =>
    have hdecimal : Leading (ds ++ (u ++ [b])) [] 10 ds (u ++ [b]) := by
      refine .decimal (fun letter radix v hm hv => ?_) hd (hu.concat (isDigit_of_isBlank hb))
      rw [← List.append_assoc] at hv
      have hsplit : ds ++ u ++ [b] = ['0',letter] ++ v := hv
      rcases exists_of_concat_eq hsplit with rfl | ⟨w,_,hinit⟩
      · have hpair : ds ++ u ++ [b] = ['0'] ++ [letter] := hv
        rw [List.singleton_inj.1 (List.append_inj' hpair rfl).2,
          isSymbolChar_of_mem_radixMarks hm] at hsym
        cases hsym
      · exact hne letter radix w hm hinit
    rwa [← List.append_assoc] at hdecimal

theorem follows_orFailAt {P : Cursor → Cursor → Prop} {lo hi radix : Nat} {ds : Text}
    (p p' : Position) : Follows b l P P (orFailAt p (bounded lo hi radix ds))
      (orFailAt p' (bounded lo hi radix ds)) := by
  cases hr : bounded lo hi radix ds with
  | ok n => exact .pure n
  | error fault => rcases bounded_eq_error hr with ⟨_,rfl⟩ | ⟨_,rfl⟩ <;> exact follows_failAt rfl

theorem follows_number (hb : isBlank b) (lo hi : Nat) :
    Follows b l (Near b l) (Near b l) (number lo hi) (number lo hi) := by
  intro c c' hc
  have hhead' : c'.rest.head?.any Char.isDigit = c.rest.head?.any Char.isDigit :=
    hc.any_peek (isDigit_of_isBlank hb)
  cases hhead : c.rest.head?.any Char.isDigit with
  | false =>
    rw [run_number_missing hhead,run_number_missing (hhead'.trans hhead)]
    exact .error rfl
  | true =>
    obtain ⟨a,ha,_⟩ := Option.any_eq_true .. |>.1 hhead
    obtain ⟨⟨v,hv⟩,hrest⟩ := hc.beside_of_peek ha
    obtain ⟨mark,radix,ds,u,h⟩ := exists_leading c.rest
    have h' : Leading c'.rest mark radix ds (u ++ [b]) := hrest ▸ leading_concat h hb
    have hfilter : (u ++ [b]).head?.filter isSymbolChar = u.head?.filter isSymbolChar := by
      cases u with
      | nil => simp [isSymbolChar_of_isBlank hb]
      | cons a u => rfl
    rw [run_number h hhead,run_number h' (hhead'.trans hhead),hfilter]
    cases u.head?.filter isSymbolChar with
    | some a => exact .error rfl
    | none =>
      refine follows_orFailAt c.pos c'.pos _ _ (.beside ⟨⟨v ++ (mark ++ ds),?_⟩,rfl⟩)
      rw [hv,h.eq_append]
      simp only [List.append_assoc]

theorem follows_value (hb : isBlank b) (limit : Nat) :
    Follows b l (Near b l) (Near b l) (value limit) (value limit) := by
  have hd := isDigit_of_isBlank hb
  have hs : isSymbolStart b = false := eq_false_of_isBlank isSymbolChar_of_isSymbolStart hb
  refine Follows.peek (fun h => h) (fun a => ?_) ?_ (follows_fail fun _ => rfl)
  · dsimp only
    split
    · exact ((follows_number hb _ _).from And.left).bind_pure _
    split
    case isTrue hstar =>
      subst hstar
      exact (follows_next_of_peek (by decide)).bind_pure _
    split
    · exact ((follows_symbol hb).from And.left).bind_pure _
    · exact follows_fail fun _ => rfl
  · dsimp only
    rw [hd,hs,if_neg Bool.false_ne_true,if_neg (ne_of_isBlank hb rfl).symm,
      if_neg Bool.false_ne_true]
    exact follows_fail fun _ => rfl

end Numbers

section Literals

theorem run_quoted (c : Cursor) : quoted.run c =
    if (c.dropWhile fun a => a != '\x27' && a != '\n').peek = some '\x27' then
      .ok (c.rest.takeWhile fun a => a != '\x27' && a != '\n')
        (c.dropWhile fun a => a != '\x27' && a != '\n').advance
    else .error ⟨.unterminatedLiteral,(c.dropWhile fun a => a != '\x27' && a != '\n').pos⟩
      (c.dropWhile fun a => a != '\x27' && a != '\n') := by
  refine (run_bind_of_ok (run_readWhile _ c)).trans ?_
  split
  case isTrue h =>
    refine (run_bind_of_ok (d := Cursor.advance _) (a := true) ?_).trans rfl
    rw [run_advanceIf,if_pos h]
  case isFalse h =>
    refine (run_bind_of_ok (d := c.dropWhile _) (a := false) ?_).trans rfl
    rw [run_advanceIf,if_neg h]

theorem follows_quoted (hb : isBlank b) : Follows b l (Near b l) (Near b l) quoted quoted := by
  intro c c' hc
  have hp : (b != '\x27' && b != '\n') = true := by
    simp [(ne_of_isBlank hb (a := '\x27') rfl).symm,ne_newline_of_isBlank hb]
  have hlevel := hc.dropWhile_level (p := fun a => a != '\x27' && a != '\n') hp
  rw [run_quoted,run_quoted,hlevel.peek_eq]
  split
  case isFalse => exact .error rfl
  case isTrue h =>
    have hbody : c'.rest.takeWhile (fun a => a != '\x27' && a != '\n') =
        c.rest.takeWhile fun a => a != '\x27' && a != '\n' := by
      cases hc with
      | beside hc =>
        rw [hc.rest]
        exact takeWhile_append_of_mem
          ((List.dropWhile_suffix _).subset (List.mem_of_head? h)) rfl [b]
      | beyond hc hc' => rw [hc,hc']
    rw [hbody]
    exact .ok (.beside ((hlevel.near.beside_of_peek h).advance h).1)

theorem follows_hexData {P : Cursor → Cursor → Prop} (body : Text) (p p' : Position) :
    Follows b l P P (hexData body p) (hexData body p') := by
  unfold hexData
  split
  · exact follows_failAt rfl
  · refine Follows.ite (follows_failAt rfl) ?_
    split
    · exact .pure _
    · exact follows_failAt rfl

theorem follows_wordData (hb : isBlank b) :
    Follows b l (Near b l) (Near b l) wordData wordData := by
  refine (follows_number hb _ _).bind fun n => ?_
  split
  · exact .pure _
  · exact follows_fail fun _ => rfl

theorem follows_data (hb : isBlank b) (hl : '\n' ∉ l) :
    Follows b l (Signed b l) (Near b l) data data := by
  refine Follows.branch (ne_of_isBlank hb rfl) Signed.near ?_ ?_
  · refine ((follows_expect_quote hb).from And.left).bind fun _ => ?_
    exact (follows_quoted hb).bind_pure _
  refine Follows.branch (ne_of_isBlank hb rfl) Signed.near ?_ ?_
  · refine ((follows_expect_quote hb).from And.left).bind fun _ => ?_
    refine Follows.located fun p p' => (follows_quoted hb).bind fun body => ?_
    exact follows_hexData body p p'
  refine (follows_atDigit Signed.near (isDigit_of_isBlank hb)).bind fun _ => ?_
  refine Follows.ite ((follows_wordData hb).from Signed.near) ?_
  refine Follows.peek Signed.near (fun a => ?_) ?_ ?_
  · dsimp only
    split
    case isTrue ha =>
      refine follows_fail fun h => absurd (h.1.near.mem_of_peek h.2) ?_
      rwa [ha]
    case isFalse => exact follows_fail fun _ => rfl
  · dsimp only
    rw [if_neg (ne_newline_of_isBlank hb)]
    refine follows_fail fun {c c'} ⟨h,hrest,hrest'⟩ => ?_
    have hlast : l.getLast? = some '=' := by
      by_cases hlast : l.getLast? = some '='
      · exact hlast
      · rw [(h.ended hrest).2 hlast] at hrest'
        cases hrest'
    rw [Fault.trailed_dataMissing,if_pos hlast]
  · refine follows_fail fun {c c'} ⟨h,hrest,hrest'⟩ => ?_
    rw [Fault.trailed_dataMissing,if_neg ((h.ended hrest).1 hrest')]

theorem follows_byte (hb : isBlank b) : Follows b l (Near b l) (Near b l) byte byte :=
  (follows_number hb _ _).bind_pure _

end Literals

section Operands

theorem follows_addressing (hb : isBlank b) :
    Follows b l (Near b l) (Near b l) addressing addressing := by
  have hmark : ∀ {a : Char} (mode : Addressing), Follows b l
      (fun d d' => Beside b l d d' ∧ ∃ v, l = v ++ a :: d.rest) (Near b l) (pure mode) (pure mode) :=
    fun mode => (Follows.pure mode).from fun h => .beside h.1
  refine Follows.branch (ne_of_isBlank hb rfl) (fun h => h) (hmark _) ?_
  exact Follows.branch (ne_of_isBlank hb rfl) (fun h => h) (hmark _) (.pure _)

theorem follows_target (hb : isBlank b) (hl : '\n' ∉ l) (mode : Addressing) (extended : Bool) :
    Follows b l (Near b l) (Near b l) (target mode extended) (target mode extended) := by
  have hv := (follows_value (l := l) hb (memoryLimit mode extended)).bind_pure Target.value
  refine Follows.ite (Follows.branch (ne_of_isBlank hb rfl) (fun h => h) ?_ hv) hv
  exact ((follows_data hb hl).from fun h => h.1.signed h.2).bind_pure _

theorem follows_memoryOperand (hb : isBlank b) (hl : '\n' ∉ l) (extended : Bool) :
    Follows b l (Near b l) (Near b l) (memoryOperand extended) (memoryOperand extended) :=
  (follows_addressing hb).bind fun _ => (follows_target hb hl _ _).bind fun _ =>
    (follows_indexed hb).bind_pure _

theorem follows_operand (hb : isBlank b) (hl : '\n' ∉ l) (shape : Shape) :
    Follows b l (AtOperand b l) (Near b l) (operand shape) (operand shape) := by
  have hnear : ∀ {c c'}, AtOperand b l c c' → Near b l c c' := fun h => h.1.near
  have hdata := (follows_data hb hl).from fun {c c'} (h : AtOperand b l c c') => h.1.signed h.2
  have hregister := (follows_register hl).from fun {c c'} (h : AtOperand b l c c') => h.1
  cases shape with
  | directive | format1 | format3 => exact (Follows.pure _).from hnear
  | directiveOperand limit => exact ((follows_value hb _).from hnear).bind_pure _
  | directiveOptional limit =>
    refine (follows_atEndOfLine.from And.left).bind fun _ => ?_
    refine Follows.ite ((Follows.pure _).from Level.near) ?_
    exact ((follows_value hb _).from Level.near).bind_pure _
  | storageReserve | format2Number => exact ((follows_number hb _ _).from hnear).bind_pure _
  | storageByte =>
    refine (follows_atDigit hnear (isDigit_of_isBlank hb)).bind fun _ => Follows.ite ?_ ?_
    · exact ((follows_byte hb).from hnear).bind_pure _
    · exact hdata.bind_pure _
  | storageWord => exact hdata.bind_pure _
  | format2Register => exact hregister.bind_pure _
  | format2RegisterNumber =>
    refine hregister.bind fun _ => (follows_comma hb).bind fun _ => ?_
    exact ((follows_number hb _ _).from Level.near).bind_pure _
  | format2RegisterPair =>
    refine hregister.bind fun _ => (follows_comma hb).bind fun _ => ?_
    exact (follows_register hl).bind_pure _
  | format3Memory | format4Memory => exact ((follows_memoryOperand hb hl _).from hnear).bind_pure _

theorem follows_instruction (hb : isBlank b) (hl : '\n' ∉ l) :
    Follows b l (Near b l) (Near b l) instruction instruction :=
  (follows_mnemonic hb).bind fun _ => (follows_skipBlanks_clear hb).bind fun _ =>
    (follows_operand hb hl _).bind_pure _

end Operands

section Lines

/-- The two cursors from which a line is read, without the blank and with it. -/
theorem near_start (b : Char) (l : Text) : Near b l (.start l) (.start (l ++ [b])) :=
  .beside ⟨⟨[],rfl⟩,rfl⟩

theorem failsAlike_statement (hb : isBlank b) (hl : '\n' ∉ l) (p p' : Position) :
    FailsAlike b l (fun c c' => Near b l c c' ∧ c'.atStartOfLine = c.atStartOfLine)
      (statement p) (statement p') := by
  refine FailsAlike.bind (follows_label hb) fun _ => ?_
  refine FailsAlike.bind (follows_skipBlanks hb) fun _ => FailsAlike.ite ?_ ?_
  · exact failsAlike_of_ok fun c => ⟨_,_,rfl⟩
  · refine FailsAlike.bind ((follows_instruction hb hl).from Level.near) fun _ => ?_
    exact failsAlike_of_ok fun c => ⟨_,_,rfl⟩

theorem fault_of_line {e : Diagnostic} {d : Cursor} (hb : isBlank b) (hl : '\n' ∉ l)
    (h : line.run (.start l) = .error e d) :
    ∃ e' d', line.run (.start (l ++ [b])) = .error e' d' ∧ e'.fault = e.fault.trailed b l := by
  have hnear := near_start b l
  have hat : atComment (.start (l ++ [b])) = atComment (.start l) := by
    have hdot := hnear.peek_eq_iff (ne_of_isBlank hb (a := '.') rfl)
    rw [atComment,atComment,Bool.eq_iff_iff]
    simp only [Bool.and_eq_true,beq_iff_eq,hdot]
    exact Iff.rfl
  cases hc : atComment (.start l) with
  | true =>
    rw [run_line_comment hc] at h
    cases h
  | false =>
    rw [run_line_statement hc] at h
    rw [run_line_statement (hat.trans hc)]
    exact failsAlike_statement hb hl _ _ ⟨hnear,rfl⟩ h

end Lines
end Reading
end SicXE
