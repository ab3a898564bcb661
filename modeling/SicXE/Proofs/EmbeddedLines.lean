import SicXE.Proofs.AcceptedTokens
import SicXE.Proofs.Embedding
import SicXE.Proofs.LineSteps

/-! # Lines read in a text

Every part of a line is read in a text as it is read alone. The scans are gone through part by
part; what is left is the end of the line, where only the value counts, since the cursor goes on
to the next line.
-/
namespace SicXE.Reading
open Text Scan

variable {n : Nat} {u : Text}

section Tokens

theorem embeds_label : Embeds n u label label := by
  have hword : Embeds n u (readSymbol >>= fun t => pure (some (Symbol.mk t))) _ :=
    embeds_readSymbol.bind_pure inLine_readSymbol _
  refine embeds_atStartOfLine.bind (inLine_view _) fun start => ?_
  refine Embeds.peek (fun _ => Embeds.ite hword (.pure _)) (fun _ => Embeds.ite hword (.pure _))
    fun _ => ?_
  have hn : isAlphabetic '\n' = false := by decide
  rw [Option.any_none,Option.any_some,hn]
  exact Embeds.ite hword (.pure _)

theorem embeds_mnemonic : Embeds n u mnemonic mnemonic := by
  refine Embeds.located fun location => ?_
  refine (embeds_advanceIf (by decide)).bind (inLine_advanceIf (by decide)) fun _ => ?_
  refine embeds_readSymbol.bind inLine_readSymbol fun _ => ?_
  dsimp only
  split
  · exact .pure _
  · exact embeds_failAt location _

theorem embeds_symbol : Embeds n u symbol symbol :=
  embeds_readSymbol.bind_pure inLine_readSymbol _

theorem embeds_register : Embeds n u register register := by
  refine Embeds.located fun location => ?_
  refine embeds_next.bind inLine_next fun letter => ?_
  cases letter with
  | none => exact embeds_failAt location _
  | some letter =>
    dsimp only
    split
    · exact .pure _
    · exact embeds_failAt location _

theorem embeds_comma : Embeds n u comma comma :=
  embeds_skipBlanks.bind inLine_skipBlanks fun _ =>
    (embeds_expect (by decide)).bind (inLine_expect (by decide)) fun _ =>
      embeds_skipBlanks.bind_pure inLine_skipBlanks _

theorem embeds_indexed : Embeds n u indexed indexed := by
  refine embeds_skipBlanks.bind inLine_skipBlanks fun _ => ?_
  refine (embeds_advanceIf (by decide)).bind (inLine_advanceIf (by decide)) fun _ => ?_
  refine Embeds.ite ?_ (.pure _)
  refine embeds_skipBlanks.bind inLine_skipBlanks fun _ => ?_
  exact (embeds_expect (by decide)).bind_pure (inLine_expect (by decide)) _

end Tokens

section Numbers

/-- The radix of a number is announced within its line. -/
theorem announcedRadix_embed {c : Cursor} (hc : c.EndsBefore u) :
    announcedRadix (c.embed n u).rest = announcedRadix c.rest := by
  refine Option.ext fun radix => ?_
  rw [announcedRadix_eq_some_iff,announcedRadix_eq_some_iff]
  constructor
  · rintro ⟨mark,v,hv,hm⟩
    have hmark := ne_newline_of_mem_radixMarks hm
    rcases c with ⟨_ | ⟨a,_ | ⟨b,rest⟩⟩,pos⟩
    · obtain rfl : u = '0' :: mark :: v := hv
      rcases hc.resolve_right List.not_mem_nil with hu | hu <;> cases hu
    · obtain ⟨rfl,rfl⟩ : a = '0' ∧ u = mark :: v := List.cons.inj hv
      rcases hc with (hu | hu) | hn
      · cases hu
      · cases hu
        exact absurd rfl hmark
      · cases List.mem_singleton.1 hn
    · cases hv
      exact ⟨mark,rest,rfl,hm⟩
  · rintro ⟨mark,v,hv,hm⟩
    exact ⟨mark,v ++ u,by rw [Cursor.embed,hv]; rfl,hm⟩

theorem embeds_digits : Embeds n u digits digits := by
  refine Embeds.get fun c hc => ?_
  rw [announcedRadix_embed hc]
  split
  · refine embeds_next.bind inLine_next fun _ => embeds_next.bind inLine_next fun _ => ?_
    exact (embeds_readDigits _).bind_pure (inLine_readDigits _) _
  · refine embeds_atDigit.bind (inLine_view _) fun _ => Embeds.ite ?_ (embeds_fail _)
    exact (embeds_readDigits _).bind_pure (inLine_readDigits _) _

theorem before_of_bounded {lo hi radix : Nat} {ds : Text} {fault : Fault}
    (h : bounded lo hi radix ds = .error fault) : fault.before u = fault := by
  rcases bounded_eq_error h with ⟨_,rfl⟩ | ⟨_,rfl⟩ <;> rfl

theorem embeds_number (lo hi : Nat) : Embeds n u (number lo hi) (number lo hi) := by
  refine Embeds.located fun location => ?_
  refine embeds_digits.bind inLine_digits fun ⟨radix,digits⟩ => ?_
  have hin : Embeds n u (orFailAt location (bounded lo hi radix digits))
      (orFailAt (location.onLine n) (bounded lo hi radix digits)) :=
    embeds_orFailAt location fun _ => before_of_bounded
  refine Embeds.peek (fun found => ?_) (fun _ => hin) fun _ => ?_
  · split
    · exact embeds_fail _
    · exact hin
  · have hn : isSymbolChar '\n' = false := by decide
    rw [Option.filter_some,hn]
    exact hin

theorem embeds_value (limit : Nat) : Embeds n u (value limit) (value limit) := by
  refine Embeds.peek (fun a => Embeds.ite ?_ (Embeds.ite ?_ (Embeds.ite ?_ (embeds_fail _))))
    (fun _ => embeds_fail _) fun _ => ?_
  · exact (embeds_number _ _).bind_pure (inLine_number _ _) _
  · exact embeds_next.bind_pure inLine_next _
  · exact embeds_symbol.bind_pure inLine_symbol _
  · have hn : isSymbolStart '\n' = false := by decide
    dsimp only
    rw [if_neg (by decide),if_neg (by decide),if_neg (by rw [hn]; decide)]
    exact embeds_fail _

end Numbers

section Literals

theorem embeds_quoted : Embeds n u quoted quoted := by
  refine (embeds_readWhile (by decide)).bind (inLine_readWhile (by decide)) fun _ => ?_
  refine (embeds_advanceIf (by decide)).bind (inLine_advanceIf (by decide)) fun _ => ?_
  exact Embeds.ite (.pure _) (embeds_fail _)

theorem embeds_hexData (body : Text) (location : Position) :
    Embeds n u (hexData body location) (hexData body (location.onLine n)) := by
  unfold hexData
  split
  · exact embeds_failAt (location.along _) _
  · refine Embeds.ite (embeds_failAt location _) ?_
    split
    · exact .pure _
    · exact embeds_failAt location _

theorem embeds_wordData : Embeds n u wordData wordData := by
  refine (embeds_number _ _).bind (inLine_number _ _) fun n => ?_
  split
  · exact .pure _
  · exact embeds_fail _

theorem embeds_data : Embeds n u data data := by
  refine (embeds_advanceIf (by decide)).bind (inLine_advanceIf (by decide)) fun _ => ?_
  refine Embeds.ite ?_ ?_
  · refine (embeds_expect (by decide)).bind (inLine_expect (by decide)) fun _ => ?_
    exact embeds_quoted.bind_pure inLine_quoted _
  refine (embeds_advanceIf (by decide)).bind (inLine_advanceIf (by decide)) fun _ => ?_
  refine Embeds.ite ?_ ?_
  · refine (embeds_expect (by decide)).bind (inLine_expect (by decide)) fun _ => ?_
    refine Embeds.located fun location => embeds_quoted.bind inLine_quoted fun body => ?_
    exact embeds_hexData body location
  refine embeds_atDigit.bind (inLine_view _) fun _ => Embeds.ite embeds_wordData ?_
  exact Embeds.peek (fun _ => Embeds.ite (embeds_fail _) (embeds_fail _))
    (fun _ => embeds_fail _) fun _ => embeds_fail _

theorem embeds_byte : Embeds n u byte byte := (embeds_number _ _).bind_pure (inLine_number _ _) _

end Literals

section Operands

theorem embeds_addressing : Embeds n u addressing addressing := by
  refine (embeds_advanceIf (by decide)).bind (inLine_advanceIf (by decide)) fun _ => ?_
  refine Embeds.ite (.pure _) ?_
  refine (embeds_advanceIf (by decide)).bind (inLine_advanceIf (by decide)) fun _ => ?_
  exact Embeds.ite (.pure _) (.pure _)

theorem embeds_target (mode : Addressing) (extended : Bool) :
    Embeds n u (target mode extended) (target mode extended) := by
  have hv := (embeds_value (n := n) (u := u) (memoryLimit mode extended)).bind_pure
    (inLine_value _) Target.value
  refine Embeds.ite ?_ hv
  refine (embeds_advanceIf (by decide)).bind (inLine_advanceIf (by decide)) fun _ => ?_
  exact Embeds.ite (embeds_data.bind_pure inLine_data _) hv

theorem embeds_memoryOperand (extended : Bool) :
    Embeds n u (memoryOperand extended) (memoryOperand extended) :=
  embeds_addressing.bind inLine_addressing fun _ =>
    (embeds_target _ _).bind (inLine_target _ _) fun _ =>
      embeds_indexed.bind_pure inLine_indexed _

theorem embeds_operand (shape : Shape) : Embeds n u (operand shape) (operand shape) := by
  cases shape with
  | directive | format1 | format3 => exact .pure _
  | directiveOperand limit => exact (embeds_value _).bind_pure (inLine_value _) _
  | directiveOptional limit =>
    refine embeds_atEndOfLine.bind (inLine_view _) fun _ => Embeds.ite (.pure _) ?_
    exact (embeds_value _).bind_pure (inLine_value _) _
  | storageReserve | format2Number => exact (embeds_number _ _).bind_pure (inLine_number _ _) _
  | storageByte =>
    refine embeds_atDigit.bind (inLine_view _) fun _ => Embeds.ite ?_ ?_
    · exact embeds_byte.bind_pure inLine_byte _
    · exact embeds_data.bind_pure inLine_data _
  | storageWord => exact embeds_data.bind_pure inLine_data _
  | format2Register => exact embeds_register.bind_pure inLine_register _
  | format2RegisterNumber =>
    refine embeds_register.bind inLine_register fun _ => ?_
    refine embeds_comma.bind inLine_comma fun _ => ?_
    exact (embeds_number _ _).bind_pure (inLine_number _ _) _
  | format2RegisterPair =>
    refine embeds_register.bind inLine_register fun _ => ?_
    refine embeds_comma.bind inLine_comma fun _ => ?_
    exact embeds_register.bind_pure inLine_register _
  | format3Memory | format4Memory =>
    exact (embeds_memoryOperand _).bind_pure (inLine_memoryOperand _) _

theorem embeds_instruction : Embeds n u instruction instruction :=
  embeds_mnemonic.bind inLine_mnemonic fun _ => embeds_skipBlanks.bind inLine_skipBlanks fun _ =>
    (embeds_operand _).bind_pure (inLine_operand _) _

end Operands

section Ends
variable {α β : Type} {φ : β → β}

/-- The value or the fault of a scan, wherever it leaves the cursor. -/
def outcome : EStateM.Result Diagnostic Cursor α → Except Diagnostic α
  | .ok a _ => .ok a
  | .error e _ => .error e

/-- What was found on one line, as it is found on another one. -/
def relocate (n : Nat) (φ : α → α) : Except Diagnostic α → Except Diagnostic α
  | .ok a => .ok (φ a)
  | .error e => .error (e.onLine n)

/-- What was found on a line that stands alone, as it is found in a text. -/
def embedOutcome (n : Nat) (u : Text) (φ : α → α) : Except Diagnostic α → Except Diagnostic α
  | .ok a => .ok (φ a)
  | .error e => .error (e.embed n u)

/-- The second scan gives in a text what the first one gives on a single line of it, but for the
number of the line. -/
def EmbedsOutcome (n : Nat) (u : Text) (φ : β → β) (x y : Scan β) : Prop :=
  ∀ c : Cursor, c.EndsBefore u →
    outcome (y.run (c.embed n u)) = embedOutcome n u φ (outcome (x.run c))

theorem EmbedsOutcome.bind {x y : Scan α} {f g : α → Scan β} (hx : Embeds n u x y)
    (hin : InLine x) (hf : ∀ a, EmbedsOutcome n u φ (f a) (g a)) :
    EmbedsOutcome n u φ (x >>= f) (y >>= g) := by
  intro c hc
  have hw := hin c
  unfold leaves at hw
  rw [EStateM.run_bind,EStateM.run_bind,hx c hc]
  cases hr : x.run c with
  | ok a d =>
    rw [hr] at hw
    exact hf a d (hc.within hw)
  | error e d => rfl

theorem EmbedsOutcome.ite {x x' y y' : Scan β} {p : Prop} [Decidable p]
    (hx : EmbedsOutcome n u φ x x') (hy : EmbedsOutcome n u φ y y') :
    EmbedsOutcome n u φ (if p then x else y) (if p then x' else y') := by
  split
  · exact hx
  · exact hy

/-- The end of a line, as long as what is read there is used in the same way. -/
theorem embedsOutcome_readTo {f g : Text → β} (h : ∀ t, g t = φ (f t)) :
    EmbedsOutcome n u φ (readTo '\n' >>= fun t => pure (f t))
      (readTo '\n' >>= fun t => pure (g t)) := by
  intro c hc
  change Except.ok (g ((c.rest ++ u).takeWhile (· != '\n'))) =
    Except.ok (φ (f (c.rest.takeWhile (· != '\n'))))
  rw [Cursor.takeWhile_embed (by decide) hc,h]

end Ends

end SicXE.Reading

namespace SicXE

/-- The same record in the same column of another line. -/
def Record.onLine (n : Nat) (r : Record) : Record := { r with location := r.location.onLine n }

namespace Reading
open Text Scan

variable {n : Nat} {u : Text}

theorem embedsOutcome_comment (location : Position) :
    EmbedsOutcome n u (Option.map (Record.onLine n))
      (comment >>= fun body => pure (some ⟨location,none,body,none⟩))
      (comment >>= fun body => pure (some ⟨location.onLine n,none,body,none⟩)) := by
  simp only [comment,bind_assoc,pure_bind]
  exact embedsOutcome_readTo fun _ => rfl

theorem embedsOutcome_statement (location : Position) :
    EmbedsOutcome n u (Option.map (Record.onLine n)) (statement location)
      (statement (location.onLine n)) := by
  refine EmbedsOutcome.bind embeds_label inLine_label fun label => ?_
  refine EmbedsOutcome.bind embeds_skipBlanks inLine_skipBlanks fun ended => ?_
  refine EmbedsOutcome.ite (embedsOutcome_readTo fun _ => rfl) ?_
  refine EmbedsOutcome.bind embeds_instruction inLine_instruction fun body => ?_
  simp only [remark,bind_assoc,pure_bind]
  exact embedsOutcome_readTo fun _ => rfl

theorem embedsOutcome_line : EmbedsOutcome n u (Option.map (Record.onLine n)) line line := by
  intro c hc
  have hat : atComment (c.embed n u) = atComment c := by
    have hdot := Cursor.peek_embed_eq_iff (n := n) (a := '.') (by decide) hc
    rw [atComment,atComment,Bool.eq_iff_iff]
    simp only [Bool.and_eq_true,beq_iff_eq,hdot]
    exact Iff.rfl
  cases h : atComment c with
  | true =>
    rw [run_line_comment h,run_line_comment (hat.trans h)]
    exact embedsOutcome_comment c.pos c hc
  | false =>
    rw [run_line_statement h,run_line_statement (hat.trans h)]
    exact embedsOutcome_statement c.pos c hc

end Reading
end SicXE
