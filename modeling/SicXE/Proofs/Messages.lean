import SicXE.Proofs.TruthfulScans

/-! # Messages tell faults apart

What is put into a message stands between quotes, so two messages differ in the words before it or
in those behind it. A message that speaks of the end of the input therefore comes from one fault
only, and the messages of the internal faults come from none that is reported.
-/
namespace SicXE
open Text

theorem Text.Numeral.quote_not_mem {t ds : Text} {radix : Nat} (h : Numeral t radix ds) :
    '\x27' ∉ ds := by
  have hvalue : digitValue? '\x27' = none := by decide
  intro hmem
  cases h with
  | decimal _ hd =>
    have hdigit := hd _ hmem
    revert hdigit
    decide
  | marked _ hd =>
    have hdigit := hd _ hmem
    simp [isDigitOf,digit?,hvalue] at hdigit

theorem Text.quote_not_mem_toDigits (n : Nat) : '\x27' ∉ Nat.toDigits 10 n := by
  intro hmem
  have hdigit := Nat.isDigit_of_mem_toDigits (by decide) (by decide) hmem
  revert hdigit
  decide

/-- The first quote of a text is found whatever stands before it. -/
theorem Text.eq_of_append_quote {t t' u u' : Text} (ht : '\x27' ∉ t) (ht' : '\x27' ∉ t')
    (h : t ++ '\x27' :: u = t' ++ '\x27' :: u') : u = u' := by
  have hdrop := congrArg (List.dropWhile (· != '\x27')) h
  rw [dropWhile_run (bne_of_not_mem ht) (stops_cons.2 rfl),
    dropWhile_run (bne_of_not_mem ht') (stops_cons.2 rfl)] at hdrop
  exact (List.cons.inj hdrop).2

namespace Fault.HoldsAt

variable {u : Text} {fault : Fault} {message : String}

theorem eq_expectedAtInputEnd {wanted : Char} (h : fault.HoldsAt u message)
    (hm : message = s!"Expected '{wanted}' but reached end of input") :
    fault = .expectedAtInputEnd wanted := by
  rw [← String.toList_inj] at hm
  -- Each of the other texts differs from this one in a letter of its own words.
  cases h with
  | expectedAtInputEnd =>
    obtain rfl : _ = wanted := by simpa [toString] using hm
    rfl
  | _ => simp [toString] at hm

theorem message_ne_invalidHexLiteral (h : fault.HoldsAt u message) :
    message ≠ "Invalid hex literal" := by
  intro hm
  rw [← String.toList_inj] at hm
  cases h with
  | _ => simp [toString] at hm

/-- The texts with a number start alike, and go on differently behind the second quote. -/
theorem message_ne_wordOverflow (h : fault.HoldsAt u message) (n : Nat) (cause : String) :
    message ≠ s!"Number '{n}' does not fit in a word: {cause}" := by
  have hn := quote_not_mem_toDigits n
  intro hm
  rw [← String.toList_inj] at hm
  cases h with
  | outOfRange =>
    have hwords := eq_of_append_quote (quote_not_mem_toDigits _) hn (by simpa [toString] using hm)
    simp at hwords
  | tooWide _ ht =>
    have hwords := eq_of_append_quote ht.quote_not_mem hn (by simpa [toString] using hm)
    simp at hwords
  | _ => simp [toString] at hm

end Fault.HoldsAt
end SicXE
