import SicXE.Proofs.Characters

/-! # Written numbers and bytes

A number written in decimal is read back as the same number, and bytes written in hexadecimal
are read back as the same bytes. The digits of radix ten are the decimal digits, so the run of
digits that starts a written number is the whole of it.
-/
namespace SicXE.Text

theorem toNat_of_isUpper {a : Char} (h : a.isUpper) : 65 ≤ a.toNat ∧ a.toNat ≤ 90 := by
  have hr : 65 ≤ a.val ∧ a.val ≤ 90 := of_decide_eq_true h
  simpa [UInt32.le_iff_toNat_le] using hr

theorem toNat_of_isLower {a : Char} (h : a.isLower) : 97 ≤ a.toNat ∧ a.toNat ≤ 122 := by
  have hr : a.val ≥ 97 && a.val ≤ 122 := h
  simpa [UInt32.le_iff_toNat_le] using hr

theorem digitValue?_of_isDigit {a : Char} (h : a.isDigit) :
    digitValue? a = some (a.toNat - 48) := by
  simp [digitValue?,h]

theorem isDigitOf_of_digitValue? {a : Char} {n : Nat} (h : digitValue? a = some n)
    (radix : Nat) : isDigitOf radix a = decide (n < radix) := by
  rw [isDigitOf,digit?,h]
  by_cases hn : n < radix
  · simp [hn]
  · simp [hn]

theorem isDigitOf_ten (a : Char) : isDigitOf 10 a = a.isDigit := by
  cases hd : a.isDigit with
  | true =>
    have hr := toNat_of_isDigit hd
    rw [isDigitOf_of_digitValue? (digitValue?_of_isDigit hd),decide_eq_true_iff]
    omega
  | false =>
    cases hu : a.isUpper with
    | true =>
      have hr := toNat_of_isUpper hu
      have hv : digitValue? a = some (a.toNat - 55) := by simp [digitValue?,hd,hu]
      rw [isDigitOf_of_digitValue? hv,decide_eq_false_iff_not]
      omega
    | false =>
      cases hl : a.isLower with
      | true =>
        have hr := toNat_of_isLower hl
        have hv : digitValue? a = some (a.toNat - 87) := by simp [digitValue?,hd,hu,hl]
        rw [isDigitOf_of_digitValue? hv,decide_eq_false_iff_not]
        omega
      | false => simp [isDigitOf,digit?,digitValue?,hd,hu,hl]

theorem decimal_ne_nil (n : Nat) : decimal n ≠ [] := Nat.toDigits_ne_nil

theorem isDigit_of_mem_decimal {n : Nat} {a : Char} (h : a ∈ decimal n) : a.isDigit :=
  Nat.isDigit_of_mem_toDigits (by decide) (by decide) h

/-- On decimal digits the value of a numeral is the one of the standard library. -/
theorem foldl_digits (ds : Text) (hd : ∀ a ∈ ds, a.isDigit) (n : Nat) :
    ds.foldl (fun n a => n * 10 + (digitValue? a).getD 0) n = Nat.ofDigitChars 10 ds n := by
  induction ds generalizing n with
  | nil => rfl
  | cons a ds ih =>
    have ha := digitValue?_of_isDigit (hd a List.mem_cons_self)
    have hv : n * 10 + (digitValue? a).getD 0 = 10 * n + (a.toNat - '0'.toNat) := by
      rw [ha,Nat.mul_comm]
      rfl
    rw [List.foldl_cons,hv,Nat.ofDigitChars_cons]
    exact ih (fun b hb => hd b (List.mem_cons_of_mem _ hb)) _

theorem numeral_decimal (n : Nat) : numeral 10 (decimal n) = n := by
  rw [numeral,foldl_digits _ (fun _ => isDigit_of_mem_decimal),decimal]
  exact Nat.ofDigitChars_ten_toDigits

/-- A digit of any radix is a decimal digit or an ASCII letter. -/
theorem isDigit_or_letter_of_isDigitOf {radix : Nat} {a : Char} (h : isDigitOf radix a) :
    a.isDigit ∨ a.isUpper ∨ a.isLower := by
  cases hd : a.isDigit with
  | true => exact .inl rfl
  | false =>
    cases hu : a.isUpper with
    | true => exact .inr (.inl rfl)
    | false =>
      cases hl : a.isLower with
      | true => exact .inr (.inr rfl)
      | false => simp [isDigitOf,digit?,digitValue?,hd,hu,hl] at h

theorem toNat_lt_of_isDigitOf {radix : Nat} {a : Char} (h : isDigitOf radix a) :
    a.toNat < 128 := by
  rcases isDigit_or_letter_of_isDigitOf h with hd | hu | hl
  · have hr := toNat_of_isDigit hd
    omega
  · have hr := toNat_of_isUpper hu
    omega
  · have hr := toNat_of_isLower hl
    omega

/-- A digit of any radix is a symbol character. -/
theorem isSymbolChar_of_isDigitOf {radix : Nat} {a : Char} (h : isDigitOf radix a) :
    isSymbolChar a := by
  have ht : Alphabetic.table = (0x41,0x5A) :: (0x61,0x7A) :: Alphabetic.table.tail.tail := rfl
  rcases isDigit_or_letter_of_isDigitOf h with hd | hu | hl
  · exact isSymbolChar_of_isDigit hd
  · obtain ⟨hlo,hhi⟩ := toNat_of_isUpper hu
    apply isSymbolChar_of_isAlphabetic
    rw [isAlphabetic,ht,Ranges.contains_cons,if_neg (by omega),if_pos hhi]
  · obtain ⟨hlo,hhi⟩ := toNat_of_isLower hl
    apply isSymbolChar_of_isAlphabetic
    rw [isAlphabetic,ht,Ranges.contains_cons,if_neg (by omega),if_neg (by omega),
      Ranges.contains_cons,if_neg (by omega),if_pos hhi]

theorem digit?_hexDigit : ∀ n < 16, digit? 16 (hexDigit n) = some n := by
  decide

theorem isHexDigit_hexDigit {n : Nat} (h : n < 16) : isHexDigit (hexDigit n) := by
  rw [isHexDigit,isDigitOf,digit?_hexDigit n h]
  rfl

theorem exists_digit_of_mem_hexBytes {bs : List UInt8} {a : Char} (h : a ∈ hexBytes bs) :
    ∃ n < 16, a = hexDigit n := by
  obtain ⟨b,_,ha⟩ := List.mem_flatMap.1 h
  have hb := b.toNat_lt
  simp only [hexByte,List.mem_cons,List.not_mem_nil,or_false] at ha
  rcases ha with ha | ha
  · exact ⟨_,by omega,ha⟩
  · exact ⟨_,by omega,ha⟩

theorem isHexDigit_of_mem_hexBytes {bs : List UInt8} {a : Char} (h : a ∈ hexBytes bs) :
    isHexDigit a := by
  obtain ⟨n,hn,rfl⟩ := exists_digit_of_mem_hexBytes h
  exact isHexDigit_hexDigit hn

theorem hexBytes?_hexBytes (bs : List UInt8) : hexBytes? (hexBytes bs) = some bs := by
  induction bs with
  | nil => rfl
  | cons b bs ih =>
    have hb := b.toNat_lt
    have hh := digit?_hexDigit (b.toNat / 16) (by omega)
    have hl := digit?_hexDigit (b.toNat % 16) (by omega)
    have hv : b.toNat / 16 * 16 + b.toNat % 16 = b.toNat := by omega
    rw [hexBytes_cons,hexBytes?,hh,hl,ih]
    change some (UInt8.ofNat (b.toNat / 16 * 16 + b.toNat % 16) :: bs) = some (b :: bs)
    rw [hv,UInt8.ofNat_toNat]

end SicXE.Text
