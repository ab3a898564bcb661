import SicXE.Proofs.DataReading

/-! # Hexadecimal literals

A byte is written as two digits, and the letters among them are capitals. A row of digits is read
with letters of either case, and it stands for the bytes that are written as the same row in
capitals. So the writer and the reader of a literal are inverse to each other up to case.
-/
namespace SicXE
open Text

/-- A byte takes two places, of which a zero fills the first where one digit is enough. -/
def Text.byteStyle : HexStyle := ⟨false,true,2⟩

namespace Text
variable {a : Char} {body : Text} {bytes : List UInt8} {n : Nat}

section Writing

theorem hex_of_lt (h : n < 16) : hex n = [hexDigit n] := by
  rw [hex,Nat.toDigits_of_lt_base h]
  rfl

theorem hex_of_le (hlo : 16 ≤ n) (hhi : n < 256) : hex n = [hexDigit (n / 16),hexDigit (n % 16)] := by
  rw [hex,Nat.toDigits_of_base_le (by decide) hlo,Nat.toDigits_of_lt_base (by omega)]
  rfl

theorem hexByte_eq_write (b : UInt8) : hexByte b = byteStyle.write b.toNat := by
  by_cases hb : b.toNat < 16
  · have hzero : hexDigit 0 = '0' := by decide
    simp [hexByte,HexStyle.write,byteStyle,hex_of_lt hb,List.leftpad,Nat.div_eq_of_lt hb,
      Nat.mod_eq_of_lt hb,hzero]
  · simp [hexByte,HexStyle.write,byteStyle,hex_of_le (Nat.le_of_not_lt hb) b.toNat_lt,List.leftpad]

theorem hexBytes_eq_write (bytes : List UInt8) :
    hexBytes bytes = bytes.flatMap fun b => byteStyle.write b.toNat := by
  rw [hexBytes,funext hexByte_eq_write]

theorem length_hexBytes (bytes : List UInt8) : (hexBytes bytes).length = 2 * bytes.length := by
  induction bytes with
  | nil => rfl
  | cons b bytes ih =>
    simp only [hexBytes_cons,List.length_cons,ih]
    omega

theorem hexBytes_inj {others : List UInt8} : hexBytes bytes = hexBytes others ↔ bytes = others := by
  constructor
  · intro h
    have hread := hexBytes?_hexBytes bytes
    rw [h,hexBytes?_hexBytes] at hread
    exact (Option.some.inj hread).symm
  · exact congrArg hexBytes

theorem capital_hexDigit : ∀ n < 16, hexDigit n ∈ "0123456789ABCDEF".toList := by
  decide

theorem capital_of_mem_hexBytes (h : a ∈ hexBytes bytes) : a ∈ "0123456789ABCDEF".toList := by
  obtain ⟨n,hn,rfl⟩ := exists_digit_of_mem_hexBytes h
  exact capital_hexDigit n hn

end Writing

section Case

theorem digit?_iff_of_ascii : ∀ k < 128, ∀ n < 16,
    digit? 16 (Char.ofNat k) = some n ↔ (Char.ofNat k).toUpper = hexDigit n := by
  decide +kernel

theorem toNat_lt_of_toUpper (hn : n < 16) (h : a.toUpper = hexDigit n) : a.toNat < 128 := by
  by_cases hl : 'a'.val ≤ a.val ∧ a.val ≤ 'z'.val
  · have hz := UInt32.le_iff_toNat_le.1 hl.2
    exact Nat.lt_of_le_of_lt hz (by decide)
  · have hsame : a.toUpper = a := dif_neg hl
    rw [← hsame,h]
    exact toNat_lt_of_isDigitOf (isHexDigit_hexDigit hn)

/-- A letter is the same digit in either case. -/
theorem digit?_eq_some_iff (hn : n < 16) : digit? 16 a = some n ↔ a.toUpper = hexDigit n := by
  -- On both sides the character is an ASCII one, so the finite table decides.
  have hiff : a.toNat < 128 → (digit? 16 a = some n ↔ a.toUpper = hexDigit n) := fun ha => by
    have h := digit?_iff_of_ascii a.toNat ha n hn
    rwa [Char.ofNat_toNat] at h
  constructor
  · intro h
    have hd : isHexDigit a := by rw [isHexDigit,isDigitOf,h]; rfl
    exact (hiff (toNat_lt_of_isDigitOf hd)).1 h
  · intro h
    exact (hiff (toNat_lt_of_toUpper hn h)).2 h

theorem HexPairs.capitals (h : HexPairs body bytes) : body.map Char.toUpper = hexBytes bytes := by
  induction h with
  | nil => rfl
  | @cons _ _ high low _ _ ha hb _ ih =>
    have hhigh := digit?_lt ha
    have hlow := digit?_lt hb
    have hdiv : (16 * high + low) / 16 = high := by omega
    have hmod : (16 * high + low) % 16 = low := by omega
    rw [hexBytes_cons,toNat_pair ha hb,hdiv,hmod,List.map_cons,List.map_cons,ih,
      (digit?_eq_some_iff hhigh).1 ha,(digit?_eq_some_iff hlow).1 hb]

theorem hexPairs_of_capitals (h : body.map Char.toUpper = hexBytes bytes) :
    HexPairs body bytes := by
  induction bytes generalizing body with
  | nil =>
    rw [hexBytes_nil,List.map_eq_nil_iff] at h
    rw [h]
    exact .nil
  | cons b bytes ih =>
    have hb := b.toNat_lt
    obtain ⟨a,t,rfl,ha,ht⟩ := List.map_eq_cons_iff.1 h
    obtain ⟨c,u,rfl,hc,hu⟩ := List.map_eq_cons_iff.1 ht
    have hhigh := (digit?_eq_some_iff (by omega)).2 ha
    have hlow := (digit?_eq_some_iff (by omega)).2 hc
    have hbyte : UInt8.ofNat (b.toNat / 16 * 16 + b.toNat % 16) = b := by
      rw [Nat.div_add_mod',UInt8.ofNat_toNat]
    rw [← hbyte]
    exact .cons hhigh hlow (ih hu)

/-- A row of digits stands for the bytes that are written as the row in capitals. -/
theorem hexPairs_iff_capitals : HexPairs body bytes ↔ body.map Char.toUpper = hexBytes bytes :=
  ⟨HexPairs.capitals,hexPairs_of_capitals⟩

end Case
end Text

namespace Reading
open Scan

variable {body : Text} {bytes : List UInt8} {p : Position} {c d : Cursor}

/-- A row of digits that is read already leaves the cursor where it is. -/
theorem run_hexData_iff : (hexData body p).run c = .ok bytes d ↔ d = c ∧ HexPairs body bytes := by
  rw [(accepts_hexData body p).run_eq_ok_iff]
  constructor
  · rintro ⟨_,hrest,hpos,rfl,h⟩
    cases c
    cases d
    cases hrest
    cases hpos
    exact ⟨rfl,h⟩
  · rintro ⟨rfl,h⟩
    exact ⟨[],rfl,rfl,rfl,h⟩

theorem run_hexData_capitals_iff : (hexData body p).run c = .ok bytes d ↔
    d = c ∧ hexBytes bytes = body.map Char.toUpper := by
  rw [run_hexData_iff,hexPairs_iff_capitals,eq_comm (a := hexBytes bytes)]

theorem hexLiteral_eq_iff {digits : Text} :
    hexLiteral bytes = 'X' :: '\x27' :: (digits ++ ['\x27']) ↔ hexBytes bytes = digits := by
  simp [hexLiteral]

/-- The literal of some bytes is read back as these bytes, and a row of digits is read as the
bytes whose literal holds it in capitals. -/
theorem hexData_inverts_hexLiteral :
    (∀ bytes, ∃ body : Text, hexLiteral bytes = 'X' :: '\x27' :: (body ++ ['\x27']) ∧
      body = bytes.flatMap (fun b => byteStyle.write b.toNat) ∧
      body.length = 2 * bytes.length ∧ (∀ a ∈ body, a ∈ "0123456789ABCDEF".toList) ∧
      ∀ p c, (hexData body p).run c = .ok bytes c) ∧
    (∀ body p c bytes d, (hexData body p).run c = .ok bytes d ↔
      d = c ∧ hexLiteral bytes = 'X' :: '\x27' :: (body.map Char.toUpper ++ ['\x27'])) ∧
    ∀ {body body' p p' c c' bytes bytes' d d'}, (hexData body p).run c = .ok bytes d →
      (hexData body' p').run c' = .ok bytes' d' →
      (bytes = bytes' ↔ body.map Char.toUpper = body'.map Char.toUpper) := by
  refine ⟨fun bytes => ⟨hexBytes bytes,rfl,hexBytes_eq_write bytes,length_hexBytes bytes,
    fun a => capital_of_mem_hexBytes,fun p c => ?_⟩,fun body p c bytes d => ?_,?_⟩
  · exact run_hexData_iff.2 ⟨rfl,hexBytes?_eq_some_iff.1 (hexBytes?_hexBytes bytes)⟩
  · rw [hexLiteral_eq_iff]
    exact run_hexData_capitals_iff
  · intro body body' p p' c c' bytes bytes' d d' h h'
    obtain ⟨_,hbody⟩ := run_hexData_capitals_iff.1 h
    obtain ⟨_,hbody'⟩ := run_hexData_capitals_iff.1 h'
    rw [← hbody,← hbody',hexBytes_inj]

theorem hexData_inverts_hexLiteral_mixedCase :
    (hexData "0aF1".toList ⟨2,7⟩).run ⟨" Z".toList,⟨2,12⟩⟩ = .ok [10,241] ⟨" Z".toList,⟨2,12⟩⟩ ∧
    (hexData "0Af1".toList ⟨5,3⟩).run ⟨[],⟨5,8⟩⟩ = .ok [10,241] ⟨[],⟨5,8⟩⟩ ∧
    (∃ body : Text, '0' ∈ body ∧ '0' ∈ "0123456789ABCDEF".toList ∧
      hexLiteral [10,241] = 'X' :: '\x27' :: (body ++ ['\x27'])) ∧
    "0aF1".toList.map Char.toUpper = "0Af1".toList.map Char.toUpper := by
  obtain ⟨hwrite,hread,hcase⟩ := hexData_inverts_hexLiteral
  obtain ⟨body,hliteral,hbody,_,hcapital,_⟩ := hwrite [10,241]
  have hzero : '0' ∈ body := by
    rw [hbody]
    decide
  have h : (hexData "0aF1".toList ⟨2,7⟩).run ⟨" Z".toList,⟨2,12⟩⟩ =
      .ok [10,241] ⟨" Z".toList,⟨2,12⟩⟩ := (hread _ _ _ _ _).2 ⟨rfl,by decide⟩
  have h' : (hexData "0Af1".toList ⟨5,3⟩).run ⟨[],⟨5,8⟩⟩ = .ok [10,241] ⟨[],⟨5,8⟩⟩ :=
    (hread _ _ _ _ _).2 ⟨rfl,by decide⟩
  exact ⟨h,h',⟨body,hzero,hcapital '0' hzero,hliteral⟩,(hcase h h').1 rfl⟩

end Reading
end SicXE
