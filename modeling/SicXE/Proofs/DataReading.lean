import SicXE.Proofs.Encoding
import SicXE.Proofs.Messages
import SicXE.Proofs.NumberReading

/-! # Data are read exactly

Data are characters or hexadecimal digits between quotes, or a number that fills a word. A row of
digits is checked before it is cut into pairs, so that each pair lies within the body and starts and
ends with a character, and the faults that would tell otherwise never occur.
-/
namespace SicXE
open Text

/-- The part of a text between two offsets in bytes, at each of which a character starts or the
text ends. -/
structure Text.Utf8.Slice (t : Text) (i j : Nat) (part : Text) : Prop where
  within : ∃ before behind, t = before ++ (part ++ behind) ∧ (encode before).length = i
  length : i + (encode part).length = j

/-- Bytes as the values of pairs of hexadecimal digits at even places and behind them. -/
structure Text.PairsAt (body : Text) (bytes : List UInt8) : Prop where
  length : body.length = 2 * bytes.length
  pairs : ∀ k b, bytes[k]? = some b → ∃ high low,
    (body[2 * k]?).bind (digit? 16) = some high ∧
    (body[2 * k + 1]?).bind (digit? 16) = some low ∧ b.toNat = 16 * high + low

namespace Text
variable {body t : Text} {bytes : List UInt8} {n : Nat}

theorem digit?_lt {radix : Nat} {a : Char} (h : digit? radix a = some n) : n < radix := by
  obtain ⟨_,hn⟩ := Option.filter_eq_some_iff.1 h
  simpa using hn

theorem toNat_pair {high low : Nat} {a b : Char} (ha : digit? 16 a = some high)
    (hb : digit? 16 b = some low) : (UInt8.ofNat (high * 16 + low)).toNat = 16 * high + low := by
  have hhigh := digit?_lt ha
  have hlow := digit?_lt hb
  rw [UInt8.toNat_ofNat',Nat.mod_eq_of_lt (by omega)]
  omega

theorem HexPairs.pairsAt (h : HexPairs body bytes) : PairsAt body bytes := by
  induction h with
  | nil => exact ⟨rfl,fun k b hb => by simp at hb⟩
  | cons ha hb _ ih =>
    refine ⟨by simp only [List.length_cons,ih.length]; omega,fun k => ?_⟩
    cases k with
    | zero =>
      rintro _ ⟨⟩
      exact ⟨_,_,ha,hb,toNat_pair ha hb⟩
    | succ k => exact ih.pairs k

theorem PairsAt.hexPairs (h : PairsAt body bytes) : HexPairs body bytes := by
  induction bytes generalizing body with
  | nil =>
    have hbody : body = [] := List.length_eq_zero_iff.1 h.length
    rw [hbody]
    exact .nil
  | cons b bytes ih =>
    match body,h with
    | a :: c :: t,h =>
      obtain ⟨high,low,ha,hc,hb⟩ := h.pairs 0 b rfl
      have hlen := h.length
      simp only [List.length_cons] at hlen
      have hrest : PairsAt t bytes := ⟨by omega,fun k => h.pairs (k + 1)⟩
      have hpair : b = UInt8.ofNat (high * 16 + low) := by
        rw [← UInt8.toNat_inj,toNat_pair ha hc,hb]
      rw [hpair]
      exact .cons ha hc (ih hrest)
    | [],h => exact absurd h.length (by simp)
    | [_],h =>
      have hlen := h.length
      simp only [List.length_cons,List.length_nil] at hlen
      omega

theorem hexPairs_iff : HexPairs body bytes ↔ PairsAt body bytes :=
  ⟨HexPairs.pairsAt,PairsAt.hexPairs⟩

theorem toNat_wordBytes (hn : n ≤ 16777215) :
    (wordBytes n).map UInt8.toNat = [n / 65536,n / 256 % 256,n % 256] := by
  simp only [wordBytes,List.map_cons,List.map_nil,UInt8.toNat_ofNat']
  rw [Nat.mod_eq_of_lt (by omega : n / 65536 < 2 ^ 8)]

theorem eq_wordBytes_iff (hn : n ≤ 16777215) :
    bytes = wordBytes n ↔ bytes.map UInt8.toNat = [n / 65536,n / 256 % 256,n % 256] := by
  rw [← toNat_wordBytes hn]
  exact (List.map_inj_right fun _ _ => UInt8.toNat_inj.1).symm

section Slices

theorem length_encodeChar {a : Char} (h : isHexDigit a) :
    (String.utf8EncodeChar a).length = 1 := by
  have hv : a.val.toNat < 128 := toNat_lt_of_isDigitOf h
  simp only [String.utf8EncodeChar]
  rw [if_pos (by omega)]
  rfl

theorem length_encode (h : ∀ a ∈ t, isHexDigit a) : (Utf8.encode t).length = t.length := by
  induction t with
  | nil => rfl
  | cons a t ih =>
    rw [Utf8.encode_cons,List.length_append,length_encodeChar (h a List.mem_cons_self),
      ih fun b hb => h b (List.mem_cons_of_mem a hb),List.length_cons,Nat.add_comm]

/-- Two digits that follow each other are cut out at the offsets of their places. -/
theorem slice_of_digits {i : Nat} {a b : Char} (h : ∀ a ∈ body, isHexDigit a)
    (ha : body[i]? = some a) (hb : body[i + 1]? = some b) :
    Utf8.Slice body i (i + 2) [a,b] := by
  obtain ⟨hi,hia⟩ := List.getElem?_eq_some_iff.1 ha
  obtain ⟨hi',hib⟩ := List.getElem?_eq_some_iff.1 hb
  have hsplit : body = body.take i ++ ([a,b] ++ body.drop (i + 2)) := by
    have h₁ := List.drop_eq_getElem_cons hi
    have h₂ := List.drop_eq_getElem_cons hi'
    rw [hia] at h₁
    rw [hib] at h₂
    calc body = body.take i ++ body.drop i := (List.take_append_drop i body).symm
      _ = body.take i ++ ([a,b] ++ body.drop (i + 2)) := by rw [h₁,h₂]; rfl
  have hpair : ∀ c ∈ [a,b], isHexDigit c := fun c hc => by
    refine h c ?_
    rw [hsplit]
    exact List.mem_append_right _ (List.mem_append_left _ hc)
  refine ⟨⟨body.take i,body.drop (i + 2),hsplit,?_⟩,?_⟩
  · rw [length_encode fun c hc => h c (List.mem_of_mem_take hc)]
    exact List.length_take_of_le (by omega)
  · rw [length_encode hpair]
    rfl

/-- The bytes of a row of digits come from the slices of two bytes that it falls into. -/
theorem PairsAt.slice (h : PairsAt body bytes) (hd : ∀ a ∈ body, isHexDigit a) {k : Nat}
    {byte : UInt8} (hk : bytes[k]? = some byte) : ∃ a b high low,
    Utf8.Slice body (2 * k) (2 * k + 2) [a,b] ∧ digit? 16 a = some high ∧
      digit? 16 b = some low ∧ byte.toNat = 16 * high + low := by
  obtain ⟨high,low,hhigh,hlow,hbyte⟩ := h.pairs k byte hk
  obtain ⟨a,ha,hhigh⟩ := Option.bind_eq_some_iff.1 hhigh
  obtain ⟨b,hb,hlow⟩ := Option.bind_eq_some_iff.1 hlow
  exact ⟨a,b,high,low,slice_of_digits hd ha hb,hhigh,hlow,hbyte⟩

end Slices
end Text

namespace Reading
open Scan

variable {c d : Cursor} {bytes : List UInt8} {body t u : Text}

/-- What stands for the bytes at the start of a text, up to where the cursor is left. -/
inductive DataAt (c : Cursor) (bytes : List UInt8) (d : Cursor) (t : Text) : Prop where
  | characters {body : Text} : t = 'C' :: '\x27' :: (body ++ ['\x27']) →
      (∀ a ∈ body, a ≠ '\x27' ∧ a ≠ '\n') → bytes = Utf8.encode body → DataAt c bytes d t
  | digits {body : Text} : t = 'X' :: '\x27' :: (body ++ ['\x27']) → PairsAt body bytes →
      DataAt c bytes d t
  | word {n : Nat} : c.rest.head?.any Char.isDigit → (number 0 16777215).run c = .ok n d →
      bytes.map UInt8.toNat = [n / 65536,n / 256 % 256,n % 256] → DataAt c bytes d t

theorem number_run_iff {n : Nat} : (number 0 16777215).run c = .ok n d ↔
    ∃ t, c.rest = t ++ d.rest ∧ d.pos = c.pos.past t ∧ NumberWritten 0 16777215 t n d.rest :=
  (accepts_number (by decide)).run_eq_ok_iff

theorem dataWritten_iff (hrest : c.rest = t ++ d.rest) (hpos : d.pos = c.pos.past t) :
    DataWritten t bytes d.rest ↔ DataAt c bytes d t := by
  constructor
  · intro h
    cases h with
    | literal hl =>
      cases hl with
      | characters hb => exact .characters rfl hb rfl
      | digits hb => exact .digits rfl (hexPairs_iff.1 hb)
    | @word _ n hn =>
      refine .word ?_ (number_run_iff.2 ⟨t,hrest,hpos,hn⟩) (toNat_wordBytes hn.le_hi)
      rw [hrest]
      exact hn.head_append
  · intro h
    cases h with
    | characters ht hb hbytes =>
      rw [ht,hbytes]
      exact .literal (.characters hb)
    | digits ht hb =>
      rw [ht]
      exact .literal (.digits (hexPairs_iff.2 hb))
    | word _ hn hbytes =>
      obtain ⟨t',hrest',_,hw⟩ := number_run_iff.1 hn
      have ht : t = t' := List.append_cancel_right (hrest.symm.trans hrest')
      rw [ht,(eq_wordBytes_iff hw.le_hi).2 hbytes]
      exact .word hw

theorem run_data_iff : data.run c = .ok bytes d ↔
    ∃ t, c.rest = t ++ d.rest ∧ d.pos = c.pos.past t ∧ DataAt c bytes d t := by
  rw [accepts_data.run_eq_ok_iff]
  constructor
  · rintro ⟨t,hrest,hpos,h⟩
    exact ⟨t,hrest,hpos,(dataWritten_iff hrest hpos).1 h⟩
  · rintro ⟨t,hrest,hpos,h⟩
    exact ⟨t,hrest,hpos,(dataWritten_iff hrest hpos).2 h⟩

/-- A closed row of digits is taken to its end before any of it is looked at. -/
theorem run_data_digits {p : Position} (hb : ∀ a ∈ body, a ≠ '\x27' ∧ a ≠ '\n') :
    data.run ⟨'X' :: '\x27' :: (body ++ '\x27' :: u),p⟩ =
      (hexData body (p.along 2)).run
        ⟨u,(p.along 2).past (body ++ ['\x27'])⟩ := by
  have hquoted : Reads quoted (body ++ ['\x27']) body u := accepts_quoted.reads ⟨rfl,hb⟩
  have hrun := hquoted.run (p.along 2)
  rw [List.append_assoc,List.singleton_append] at hrun
  refine (run_bind_of_ok (reads_advanceIf_ne (a := 'C') (by simp) p)).trans ?_
  rw [if_neg Bool.false_ne_true]
  refine (run_bind_of_ok (reads_advanceIf 'X' _ _)).trans ?_
  rw [if_pos rfl]
  refine (run_bind_of_ok (reads_expect '\x27' _ _)).trans ?_
  refine (run_bind_of_ok (x := here) rfl).trans ?_
  exact run_bind_of_ok hrun

theorem run_hexData_invalid {v w : Text} {a : Char} {p : Position} (hv : ∀ b ∈ v, isHexDigit b)
    (ha : isHexDigit a = false) :
    (hexData (v ++ a :: w) p).run c = .error ⟨.invalidHexDigit a,p.along v.length⟩ c := by
  have hstops : Stops isHexDigit (a :: w) := stops_cons.2 ha
  unfold hexData
  rw [dropWhile_run hv hstops,takeWhile_run hv hstops]
  rfl

theorem run_hexData_odd {p : Position} (hd : ∀ a ∈ body, isHexDigit a)
    (hodd : body.length % 2 = 1) :
    (hexData body p).run c = .error ⟨.oddHexLiteral body,p⟩ c := by
  have hdrop : body.dropWhile isHexDigit = [] := by
    rw [← List.append_nil body]
    exact dropWhile_run hd stops_nil
  unfold hexData
  rw [hdrop]
  dsimp only
  rw [if_pos (by omega)]
  rfl

/-- The messages of the internal faults hold nowhere, so they are never reported. -/
theorem message_ne_of_run_data {e : Diagnostic} (h : data.run c = .error e d) :
    e.message ≠ "Invalid hex literal" ∧ ∀ (n : Nat) (cause : String),
      e.message ≠ s!"Number '{n}' does not fit in a word: {cause}" := by
  obtain ⟨b,_,_,hholds⟩ := truthful_data c e d h
  exact ⟨hholds.message_ne_invalidHexLiteral,hholds.message_ne_wordOverflow⟩

theorem exists_run_data_pairs (hc : c.rest = 'X' :: '\x27' :: (body ++ '\x27' :: u))
    (hd : ∀ a ∈ body, isHexDigit a) (heven : body.length % 2 = 0) :
    ∃ bytes d, data.run c = .ok bytes d ∧ PairsAt body bytes := by
  obtain ⟨bytes,hbytes⟩ := exists_hexBytes? body hd heven
  have hpairs := hexPairs_iff.1 (hexBytes?_eq_some_iff.1 hbytes)
  have hrest : c.rest = 'X' :: '\x27' :: (body ++ ['\x27']) ++ u := by
    rw [hc]
    simp
  exact ⟨bytes,⟨u,c.pos.past ('X' :: '\x27' :: (body ++ ['\x27']))⟩,
    run_data_iff.2 ⟨_,hrest,rfl,.digits rfl hpairs⟩,hpairs⟩

/-- Data are read exactly where they are written, and nowhere else. A closed row of digits is
rejected at its first character that is no digit, else for its odd length, and is otherwise cut
into slices of two bytes. Two of the messages are never reported. -/
theorem data_exact (c : Cursor) :
    (∀ bytes d, data.run c = .ok bytes d ↔
      ∃ t, c.rest = t ++ d.rest ∧ d.pos = c.pos.past t ∧ DataAt c bytes d t) ∧
    (∀ {body u : Text}, c.rest = 'X' :: '\x27' :: (body ++ '\x27' :: u) →
      (∀ a ∈ body, a ≠ '\x27' ∧ a ≠ '\n') →
      (∀ v a w, body = v ++ a :: w → (∀ b ∈ v, isHexDigit b) → isHexDigit a = false →
        ∃ e d, data.run c = .error e d ∧ e.message = s!"Invalid hex digit '{a}' in literal" ∧
          e.location = c.pos.along (v.length + 2)) ∧
      ((∀ a ∈ body, isHexDigit a) → (Utf8.encode body).length % 2 = 1 →
        ∃ e d, data.run c = .error e d ∧ e.location = c.pos.along 2 ∧
          e.message = s!"Hex literal '{String.ofList body}' has an odd number of digits") ∧
      ((∀ a ∈ body, isHexDigit a) → (Utf8.encode body).length % 2 = 0 →
        ∃ bytes d, data.run c = .ok bytes d ∧
          (Utf8.encode body).length = 2 * bytes.length ∧
          ∀ k b, bytes[k]? = some b → ∃ x y high low,
            Utf8.Slice body (2 * k) (2 * k + 2) [x,y] ∧ digit? 16 x = some high ∧
              digit? 16 y = some low ∧ b.toNat = 16 * high + low)) ∧
    ∀ e d, data.run c = .error e d →
      e.message ≠ "Invalid hex literal" ∧ ∀ (n : Nat) (cause : String),
        e.message ≠ s!"Number '{n}' does not fit in a word: {cause}" := by
  refine ⟨fun bytes d => run_data_iff,fun {body u} hc hb => ?_,fun e d => message_ne_of_run_data⟩
  have hrun := run_data_digits (u := u) (p := c.pos) hb
  rw [← hc] at hrun
  refine ⟨fun v a w hbody hv ha => ?_,fun hd hodd => ?_,fun hd heven => ?_⟩
  · rw [hbody,run_hexData_invalid hv ha] at hrun
    have hcol : (c.pos.along 2).along v.length = c.pos.along (v.length + 2) := by
      simp only [Position.along,Nat.add_assoc,Nat.add_comm 2]
    rw [hcol] at hrun
    exact ⟨_,_,hrun,rfl,rfl⟩
  · rw [length_encode hd] at hodd
    rw [run_hexData_odd hd hodd] at hrun
    exact ⟨_,_,hrun,rfl,Fault.message_oddHexLiteral body⟩
  · rw [length_encode hd] at heven ⊢
    obtain ⟨bytes,d,hok,hpairs⟩ := exists_run_data_pairs hc hd heven
    exact ⟨bytes,d,hok,hpairs.length,fun k b => hpairs.slice hd⟩

theorem data_exact_invalid_odd :
    ∃ e d, data.run ⟨"X'0aé' Z".toList,⟨3,7⟩⟩ = .error e d ∧
      e.message = "Invalid hex digit 'é' in literal" ∧ e.location = ⟨3,11⟩ := by
  have hc : "X'0aé' Z".toList = 'X' :: '\x27' :: (['0','a','é'] ++ '\x27' :: " Z".toList) := rfl
  have hv : ∀ a ∈ ['0','a'], isHexDigit a := List.all_eq_true.1 (by decide)
  obtain ⟨_,hdigits,_⟩ := data_exact ⟨"X'0aé' Z".toList,⟨3,7⟩⟩
  obtain ⟨e,d,hrun,hmessage,hlocation⟩ :=
    (hdigits hc (by simp)).1 ['0','a'] 'é' [] rfl hv (by decide)
  exact ⟨e,d,hrun,hmessage.trans (by decide),hlocation⟩

end Reading
end SicXE
