import Mathlib.Algebra.Group.Nat.Defs
import SicXE.Machine.Word

/-! # Words and their bytes

Bytes are the digits of a number to the base 256, the most significant first. A word is kept in a
cell of 32 bits, and it is stored as the last three of the four bytes of the cell. A word leaves
the first one zero and fills the others, so that every three bytes are those of one word, and words
are in the order of their bytes.
-/
namespace SicXE

namespace Bytes

/-- A number with one more byte behind its bytes. -/
def push (n : Nat) (b : UInt8) : Nat := n * 256 + b.toNat

/-- The number whose bytes are given. -/
def value (bytes : List UInt8) : Nat := bytes.foldl push 0

end Bytes

namespace Cell

/-- A cell whose bytes have moved up by one place to take another byte. -/
def push (n : UInt32) (b : UInt8) : UInt32 := n <<< 8 ||| b.toUInt32

def ofBytes (bytes : List UInt8) : UInt32 := bytes.foldl push 0

def toBytes (n : UInt32) : List UInt8 :=
  [(n >>> 24).toUInt8,(n >>> 16).toUInt8,(n >>> 8).toUInt8,n.toUInt8]

end Cell

namespace Bytes
variable {a b : UInt8} {as bs : List UInt8} {m n : Nat}

theorem push_lt_iff : push m a < push n b ↔ m < n ∨ m = n ∧ a < b := by
  have ha := a.toNat_lt
  have hb := b.toNat_lt
  rw [UInt8.lt_iff_toNat_lt,push,push]
  omega

theorem push_inj : push m a = push n b ↔ m = n ∧ a = b := by
  have ha := a.toNat_lt
  have hb := b.toNat_lt
  rw [← UInt8.toNat_inj,push,push]
  omega

theorem le_foldl_push (n : Nat) (bs : List UInt8) : n ≤ bs.foldl push n := by
  induction bs generalizing n with
  | nil => exact Nat.le_refl n
  | cons b bs ih =>
    have hn : n ≤ push n b := by
      rw [push]
      omega
    exact Nat.le_trans hn (ih _)

/-- Of two numbers with as many bytes behind them, the bytes decide only where the numbers are
equal. -/
theorem foldl_push_lt_iff (h : as.length = bs.length) :
    as.foldl push m < bs.foldl push n ↔ m < n ∨ m = n ∧ List.Lex (· < ·) as bs := by
  induction as generalizing bs m n with
  | nil =>
    obtain rfl := List.length_eq_zero_iff.1 h.symm
    simp
  | cons a as ih =>
    obtain ⟨b,bs,rfl⟩ := List.exists_cons_of_length_eq_add_one h.symm
    rw [List.foldl_cons,List.foldl_cons,ih (Nat.succ.inj h),push_lt_iff,push_inj,
      List.cons_lex_cons_iff,or_assoc,and_assoc,← and_or_left]

theorem foldl_push_inj (h : as.length = bs.length) :
    as.foldl push m = bs.foldl push n ↔ m = n ∧ as = bs := by
  induction as generalizing bs m n with
  | nil =>
    obtain rfl := List.length_eq_zero_iff.1 h.symm
    simp
  | cons a as ih =>
    obtain ⟨b,bs,rfl⟩ := List.exists_cons_of_length_eq_add_one h.symm
    rw [List.foldl_cons,List.foldl_cons,ih (Nat.succ.inj h),push_inj,List.cons.injEq,and_assoc]

theorem value_zero_cons (bs : List UInt8) : value (0 :: bs) = value bs := rfl

theorem value_three (high middle low : UInt8) :
    value [high,middle,low] = 65536 * high.toNat + 256 * middle.toNat + low.toNat := by
  change ((0 * 256 + high.toNat) * 256 + middle.toNat) * 256 + low.toNat = _
  omega

theorem value_lt_iff (h : as.length = bs.length) :
    value as < value bs ↔ List.Lex (· < ·) as bs := by
  rw [value,value,foldl_push_lt_iff h]
  simp

theorem value_inj (h : as.length = bs.length) : value as = value bs ↔ as = bs := by
  rw [value,value,foldl_push_inj h]
  simp

end Bytes

namespace Cell
open Bytes (value)

variable {b : UInt8} {bytes : List UInt8} {n : UInt32}

theorem toNat_push (h : n.toNat < 2 ^ 24) : (push n b).toNat = Bytes.push n.toNat b := by
  have hb : b.toNat < 2 ^ 8 := b.toNat_lt
  have hshift : (n <<< 8).toNat = n.toNat <<< 8 := by
    have hlt : n.toNat <<< 8 < 2 ^ 32 := by
      rw [Nat.shiftLeft_eq]
      omega
    rw [UInt32.toNat_shiftLeft]
    exact Nat.mod_eq_of_lt hlt
  rw [push,UInt32.toNat_or,hshift,UInt8.toNat_toUInt32,← Nat.shiftLeft_add_eq_or_of_lt hb,
    Nat.shiftLeft_eq,Bytes.push]

/-- Nothing is lost as long as the number fits the cell. -/
theorem toNat_foldl_push (h : bytes.foldl Bytes.push n.toNat < 2 ^ 32) :
    (bytes.foldl push n).toNat = bytes.foldl Bytes.push n.toNat := by
  induction bytes generalizing n with
  | nil => rfl
  | cons b bytes ih =>
    -- The number only grows, so where it fits in the end there was room for each byte.
    have hle := Bytes.le_foldl_push (Bytes.push n.toNat b) bytes
    have hn : n.toNat < 2 ^ 24 := by
      rw [List.foldl_cons] at h
      rw [Bytes.push] at hle h
      omega
    rw [List.foldl_cons,← toNat_push hn] at h
    rw [List.foldl_cons,List.foldl_cons,← toNat_push hn]
    exact ih h

theorem toNat_ofBytes (h : value bytes < 2 ^ 32) : (ofBytes bytes).toNat = value bytes :=
  toNat_foldl_push h

theorem length_toBytes (n : UInt32) : (toBytes n).length = 4 := rfl

theorem value_toBytes (n : UInt32) : value (toBytes n) = n.toNat := by
  have hn := n.toNat_lt
  simp only [value,toBytes,List.foldl_cons,List.foldl_nil,Bytes.push,UInt32.toNat_toUInt8,
    UInt32.toNat_shiftRight,UInt32.reduceToNat,Nat.reduceMod,Nat.shiftRight_eq_div_pow]
  omega

end Cell

namespace Word
open Bytes (value)

theorem length_toBytes (w : Word) : (toBytes w).length = 3 := rfl

theorem bits_eq (w : Word) :
    w.bits = 65536 * (high w).toNat + 256 * (middle w).toNat + (low w).toNat := by
  have hw := w.bits_lt
  have hc : capacity 24 = 16777216 := rfl
  simp only [high,middle,low,UInt8.toNat_ofNat']
  omega

theorem value_toBytes (w : Word) : value (toBytes w) = w.bits := by
  rw [toBytes,Bytes.value_three,← bits_eq]

theorem bits_ofBytes (high middle low : UInt8) :
    (ofBytes high middle low).bits = value [high,middle,low] := by
  have hbits : (ofBytes high middle low).bits =
      high.toNat * 65536 + middle.toNat * 256 + low.toNat := rfl
  rw [hbits,Bytes.value_three]
  omega

theorem ofBytes_toBytes (w : Word) : ofBytes (high w) (middle w) (low w) = w :=
  Unsigned.ext ((bits_ofBytes _ _ _).trans (value_toBytes w))

theorem toBytes_ofBytes (high middle low : UInt8) :
    toBytes (ofBytes high middle low) = [high,middle,low] := by
  have hlen : (toBytes (ofBytes high middle low)).length = [high,middle,low].length :=
    length_toBytes _
  rw [← Bytes.value_inj hlen,value_toBytes,bits_ofBytes]

theorem le_iff_toBytes {v w : Word} :
    v ≤ w ↔ toBytes v = toBytes w ∨ List.Lex (· < ·) (toBytes v) (toBytes w) := by
  have hlen : (toBytes v).length = (toBytes w).length :=
    (length_toBytes v).trans (length_toBytes w).symm
  rw [← Bytes.value_inj hlen,← Bytes.value_lt_iff hlen,value_toBytes,value_toBytes]
  exact Nat.le_iff_lt_or_eq.trans Or.comm

/-- The first byte of a cell that holds a word is zero, and the others are the bytes of the word. -/
theorem toBytes_cell {n : UInt32} {w : Word} (h : w.bits = n.toNat) :
    Cell.toBytes n = 0 :: toBytes w := by
  have hlen : (Cell.toBytes n).length = (0 :: toBytes w).length :=
    (Cell.length_toBytes n).trans (congrArg Nat.succ (length_toBytes w)).symm
  rw [← Bytes.value_inj hlen,Cell.value_toBytes,Bytes.value_zero_cons,value_toBytes,h]

/-- A zero and three bytes fill a cell with the word of these bytes. -/
theorem bits_cell (high middle low : UInt8) :
    (ofBytes high middle low).bits = (Cell.ofBytes [0,high,middle,low]).toNat := by
  have hvalue : value [0,high,middle,low] = (ofBytes high middle low).bits := by
    rw [Bytes.value_zero_cons,bits_ofBytes]
  have hfits : value [0,high,middle,low] < 2 ^ 32 := by
    rw [hvalue]
    exact Nat.lt_trans (ofBytes high middle low).bits_lt (by decide)
  rw [Cell.toNat_ofBytes hfits,hvalue]

end Word

open Word

/-- Just the numbers below 2 ^ 24 are words, and the bytes of a word are the last three of its cell
and its digits to the base 256. Words and three bytes correspond to each other, and the order of
words is the lexicographic order of their bytes. -/
theorem words_ordered_as_bytes :
    (∀ n : UInt32, ((∃ w : Word, Unsigned.ofNat 24 n.toNat = .ok w) ↔ n.toNat < 2 ^ 24) ∧
      ∀ w : Word, Unsigned.ofNat 24 n.toNat = .ok w → ∃ high middle low : UInt8,
        toBytes w = [high,middle,low] ∧ Cell.toBytes n = [0,high,middle,low] ∧
        n.toNat = 65536 * high.toNat + 256 * middle.toNat + low.toNat) ∧
    (∀ w : Word, ∃ high middle low : UInt8,
      toBytes w = [high,middle,low] ∧ ofBytes high middle low = w) ∧
    (∀ high middle low : UInt8, toBytes (ofBytes high middle low) = [high,middle,low] ∧
      Unsigned.ofNat 24 (Cell.ofBytes [0,high,middle,low]).toNat = .ok (ofBytes high middle low) ∧
      ofBytes high middle low ≤ .max 24) ∧
    ∀ v w : Word, v ≤ w ↔ toBytes v = toBytes w ∨ List.Lex (· < ·) (toBytes v) (toBytes w) := by
  refine ⟨fun n => ⟨⟨?_,?_⟩,fun w hw => ?_⟩,fun w => ⟨high w,middle w,low w,rfl,ofBytes_toBytes w⟩,
    fun high middle low => ⟨toBytes_ofBytes high middle low,?_,Unsigned.le_max _⟩,
    fun v w => le_iff_toBytes⟩
  · rintro ⟨w,hw⟩
    rw [← Unsigned.ofNat_eq_ok_iff.1 hw]
    exact w.bits_lt
  · intro hn
    exact ⟨⟨n.toNat,hn⟩,Unsigned.ofNat_eq_ok_iff.2 rfl⟩
  · have hbits := Unsigned.ofNat_eq_ok_iff.1 hw
    exact ⟨high w,middle w,low w,rfl,toBytes_cell hbits,hbits ▸ bits_eq w⟩
  · exact Unsigned.ofNat_eq_ok_iff.2 (bits_cell high middle low)

theorem words_ordered_as_bytes_gap :
    Unsigned.ofNat 24 (0xFF00FE : UInt32).toNat = .ok ⟨0xFF00FE,by decide⟩ ∧
    ∃ high middle low : UInt8, toBytes ⟨0xFF00FE,by decide⟩ = [high,middle,low] ∧
      Cell.toBytes 0xFF00FE = [0,high,middle,low] ∧
      (0xFF00FE : UInt32).toNat = 65536 * high.toNat + 256 * middle.toNat + low.toNat := by
  have hw : Unsigned.ofNat 24 (0xFF00FE : UInt32).toNat = .ok ⟨0xFF00FE,by decide⟩ := rfl
  obtain ⟨hnarrow,_⟩ := words_ordered_as_bytes
  exact ⟨hw,(hnarrow 0xFF00FE).2 _ hw⟩

end SicXE
