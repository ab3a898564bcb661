import Mathlib.Data.List.TakeWhile
import SicXE.Text.Numeral

/-! # Character classes and trimming

No symbol character is whitespace, so words end where blanks start. The classes are tables of
code points, and two tables are apart when no member of the first lies in the second, which is
checked by running over the first. Trimming is determined by what it leaves: the text is a
visible part with whitespace around it.
-/
namespace SicXE.Text

namespace Ranges

theorem mem_of_contains {r : Ranges} {n : Nat} (h : r.contains n) :
    ∃ i ∈ r, i.1 ≤ n ∧ n ≤ i.2 := by
  induction r with
  | nil => simp at h
  | cons i rest ih =>
    rw [contains_cons] at h
    by_cases hlo : n < i.1
    · simp [hlo] at h
    · by_cases hhi : n ≤ i.2
      · exact ⟨i,List.mem_cons_self,by omega,hhi⟩
      · simp only [hlo,hhi,if_false] at h
        obtain ⟨j,hj,hn⟩ := ih h
        exact ⟨j,List.mem_cons_of_mem _ hj,hn⟩

/-- No member of the first set is a member of the second. -/
def apart (r s : Ranges) : Bool :=
  r.all fun i => (List.range (i.2 + 1 - i.1)).all fun k => !s.contains (i.1 + k)

theorem not_contains_of_apart {r s : Ranges} {n : Nat} (h : apart r s) (hn : r.contains n) :
    s.contains n = false := by
  obtain ⟨i,hi,hlo,hhi⟩ := mem_of_contains hn
  have hk := List.all_eq_true.1 (List.all_eq_true.1 h i hi) (n - i.1)
    (List.mem_range.2 (by omega))
  rw [show i.1 + (n - i.1) = n by omega] at hk
  simpa using hk

end Ranges

theorem isSymbolChar_of_isWhitespace {a : Char} (h : isWhitespace a) : isSymbolChar a = false := by
  have ha : isAlphabetic a = false :=
    Ranges.not_contains_of_apart (s := Alphabetic.table) (by decide +kernel) h
  have hn : isNumeric a = false :=
    Ranges.not_contains_of_apart (s := Numeric.table) (by decide +kernel) h
  have hu : a ≠ '_' := by
    rintro rfl
    revert h
    decide
  simp [isSymbolChar,ha,hn,hu]

theorem isWhitespace_of_isSymbolChar {a : Char} (h : isSymbolChar a) : isWhitespace a = false := by
  cases hw : isWhitespace a with
  | false => rfl
  | true =>
    rw [isSymbolChar_of_isWhitespace hw] at h
    cases h

theorem isSymbolChar_of_isAlphabetic {a : Char} (h : isAlphabetic a) : isSymbolChar a := by
  simp [isSymbolChar,h]

theorem isSymbolChar_of_isSymbolStart {a : Char} (h : isSymbolStart a) : isSymbolChar a := by
  simp only [isSymbolStart,Bool.or_eq_true] at h
  rcases h with h | h <;> simp [isSymbolChar,h]

theorem isBlank_of_isSymbolChar {a : Char} (h : isSymbolChar a) : isBlank a = false := by
  simp [isBlank,isWhitespace_of_isSymbolChar h]

theorem isWhitespace_of_isBlank {a : Char} (h : isBlank a) : isWhitespace a := by
  simp only [isBlank,Bool.and_eq_true] at h
  exact h.1

theorem ne_newline_of_isBlank {a : Char} (h : isBlank a) : a ≠ '\n' := by
  rintro rfl
  simp at h

/-- The letters of every script lie beyond the digits, the marks and the signs of the ASCII
characters. -/
theorem isAlphabetic_of_lt {a : Char} (h : a.toNat < 0x41) : isAlphabetic a = false := by
  have ht : Alphabetic.table = (0x41,0x5A) :: Alphabetic.table.tail := rfl
  rw [isAlphabetic,ht,Ranges.contains_cons,if_pos h]

theorem visible_of_all {t : Text} (h : t.all fun a => !isWhitespace a) :
    ∀ a ∈ t, isWhitespace a = false := by
  simpa using h

theorem toNat_of_isDigit {a : Char} (h : a.isDigit) : 48 ≤ a.toNat ∧ a.toNat ≤ 57 := by
  simpa [Char.isDigit,UInt32.le_iff_toNat_le] using h

theorem isSymbolChar_of_isDigit {a : Char} (h : a.isDigit) : isSymbolChar a := by
  obtain ⟨hlo,hhi⟩ := toNat_of_isDigit h
  have ht : Numeric.table = (0x30,0x39) :: Numeric.table.tail := rfl
  have hn : isNumeric a := by
    rw [isNumeric,ht,Ranges.contains_cons,if_neg (by omega),if_pos hhi]
  simp [isSymbolChar,hn]

theorem isDigit_of_isSymbolStart {a : Char} (h : isSymbolStart a) : a.isDigit = false := by
  cases hd : a.isDigit with
  | false => rfl
  | true =>
    obtain ⟨hlo,hhi⟩ := toNat_of_isDigit hd
    have hu : a ≠ '_' := by
      rintro rfl
      revert hd
      decide
    simp [isSymbolStart,isAlphabetic_of_lt (by omega : a.toNat < 0x41),hu] at h

/-- The text does not start with a character of the class, so a run of them stops before it. -/
def Stops (p : Char → Bool) (u : Text) : Prop := ∀ a ∈ u.head?, p a = false

instance (p : Char → Bool) (u : Text) : Decidable (Stops p u) :=
  decidable_of_iff (u.head?.any p = false) (by cases u <;> simp [Stops])

/-- Nothing of the line is left. -/
def Ended (u : Text) : Prop := u.head? = none ∨ u.head? = some '\n'

theorem ended_iff {u : Text} : (u.head? == none || u.head? == some '\n') = true ↔ Ended u := by
  simp [Ended]

theorem endsLine_eq_false {t : Text} (ht : t ≠ []) (hv : ∀ a ∈ t, isWhitespace a = false)
    (u : Text) : ((t ++ u).head? == none || (t ++ u).head? == some '\n') = false := by
  obtain ⟨a,rest,rfl⟩ := List.exists_cons_of_ne_nil ht
  have ha := hv a List.mem_cons_self
  have hn : a ≠ '\n' := by
    rintro rfl
    revert ha
    decide
  simpa using hn

section Runs
variable {p : Char → Bool} {t u : Text}

@[simp] theorem stops_nil : Stops p [] := by
  intro a ha
  simp at ha

@[simp] theorem stops_cons {a : Char} : Stops p (a :: u) ↔ p a = false := by
  simp [Stops]

theorem stops_of_forall (h : ∀ a ∈ u, p a = false) : Stops p u := by
  intro a ha
  exact h a (List.mem_of_mem_head? ha)

theorem stops_reverse_of_forall (h : ∀ a ∈ u, p a = false) : Stops p u.reverse :=
  stops_of_forall fun a ha => h a (List.mem_reverse.1 ha)

theorem Stops.append (h : Stops p t) (hne : t ≠ []) : Stops p (t ++ u) := by
  obtain ⟨a,rest,rfl⟩ := List.exists_cons_of_ne_nil hne
  exact h

theorem stops_dropWhile : Stops p (t.dropWhile p) := by
  intro a ha
  have h := List.head?_dropWhile_not p t
  rw [ha] at h
  exact h

theorem dropWhile_of_stops (h : Stops p u) : u.dropWhile p = u := by
  cases u with
  | nil => rfl
  | cons a rest => simp [stops_cons.1 h]

theorem takeWhile_of_stops (h : Stops p u) : u.takeWhile p = [] := by
  cases u with
  | nil => rfl
  | cons a rest => simp [stops_cons.1 h]

theorem takeWhile_run (ht : ∀ a ∈ t, p a) (hu : Stops p u) : (t ++ u).takeWhile p = t := by
  rw [List.takeWhile_append_of_pos ht,takeWhile_of_stops hu,List.append_nil]

theorem dropWhile_run (ht : ∀ a ∈ t, p a) (hu : Stops p u) : (t ++ u).dropWhile p = u := by
  rw [List.dropWhile_append_of_pos ht,dropWhile_of_stops hu]

/-- A character outside the class ends every run before it, whatever follows. -/
theorem takeWhile_append_of_stops (hu : Stops p u) (t : Text) :
    (t ++ u).takeWhile p = t.takeWhile p := by
  induction t with
  | nil => exact takeWhile_of_stops hu
  | cons a t ih =>
    rw [List.cons_append,List.takeWhile_cons,List.takeWhile_cons,ih]

theorem Ended.stops (h : Ended u) (hp : p '\n' = false) : Stops p u := by
  intro a ha
  rcases h with h | h
  · rw [h] at ha
    cases ha
  · rw [h] at ha
    cases ha
    exact hp

theorem takeWhile_append_of_mem {a : Char} (ha : a ∈ t) (hp : p a = false) (u : Text) :
    (t ++ u).takeWhile p = t.takeWhile p := by
  induction t with
  | nil => cases ha
  | cons b t ih =>
    rw [List.cons_append,List.takeWhile_cons,List.takeWhile_cons]
    cases hb : p b with
    | false => rfl
    | true =>
      have hne : a ≠ b := by
        rintro rfl
        rw [hp] at hb
        cases hb
      rw [ih ((List.mem_cons.1 ha).resolve_left hne)]

theorem bne_of_not_mem {b : Char} (h : b ∉ t) : ∀ a ∈ t, (a != b) = true := by
  intro a ha
  have hn : a ≠ b := by
    rintro rfl
    exact h ha
  simpa using hn

end Runs

section Trimming
variable {t w : Text}

theorem trimEnd_append (ht : Stops isWhitespace t.reverse) (hw : ∀ a ∈ w, isWhitespace a) :
    trimEnd (t ++ w) = t := by
  have hr : ∀ a ∈ w.reverse, isWhitespace a := fun a ha => hw a (List.mem_reverse.1 ha)
  rw [trimEnd,List.reverse_append,dropWhile_run hr ht,List.reverse_reverse]

theorem trimEnd_eq_self (ht : Stops isWhitespace t.reverse) : trimEnd t = t := by
  rw [trimEnd,dropWhile_of_stops ht,List.reverse_reverse]

theorem stops_reverse_trimEnd (t : Text) : Stops isWhitespace (trimEnd t).reverse := by
  rw [trimEnd,List.reverse_reverse]
  exact stops_dropWhile

theorem exists_trimEnd_append (t : Text) :
    ∃ w, t = trimEnd t ++ w ∧ ∀ a ∈ w, isWhitespace a := by
  refine ⟨(t.reverse.takeWhile isWhitespace).reverse,?_,?_⟩
  · rw [trimEnd,← List.reverse_append,List.takeWhile_append_dropWhile,List.reverse_reverse]
  · intro a ha
    exact List.mem_takeWhile_imp (List.mem_reverse.1 ha)

theorem mem_of_mem_trimEnd {a : Char} (h : a ∈ trimEnd t) : a ∈ t := by
  obtain ⟨w,hw,_⟩ := exists_trimEnd_append t
  rw [hw]
  exact List.mem_append_left _ h

/-- A text that starts visibly keeps its first character when its end is trimmed. -/
theorem head?_trimEnd (ht : Stops isWhitespace t) : (trimEnd t).head? = t.head? := by
  obtain ⟨w,hw,hws⟩ := exists_trimEnd_append t
  cases he : trimEnd t with
  | nil =>
    rw [he,List.nil_append] at hw
    cases t with
    | nil => rfl
    | cons a rest =>
      have ha := hws a (by rw [← hw]; exact List.mem_cons_self)
      rw [stops_cons.1 ht] at ha
      cases ha
  | cons a rest =>
    rw [he] at hw
    rw [hw]
    rfl

theorem stops_trim (t : Text) : Stops isWhitespace (trim t) := by
  have hd : Stops isWhitespace (trimStart t) := stops_dropWhile
  rw [Stops,trim,head?_trimEnd hd]
  exact hd

theorem stops_isBlank (h : Stops isWhitespace t) : Stops isBlank t := by
  intro a ha
  simp [isBlank,h a ha]

theorem trim_blank (ht : ∀ a ∈ t, isWhitespace a) : trim t = [] := by
  have h := dropWhile_run ht (stops_nil (p := isWhitespace))
  rw [List.append_nil] at h
  rw [trim,trimStart,h,trimEnd_nil]

theorem trim_between {v : Text} (hv : ∀ a ∈ v, isWhitespace a) (hne : t ≠ [])
    (hs : Stops isWhitespace t) (he : Stops isWhitespace t.reverse)
    (hw : ∀ a ∈ w, isWhitespace a) : trim (v ++ (t ++ w)) = t := by
  rw [trim,trimStart,dropWhile_run hv (hs.append hne),trimEnd_append he hw]

/-- Trimming takes off whitespace only. -/
theorem exists_trim_append (t : Text) : ∃ v w, t = v ++ (trim t ++ w) ∧
    (∀ a ∈ v, isWhitespace a) ∧ ∀ a ∈ w, isWhitespace a := by
  obtain ⟨w,hw,hblank⟩ := exists_trimEnd_append (trimStart t)
  refine ⟨t.takeWhile isWhitespace,w,?_,fun _ => List.mem_takeWhile_imp,hblank⟩
  rw [trim,← hw]
  exact List.takeWhile_append_dropWhile.symm

end Trimming

end SicXE.Text
