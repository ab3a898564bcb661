import Mathlib.Algebra.Group.Nat.Defs
import SicXE.Proofs.TruthfulScans

/-! # Numbers are read exactly

A text starts with a mark of a radix or without one, with all digits of that radix, and with what
stands behind them. A number is what the digits denote, however many there are, and nothing of it
is lost before it is compared with its bounds. Every other text is rejected for one reason.
-/
namespace SicXE
open Text

/-- The mark, the radix and the digits that a text starts with, and the text behind them. Without
a mark the radix is ten. -/
inductive Text.Leading : Text → Text → Nat → Text → Text → Prop where
  | marked {letter : Char} {radix : Nat} {ds u : Text} : (letter,radix) ∈ radixMarks →
      (∀ a ∈ ds, isDigitOf radix a) → Stops (isDigitOf radix) u →
      Leading ('0' :: letter :: (ds ++ u)) ['0',letter] radix ds u
  | decimal {ds u : Text} :
      (∀ letter radix v, (letter,radix) ∈ radixMarks → ds ++ u ≠ '0' :: letter :: v) →
      (∀ a ∈ ds, a.isDigit) → Stops Char.isDigit u → Leading (ds ++ u) [] 10 ds u

/-- Why a text does not start with a number between two bounds, in the words of the message, and
what stands before the place that it is said of. -/
inductive Text.NumberFault (lo hi : Nat) (t mark : Text) (radix : Nat) (ds u : Text) :
    String → Text → Prop where
  | missing : t.head?.any Char.isDigit = false →
      NumberFault lo hi t mark radix ds u "Number expected" []
  | digit {a : Char} : t.head?.any Char.isDigit → u.head? = some a → isSymbolChar a →
      NumberFault lo hi t mark radix ds u s!"Invalid digit '{a}'" (mark ++ ds)
  | empty : t.head?.any Char.isDigit → Stops isSymbolChar u → ds = [] →
      NumberFault lo hi t mark radix ds u "Invalid number" []
  | range : t.head?.any Char.isDigit → Stops isSymbolChar u → ds ≠ [] →
      ¬(lo ≤ numeral radix ds ∧ numeral radix ds ≤ hi) → numeral radix ds < 2 ^ 32 →
      NumberFault lo hi t mark radix ds u
        s!"Number '{numeral radix ds}' out of range [{lo}..{hi}]" []
  | wide : t.head?.any Char.isDigit → Stops isSymbolChar u → ds ≠ [] →
      ¬(lo ≤ numeral radix ds ∧ numeral radix ds ≤ hi) → 2 ^ 32 ≤ numeral radix ds →
      NumberFault lo hi t mark radix ds u
        s!"Number '{String.ofList ds}' out of range [{lo}..{hi}]" []

/-- The digits of a number, perhaps behind zeros, with letters of either case. -/
def Text.DigitsOf (radix n : Nat) (ds : Text) : Prop :=
  ∃ zeros, ds.map digitValue? =
    (List.replicate zeros '0' ++ Nat.toDigits radix n).map digitValue?

/-- A text that spells a number in one of the radices. -/
inductive Text.Spells (n : Nat) : Text → Prop where
  | decimal {ds : Text} : DigitsOf 10 n ds → Spells n ds
  | marked {letter : Char} {radix : Nat} {ds : Text} : (letter,radix) ∈ radixMarks →
      DigitsOf radix n ds → Spells n ('0' :: letter :: ds)

namespace Text
variable {t mark ds u : Text} {radix n : Nat}

section Leading

theorem exists_leading (t : Text) : ∃ mark radix ds u, Leading t mark radix ds u := by
  by_cases h : ∃ letter radix v, (letter,radix) ∈ radixMarks ∧ t = '0' :: letter :: v
  · obtain ⟨letter,radix,v,hm,rfl⟩ := h
    have hv := List.takeWhile_append_dropWhile (p := isDigitOf radix) (l := v)
    have hl := Leading.marked hm (fun a (ha : a ∈ v.takeWhile (isDigitOf radix)) =>
      List.mem_takeWhile_imp ha) (stops_dropWhile (t := v))
    rw [hv] at hl
    exact ⟨_,_,_,_,hl⟩
  · have ht := List.takeWhile_append_dropWhile (p := Char.isDigit) (l := t)
    have hl := @Leading.decimal (t.takeWhile Char.isDigit) (t.dropWhile Char.isDigit)
      (fun letter radix v hm hv => h ⟨letter,radix,v,hm,ht.symm.trans hv⟩)
      (fun a ha => List.mem_takeWhile_imp ha) stops_dropWhile
    rw [ht] at hl
    exact ⟨_,_,_,_,hl⟩

theorem Leading.eq_append (h : Leading t mark radix ds u) : t = mark ++ (ds ++ u) := by
  cases h with
  | marked => rfl
  | decimal => rfl

/-- Digits start with a digit, as does a mark. -/
theorem Leading.head (h : Leading t mark radix ds u) (hne : ds ≠ []) :
    t.head?.any Char.isDigit := by
  cases h with
  | marked => rfl
  | decimal _ hd =>
    obtain ⟨a,rest,rfl⟩ := List.exists_cons_of_ne_nil hne
    exact hd a List.mem_cons_self

end Leading

section Spelling

theorem digitValue?_digitChar : ∀ d < 16, digitValue? d.digitChar = some d := by
  decide

/-- A numeral depends on the values of its digits only, not on the case of its letters. -/
theorem numeral_congr {es : Text} (h : ds.map digitValue? = es.map digitValue?) :
    numeral radix ds = numeral radix es := by
  have hfold : ∀ l : Text, numeral radix l =
      (l.map digitValue?).foldl (fun n v => n * radix + v.getD 0) 0 := fun l => by
    rw [numeral,List.foldl_map]
  rw [hfold,hfold,h]

theorem numeral_zeros (radix zeros : Nat) (ds : Text) :
    numeral radix (List.replicate zeros '0' ++ ds) = numeral radix ds := by
  have hzero : numeral radix (List.replicate zeros '0') = 0 := by
    induction zeros with
    | zero => rfl
    | succ zeros ih =>
      rw [List.replicate_succ',numeral_concat,ih,Nat.zero_mul]
      rfl
  rw [numeral] at hzero
  rw [numeral,List.foldl_append,hzero]
  rfl

theorem numeral_toDigits (hlo : 1 < radix) (hhi : radix ≤ 16) (n : Nat) :
    numeral radix (Nat.toDigits radix n) = n := by
  induction n using Nat.strongRecOn with
  | ind n ih =>
    by_cases hn : n < radix
    · have hv := digitValue?_digitChar n (by omega)
      rw [Nat.toDigits_of_lt_base hn]
      simp [numeral,hv]
    · have hdiv : n / radix < n := Nat.div_lt_self (by omega) hlo
      have hmod : n % radix < radix := Nat.mod_lt n (by omega)
      have hv := digitValue?_digitChar (n % radix) (by omega)
      rw [Nat.toDigits_of_base_le hlo (by omega),numeral_concat,ih _ hdiv,hv,Nat.mul_comm]
      exact Nat.div_add_mod n radix

theorem isDigitOf_toDigits (hlo : 1 < radix) (hhi : radix ≤ 16) (n : Nat) :
    ∀ a ∈ Nat.toDigits radix n, isDigitOf radix a := by
  have hdigit : ∀ d < radix, isDigitOf radix d.digitChar := fun d hd => by
    rw [isDigitOf_of_digitValue? (digitValue?_digitChar d (by omega)),decide_eq_true_iff]
    exact hd
  induction n using Nat.strongRecOn with
  | ind n ih =>
    intro a ha
    by_cases hn : n < radix
    · rw [Nat.toDigits_of_lt_base hn,List.mem_singleton] at ha
      rw [ha]
      exact hdigit n hn
    · rw [Nat.toDigits_of_base_le hlo (by omega),List.mem_append,List.mem_singleton] at ha
      rcases ha with ha | rfl
      · exact ih _ (Nat.div_lt_self (by omega) hlo) a ha
      · exact hdigit _ (Nat.mod_lt n (by omega))

theorem isDigitOf_congr {a b : Char} (h : digitValue? a = digitValue? b) :
    isDigitOf radix a = isDigitOf radix b := by
  rw [isDigitOf,isDigitOf,digit?,digit?,h]

theorem radix_bounds {letter : Char} (h : (letter,radix) ∈ radixMarks) :
    1 < radix ∧ radix ≤ 16 := by
  simp only [radixMarks,List.mem_cons,Prod.mk.injEq,List.not_mem_nil,or_false] at h
  omega

namespace DigitsOf

theorem numeral_eq (h : DigitsOf radix n ds) (hlo : 1 < radix) (hhi : radix ≤ 16) :
    numeral radix ds = n := by
  obtain ⟨zeros,hds⟩ := h
  rw [numeral_congr hds,numeral_zeros,numeral_toDigits hlo hhi]

theorem ne_nil (h : DigitsOf radix n ds) : ds ≠ [] := by
  rintro rfl
  obtain ⟨zeros,hds⟩ := h
  have hlen := congrArg List.length hds
  have hpos : 0 < (Nat.toDigits radix n).length := List.length_pos_iff.2 Nat.toDigits_ne_nil
  simp at hlen
  omega

theorem digits (h : DigitsOf radix n ds) (hlo : 1 < radix) (hhi : radix ≤ 16) :
    ∀ a ∈ ds, isDigitOf radix a := by
  obtain ⟨zeros,hds⟩ := h
  intro a ha
  obtain ⟨b,hb,hab⟩ := List.mem_map.1 (hds ▸ List.mem_map_of_mem ha)
  rw [isDigitOf_congr hab.symm]
  rcases List.mem_append.1 hb with hb | hb
  · rw [List.eq_of_mem_replicate hb,isDigitOf_of_digitValue? (n := 0) (by decide),
      decide_eq_true_iff]
    omega
  · exact isDigitOf_toDigits hlo hhi n b hb

end DigitsOf

/-- A spelling between two bounds is a written number. -/
theorem Spells.written {lo hi : Nat} (h : Spells n t) (hlo : lo ≤ n) (hhi : n ≤ hi)
    (hu : Stops isSymbolChar u) : NumberWritten lo hi t n u := by
  cases h with
  | decimal hds =>
    have hn := hds.numeral_eq (by decide) (by decide)
    have hd : ∀ a ∈ t, a.isDigit := fun a ha =>
      (isDigitOf_ten a).symm.trans (hds.digits (by decide) (by decide) a ha)
    have hw : NumberWritten lo hi t (numeral 10 t) u :=
      .intro (.decimal hds.ne_nil hd) hds.ne_nil (hn ▸ hlo) (hn ▸ hhi) hu
    rwa [hn] at hw
  | @marked letter radix ds hm hds =>
    obtain ⟨h₁,h₂⟩ := radix_bounds hm
    have hn := hds.numeral_eq h₁ h₂
    have hw : NumberWritten lo hi ('0' :: letter :: ds) (numeral radix ds) u :=
      .intro (.marked hm (hds.digits h₁ h₂)) hds.ne_nil (hn ▸ hlo) (hn ▸ hhi) hu
    rwa [hn] at hw

end Spelling
end Text

namespace Reading
open Scan

variable {c : Cursor} {lo hi radix : Nat} {mark ds u : Text}

section Runs

theorem announcedRadix_missing {t : Text} (h : t.head?.any Char.isDigit = false) :
    announcedRadix t = none := by
  refine Option.eq_none_iff_forall_ne_some.2 fun radix hradix => ?_
  obtain ⟨letter,v,rfl,_⟩ := announcedRadix_eq_some_iff.1 hradix
  cases h

/-- All digits of the radix are read, whether or not a number ends behind them. -/
theorem reads_leading {t : Text} (h : Leading t mark radix ds u)
    (hhead : t.head?.any Char.isDigit) : Reads digits (mark ++ ds) (radix,ds) u := by
  cases h with
  | marked hm hd hu => exact reads_digits_marked hm hd hu
  | decimal hne hd hu =>
    have ha : announcedRadix (ds ++ u) = none := by
      refine Option.eq_none_iff_forall_ne_some.2 fun radix hradix => ?_
      obtain ⟨letter,v,ht,hm⟩ := announcedRadix_eq_some_iff.1 hradix
      exact hne letter radix v hm ht
    have hds : ∀ a ∈ ds, isDigitOf 10 a := fun a ha => (isDigitOf_ten a).trans (hd a ha)
    have hstops : Stops (isDigitOf 10) u := fun a ha => (isDigitOf_ten a).trans (hu a ha)
    refine Reads.get fun p => ?_
    rw [List.nil_append,ha]
    exact (reads_atDigit _).look
      (Reads.ite_pos hhead ((reads_readWhile hds hstops).bind_pure fun ds => (10,ds)))

theorem run_digits (h : Leading c.rest mark radix ds u) (hhead : c.rest.head?.any Char.isDigit) :
    digits.run c = .ok (radix,ds) ⟨u,c.pos.past (mark ++ ds)⟩ := by
  have hrun := (reads_leading h hhead).run c.pos
  rwa [List.append_assoc,← h.eq_append] at hrun

theorem run_digits_missing (h : c.rest.head?.any Char.isDigit = false) :
    digits.run c = .error ⟨.numberExpected,c.pos⟩ c := by
  refine (run_bind_of_ok (x := (get : Scan Cursor)) rfl).trans ?_
  rw [announcedRadix_missing h]
  refine (run_bind_of_ok (x := atDigit) rfl).trans ?_
  rw [if_neg (by simpa [Cursor.atDigit,Cursor.peek] using h)]
  rfl

theorem run_number_missing (h : c.rest.head?.any Char.isDigit = false) :
    (number lo hi).run c = .error ⟨.numberExpected,c.pos⟩ c := by
  refine (run_bind_of_ok (x := here) rfl).trans ?_
  rw [EStateM.run_bind,run_digits_missing h]

/-- Behind the digits a symbol character decides, and otherwise the bounds. -/
theorem run_number (h : Leading c.rest mark radix ds u) (hhead : c.rest.head?.any Char.isDigit) :
    (number lo hi).run c =
      match u.head?.filter isSymbolChar with
      | some a => .error ⟨.invalidDigit a,c.pos.past (mark ++ ds)⟩ ⟨u,c.pos.past (mark ++ ds)⟩
      | none => (orFailAt c.pos (bounded lo hi radix ds)).run ⟨u,c.pos.past (mark ++ ds)⟩ := by
  refine (run_bind_of_ok (x := here) rfl).trans ?_
  refine (run_bind_of_ok (run_digits h hhead)).trans ?_
  refine (run_bind_of_ok (x := peek) (a := u.head?) rfl).trans ?_
  cases u.head?.filter isSymbolChar with
  | some a => rfl
  | none => rfl

theorem filter_eq_none_of_stops (hu : Stops isSymbolChar u) :
    u.head?.filter isSymbolChar = none := by
  rw [Option.filter_eq_none_iff]
  intro a ha
  simp [hu a ha]

end Runs

section Outcomes

/-- What a text holds in place of a number is a number between the bounds, or a fault. -/
theorem number_or_fault (lo hi : Nat) (h : Leading c.rest mark radix ds u) :
    (ds ≠ [] ∧ Stops isSymbolChar u ∧ lo ≤ numeral radix ds ∧ numeral radix ds ≤ hi) ∨
      ∃ message v, NumberFault lo hi c.rest mark radix ds u message v := by
  cases hhead : c.rest.head?.any Char.isDigit with
  | false => exact .inr ⟨_,_,.missing hhead⟩
  | true =>
    by_cases hu : Stops isSymbolChar u
    · by_cases hds : ds = []
      · exact .inr ⟨_,_,.empty hhead hu hds⟩
      · by_cases hb : lo ≤ numeral radix ds ∧ numeral radix ds ≤ hi
        · exact .inl ⟨hds,hu,hb⟩
        · by_cases hwide : numeral radix ds < 2 ^ 32
          · exact .inr ⟨_,_,.range hhead hu hds hb hwide⟩
          · exact .inr ⟨_,_,.wide hhead hu hds hb (Nat.le_of_not_lt hwide)⟩
    · cases u with
      | nil => exact absurd stops_nil hu
      | cons a u =>
        exact .inr ⟨_,_,.digit hhead rfl (by simpa using hu)⟩

theorem bounded_of_out (hhi : hi < capacity 32) (hds : ds ≠ [])
    (hb : ¬(lo ≤ numeral radix ds ∧ numeral radix ds ≤ hi)) :
    bounded lo hi radix ds = .error (.outOfRange
      (if numeral radix ds < 2 ^ 32 then decimal (numeral radix ds) else ds) lo hi) := by
  cases hr : bounded lo hi radix ds with
  | ok n =>
    obtain ⟨_,hlo,hle,rfl⟩ := (bounded_eq_ok_iff hhi).1 hr
    exact absurd ⟨hlo,hle⟩ hb
  | error fault =>
    rcases bounded_eq_error hr with ⟨hnil,_⟩ | ⟨_,rfl⟩
    · exact absurd hnil hds
    · rfl

theorem run_number_ok (hhi : hi < capacity 32) (h : Leading c.rest mark radix ds u)
    (hds : ds ≠ []) (hu : Stops isSymbolChar u) (hlo : lo ≤ numeral radix ds)
    (hle : numeral radix ds ≤ hi) :
    (number lo hi).run c = .ok (numeral radix ds) ⟨u,c.pos.past (mark ++ ds)⟩ := by
  rw [run_number h (h.head hds),filter_eq_none_of_stops hu]
  exact run_orFailAt_eq_ok.2 ⟨(bounded_eq_ok_iff hhi).2 ⟨hds,hlo,hle,rfl⟩,rfl⟩

theorem run_number_fault (hhi : hi < capacity 32) (h : Leading c.rest mark radix ds u)
    {message : String} {v : Text} (hf : NumberFault lo hi c.rest mark radix ds u message v) :
    ∃ e d, (number lo hi).run c = .error e d ∧ e.message = message ∧
      e.location = c.pos.past v := by
  cases hf with
  | missing hhead => exact ⟨_,c,run_number_missing hhead,rfl,rfl⟩
  | digit hhead ha hs =>
    rw [run_number h hhead,Option.filter_eq_some_iff.2 ⟨ha,hs⟩]
    exact ⟨_,_,rfl,rfl,rfl⟩
  | empty hhead hu hds =>
    rw [run_number h hhead,filter_eq_none_of_stops hu,hds]
    exact ⟨_,_,rfl,rfl,rfl⟩
  | range hhead hu hds hb hwide =>
    rw [run_number h hhead,filter_eq_none_of_stops hu,bounded_of_out hhi hds hb,if_pos hwide]
    exact ⟨_,_,rfl,Fault.message_outOfRange _ lo hi,rfl⟩
  | wide hhead hu hds hb hwide =>
    rw [run_number h hhead,filter_eq_none_of_stops hu,bounded_of_out hhi hds hb,
      if_neg (Nat.not_lt_of_le hwide)]
    exact ⟨_,_,rfl,Fault.message_outOfRange _ lo hi,rfl⟩

end Outcomes

/-- A number is read exactly where all the digits that a text starts with denote one between the
bounds and end a word, and every other text is rejected for the first thing that is wrong. So a
number between the bounds is read in each of its spellings. -/
theorem number_exact {lo hi : Nat} (hhi : hi < 2 ^ 32) :
    (∀ c : Cursor, (∃ mark radix ds u, Leading c.rest mark radix ds u) ∧
      ∀ {mark : Text} {radix : Nat} {ds u : Text}, Leading c.rest mark radix ds u →
        (∀ n d, (number lo hi).run c = .ok n d ↔
          (ds ≠ [] ∧ Stops isSymbolChar u ∧ lo ≤ numeral radix ds ∧ numeral radix ds ≤ hi) ∧
            n = numeral radix ds ∧ d = ⟨u,c.pos.past (mark ++ ds)⟩) ∧
        ∀ message location, (∃ e d, (number lo hi).run c = .error e d ∧ e.message = message ∧
            e.location = location) ↔
          ∃ v, NumberFault lo hi c.rest mark radix ds u message v ∧ location = c.pos.past v) ∧
    ∀ {n : Nat} {t u : Text}, t.Spells n → lo ≤ n → n ≤ hi → Stops isSymbolChar u →
      Reads (number lo hi) t n u := by
  refine ⟨fun c => ⟨exists_leading c.rest,fun {mark radix ds u} h =>
      ⟨fun n d => ?_,fun message location => ?_⟩⟩,
    fun ht hlo hle hu => (accepts_number hhi).reads (ht.written hlo hle hu)⟩
  · constructor
    · intro hrun
      rcases number_or_fault lo hi h with hok | ⟨message,v,hf⟩
      · rw [run_number_ok hhi h hok.1 hok.2.1 hok.2.2.1 hok.2.2.2] at hrun
        cases hrun
        exact ⟨hok,rfl,rfl⟩
      · obtain ⟨e,d',hfault,_⟩ := run_number_fault hhi h hf
        rw [hfault] at hrun
        cases hrun
    · rintro ⟨⟨hds,hu,hlo,hle⟩,rfl,rfl⟩
      exact run_number_ok hhi h hds hu hlo hle
  · constructor
    · rintro ⟨e,d,hrun,rfl,rfl⟩
      rcases number_or_fault lo hi h with hok | ⟨message,v,hf⟩
      · rw [run_number_ok hhi h hok.1 hok.2.1 hok.2.2.1 hok.2.2.2] at hrun
        cases hrun
      · obtain ⟨e',d',hfault,rfl,hlocation⟩ := run_number_fault hhi h hf
        rw [hfault] at hrun
        cases hrun
        exact ⟨v,hf,hlocation⟩
    · rintro ⟨v,hf,rfl⟩
      exact run_number_fault hhi h hf

theorem number_exact_widest :
    (number 0 4294967295).run ⟨"0x00fFFffFfF,".toList,.start⟩ =
      .ok 4294967295 ⟨[','],⟨1,13⟩⟩ ∧
    ∃ e d, (number 0 4294967295).run ⟨"4294967296".toList,.start⟩ = .error e d ∧
      e.message = "Number '4294967296' out of range [0..4294967295]" ∧ e.location = .start := by
  obtain ⟨hall,hspelled⟩ := @number_exact 0 4294967295 (by decide)
  constructor
  · have ht : Text.Spells 4294967295 "0x00fFFffFfF".toList :=
      @Spells.marked _ 'x' 16 "00fFFffFfF".toList (by decide) ⟨2,by decide +kernel⟩
    exact hspelled ht (by decide) (by decide) (by decide) .start
  · have ht : Leading "4294967296".toList [] 10 "4294967296".toList [] :=
      @Leading.decimal "4294967296".toList [] (fun _ _ _ _ h => by cases h)
        (List.all_eq_true.1 (by decide)) stops_nil
    obtain ⟨e,d,hrun,hmessage,hlocation⟩ := (((hall ⟨_,.start⟩).2 ht).2 _ _).2
      ⟨[],.wide rfl stops_nil (by decide) (by decide) (by decide),rfl⟩
    exact ⟨e,d,hrun,hmessage.trans (by decide),hlocation⟩

end Reading
end SicXE
