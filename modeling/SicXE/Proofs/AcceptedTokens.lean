import SicXE.Proofs.Accepts
import SicXE.Proofs.Words
import SicXE.Reading.Data

/-! # Tokens and their grammars

Words, numbers and bytes are read exactly where they are written. What a scan leaves behind a word
or a number cannot continue it, and a literal ends at the first quote behind its opening one.
-/
namespace SicXE.Reading
open Text Scan

theorem accepts_comma : Accepts comma fun t _ u => CommaWritten t u := by
  refine accepts_skipBlanks.bind (fun _ => (accepts_expect ',').bind (fun _ =>
    accepts_skipBlanks.map Iff.rfl) Iff.rfl) fun {t b u} => ?_
  constructor
  · rintro @⟨before,behind,_,hb,hg⟩
    exact ⟨before,',' :: behind,_,rfl,⟨⟨hb,stops_cons.2 (by decide)⟩,rfl⟩,[','],behind,(),rfl,rfl,
      _,rfl,hg,rfl⟩
  · rintro ⟨_,_,_,rfl,⟨⟨hb,_⟩,_⟩,_,_,_,rfl,rfl,_,_,hg,_⟩
    exact ⟨hb,hg⟩

theorem accepts_indexed : Accepts indexed IndexWritten := by
  have hsuffix : Accepts (do let _ ← skipBlanks; expect 'X'; return true) fun t b _ =>
      b = true ∧ ∃ between : Text, (∀ a ∈ between, isBlank a) ∧ t = between ++ ['X'] := by
    refine accepts_skipBlanks.bind (fun _ => (accepts_expect 'X').map Iff.rfl) fun {t b u} => ?_
    constructor
    · rintro ⟨rfl,between,hb,rfl⟩
      exact ⟨between,['X'],_,rfl,⟨⟨hb,stops_cons.2 (by decide)⟩,rfl⟩,(),rfl,rfl⟩
    · rintro ⟨between,_,_,rfl,⟨⟨hb,_⟩,_⟩,_,rfl,rfl⟩
      exact ⟨rfl,between,hb,rfl⟩
  refine accepts_skipBlanks.bind (fun _ => hsuffix.branch (.pure false)) fun {t b u} => ?_
  constructor
  · rintro (@⟨before,between,_,hb,hw⟩ | ⟨hg,hc⟩)
    · exact ⟨before,_,_,rfl,⟨⟨hb,stops_cons.2 (by decide)⟩,rfl⟩,.inl ⟨_,rfl,rfl,between,hw,rfl⟩⟩
    · exact ⟨t,[],_,(List.append_nil t).symm,⟨hg,rfl⟩,.inr ⟨hc,rfl,rfl⟩⟩
  · rintro ⟨_,_,_,rfl,⟨hg,_⟩,⟨_,rfl,rfl,between,hw,rfl⟩ | ⟨hc,rfl,rfl⟩⟩
    · exact .indexed hg.blank hw
    · rw [List.append_nil]
      exact .unindexed hg hc

theorem accepts_symbol : Accepts symbol fun t s u =>
    s = ⟨t⟩ ∧ (∀ a ∈ t, isSymbolChar a) ∧ Stops isSymbolChar u := by
  refine (accepts_readWhile isSymbolChar).map fun {t s u} => ?_
  constructor
  · rintro ⟨rfl,h⟩
    exact ⟨t,rfl,rfl,h⟩
  · rintro ⟨_,rfl,rfl,h⟩
    exact ⟨rfl,h⟩

theorem accepts_register : Accepts register fun t r _ => r ∈ Register.operands ∧ t = r.name := by
  constructor
  · rintro t r u ⟨hr,rfl⟩
    exact reads_register hr u
  · intro c r d h
    obtain ⟨location,_,hloc,h⟩ := run_bind_eq_ok.1 h
    cases hloc
    obtain ⟨found,e,hfound,h⟩ := run_bind_eq_ok.1 h
    rw [run_next] at hfound
    split at hfound
    · cases hfound
      exact (run_failAt_ne_ok h).elim
    · cases hfound
      cases hp : c.peek with
      | none =>
        rw [hp] at h
        exact (run_failAt_ne_ok h).elim
      | some letter =>
        rw [hp] at h
        dsimp only at h
        split at h
        case h_1 r' hletter =>
          cases h
          have hname := List.find?_some hletter
          refine ⟨_,rest_of_peek hp,List.mem_of_find?_eq_some hletter,?_⟩
          symm
          simpa using hname
        case h_2 => exact (run_failAt_ne_ok h).elim

theorem accepts_mnemonic : Accepts mnemonic fun t m u => m.Written t u := by
  constructor
  · rintro t m u ⟨hm,_,hu⟩
    have hs := (Registry.mem_all_of_ofSpelling? hm).2
    subst hs
    exact reads_mnemonic hm hu
  · intro c m d h
    obtain ⟨location,_,hloc,h⟩ := run_bind_eq_ok.1 h
    cases hloc
    obtain ⟨plus,e,hplus,h⟩ := run_bind_eq_ok.1 h
    obtain ⟨word,e',hword,h⟩ := run_bind_eq_ok.1 h
    obtain ⟨_,hrest,rfl,hsym,hstops⟩ := (accepts_readWhile isSymbolChar).gives hword
    dsimp only at h
    split at h
    case h_2 => exact (run_failAt_ne_ok h).elim
    case h_1 m' hm =>
      cases h
      rw [run_advanceIf] at hplus
      split at hplus
      case isTrue hp =>
        cases hplus
        exact ⟨'+' :: word,by rw [rest_of_peek hp,hrest]; rfl,hm,⟨word,.inr rfl,hsym⟩,hstops⟩
      case isFalse hp =>
        cases hplus
        exact ⟨word,hrest,hm,⟨word,.inl rfl,hsym⟩,hstops⟩

section Numbers
variable {lo hi radix n : Nat} {ds t u : Text} {c d : Cursor}

theorem radixOfLetter_eq_some_iff {a : Char} :
    radixOfLetter a = some radix ↔ (a,radix) ∈ radixMarks := by
  unfold radixOfLetter radixMarks
  split <;> simp_all [eq_comm]

theorem announcedRadix_eq_some_iff :
    announcedRadix t = some radix ↔ ∃ mark u, t = '0' :: mark :: u ∧ (mark,radix) ∈ radixMarks := by
  constructor
  · intro h
    unfold announcedRadix at h
    split at h
    case h_1 mark u => exact ⟨mark,u,rfl,radixOfLetter_eq_some_iff.1 h⟩
    case h_2 => cases h
  · rintro ⟨mark,u,rfl,hm⟩
    exact radixOfLetter_eq_some_iff.2 hm

theorem ne_newline_of_mem_radixMarks {mark : Char} (h : (mark,radix) ∈ radixMarks) :
    mark ≠ '\n' := by
  rintro rfl
  simp [radixMarks] at h

/-- Behind the mark of a radix its digits are read, if there are any. -/
theorem reads_digits_marked {mark : Char} (hm : (mark,radix) ∈ radixMarks)
    (hd : ∀ a ∈ ds, isDigitOf radix a) (hu : Stops (isDigitOf radix) u) :
    Reads digits ('0' :: mark :: ds) (radix,ds) u := by
  refine Reads.get fun p => ?_
  have ha : announcedRadix ('0' :: mark :: ds ++ u) = some radix :=
    announcedRadix_eq_some_iff.2 ⟨mark,ds ++ u,rfl,hm⟩
  rw [ha]
  refine (reads_next (by decide) _).bind (t := ['0']) (v := mark :: ds) ?_
  refine (reads_next (ne_newline_of_mem_radixMarks hm) _).bind (t := [mark]) (v := ds) ?_
  exact (reads_readWhile hd hu).bind_pure fun ds => (radix,ds)

/-- Whatever digits are read, they are those of a numeral. -/
theorem numeral_of_digits (h : digits.run c = .ok (radix,ds) d) :
    ∃ t, c.rest = t ++ d.rest ∧ Numeral t radix ds := by
  cases ha : announcedRadix c.rest with
  | some radix' =>
    obtain ⟨mark,v,hv,hm⟩ := announcedRadix_eq_some_iff.1 ha
    have hd : ∀ a ∈ v.takeWhile (isDigitOf radix'), isDigitOf radix' a :=
      fun _ => List.mem_takeWhile_imp
    have hsplit : c.rest = '0' :: mark :: v.takeWhile (isDigitOf radix') ++
        v.dropWhile (isDigitOf radix') := by
      rw [hv,List.cons_append,List.cons_append,List.takeWhile_append_dropWhile]
    have hrun := (reads_digits_marked hm hd (stops_dropWhile (t := v))).run c.pos
    rw [← hsplit,h] at hrun
    cases hrun
    exact ⟨_,hsplit,.marked hm hd⟩
  | none =>
    obtain ⟨c',_,hc,h⟩ := run_bind_eq_ok.1 h
    cases hc
    rw [ha] at h
    obtain ⟨digit,_,hdigit,h⟩ := run_bind_eq_ok.1 h
    cases hdigit
    split at h
    case isFalse => exact (run_fail_ne_ok h).elim
    case isTrue hat =>
      obtain ⟨a,hpeek,hdigit⟩ := Option.any_eq_true .. |>.1 hat
      have hne : c.rest.takeWhile (isDigitOf 10) ≠ [] := by
        have hhead : (c.rest.takeWhile (isDigitOf 10)).head? = some a := by
          have hrest : c.rest.head? = some a := hpeek
          rw [List.head?_takeWhile,hrest]
          simp [isDigitOf_ten,hdigit]
        intro hnil
        rw [hnil] at hhead
        cases hhead
      obtain ⟨ds',_,hds,h⟩ := run_bind_eq_ok.1 h
      cases hds
      cases h
      refine ⟨_,List.takeWhile_append_dropWhile.symm,.decimal hne fun b hb => ?_⟩
      rw [← isDigitOf_ten]
      exact List.mem_takeWhile_imp hb

theorem bounded_eq_ok_iff (hhi : hi < capacity 32) :
    bounded lo hi radix ds = .ok n ↔ ds ≠ [] ∧ lo ≤ n ∧ n ≤ hi ∧ n = numeral radix ds := by
  unfold bounded
  dsimp only
  constructor
  · intro h
    split at h
    · cases h
    case isFalse hne =>
    split at h
    · cases h
    split at h
    · cases h
    · cases h
      exact ⟨by simpa using hne,by omega,by omega,rfl⟩
  · rintro ⟨hne,hlo,hhi',rfl⟩
    rw [if_neg (by simpa using hne),if_neg (by omega),if_neg (by omega)]

/-- A row of digits that is rejected is empty or denotes a number that is too wide or out of
bounds. -/
theorem bounded_eq_error {fault : Fault} (h : bounded lo hi radix ds = .error fault) :
    (ds = [] ∧ fault = .invalidNumber) ∨
      ((capacity 32 ≤ numeral radix ds ∨ ¬(lo ≤ numeral radix ds ∧ numeral radix ds ≤ hi)) ∧
        fault = .outOfRange
          (if numeral radix ds < capacity 32 then decimal (numeral radix ds) else ds) lo hi) := by
  unfold bounded at h
  dsimp only at h
  split at h
  case isTrue hempty =>
    cases h
    exact .inl ⟨by simpa using hempty,rfl⟩
  split at h
  case isTrue hcap =>
    cases h
    exact .inr ⟨.inl hcap,by rw [if_neg (by omega)]⟩
  split at h
  case isTrue hout =>
    cases h
    exact .inr ⟨.inr (by omega),by rw [if_pos (by omega)]⟩
  case isFalse => cases h

/-- A numeral is read as a whole where no symbol character follows it. -/
theorem reads_numeral (h : Numeral t radix ds) (hu : Stops isSymbolChar u) :
    Reads digits t (radix,ds) u := by
  cases h with
  | decimal hne hd => exact reads_digits hne hd hu
  | marked hm hd =>
    refine reads_digits_marked hm hd fun a ha => ?_
    cases hda : isDigitOf radix a with
    | false => rfl
    | true =>
      have hsym := isSymbolChar_of_isDigitOf hda
      rw [hu a ha] at hsym
      cases hsym

theorem accepts_number (hhi : hi < capacity 32) : Accepts (number lo hi) (NumberWritten lo hi) := by
  constructor
  · rintro t _ u ⟨ht,hne,hlo,hle,hu⟩
    refine Reads.located fun p => (reads_numeral ht hu).bind_last ((reads_peek u).look ?_)
    have hf : u.head?.filter isSymbolChar = none := by
      rw [Option.filter_eq_none_iff]
      intro a ha
      simp [hu a ha]
    rw [hf,(bounded_eq_ok_iff hhi).2 ⟨hne,hlo,hle,rfl⟩]
    exact Reads.pure _ u
  · intro c n d h
    obtain ⟨location,_,hloc,h⟩ := run_bind_eq_ok.1 h
    cases hloc
    obtain ⟨⟨radix,ds⟩,e,hds,h⟩ := run_bind_eq_ok.1 h
    obtain ⟨t,hrest,ht⟩ := numeral_of_digits hds
    obtain ⟨found,_,hfound,h⟩ := run_bind_eq_ok.1 h
    cases hfound
    split at h
    · exact (run_fail_ne_ok h).elim
    case h_2 hnone =>
      obtain ⟨hbounded,rfl⟩ := run_orFailAt_eq_ok.1 h
      obtain ⟨hne,hlo,hle,rfl⟩ := (bounded_eq_ok_iff hhi).1 hbounded
      refine ⟨t,hrest,ht,hne,hlo,hle,fun a ha => ?_⟩
      simpa using (Option.filter_eq_none_iff.1 hnone) a ha

end Numbers

section Values
variable {limit : Nat}

theorem accepts_value (hl : limit < capacity 32) :
    Accepts (value limit) fun t v u => v.Written limit t u := by
  constructor
  · intro t v u h
    refine (reads_peek _).look ?_
    cases h with
    | number hn =>
      obtain ⟨a,ha,hd⟩ := Option.any_eq_true .. |>.1 hn.head
      rw [List.head?_append,ha]
      exact Reads.ite_pos hd (((accepts_number hl).reads hn).bind_pure Value.number)
    | symbol hs hu =>
      obtain ⟨a,ha,hf⟩ := Option.any_eq_true .. |>.1 hs.head
      have hd : a.isDigit = false := isDigit_of_isSymbolStart hf
      have hstar : a ≠ '*' := by
        rintro rfl
        revert hf
        decide
      rw [List.head?_append,ha]
      refine Reads.ite_neg (by simp [hd]) (Reads.ite_neg hstar (Reads.ite_pos hf ?_))
      exact (accepts_symbol.reads ⟨rfl,hs.symbolic,hu⟩).bind_pure Value.symbol
    | here =>
      exact Reads.ite_neg (by decide) (Reads.ite_pos rfl
        ((reads_next (by decide) u).bind_pure fun _ => Value.here))
  · intro c v d h
    obtain ⟨found,_,hfound,h⟩ := run_bind_eq_ok.1 h
    cases hfound
    cases hp : c.peek with
    | none =>
      rw [hp] at h
      exact (run_fail_ne_ok h).elim
    | some a =>
      rw [hp] at h
      dsimp only at h
      split at h
      · obtain ⟨n,_,hn,h⟩ := run_bind_eq_ok.1 h
        cases h
        obtain ⟨t,ht,hw⟩ := (accepts_number hl).gives hn
        exact ⟨t,ht,.number hw⟩
      split at h
      case isTrue hs =>
        subst hs
        obtain ⟨_,e,hnext,h⟩ := run_bind_eq_ok.1 h
        have he : c.atEndOfLine = false := by simp [Cursor.atEndOfLine,hp]
        rw [run_next,he] at hnext
        cases hnext
        cases h
        exact ⟨['*'],rest_of_peek hp,.here⟩
      split at h
      case isTrue hs =>
        obtain ⟨s,_,hsym,h⟩ := run_bind_eq_ok.1 h
        cases hsym
        cases h
        exact ⟨_,List.takeWhile_append_dropWhile.symm,
          .symbol (isWord_takeWhile hp hs (isSymbolChar_of_isSymbolStart hs)) stops_dropWhile⟩
      · exact (run_fail_ne_ok h).elim

end Values

section Data

theorem ne_mark_of_isHexDigit {a : Char} (h : isHexDigit a) :
    (a != '\x27' && a != '\n') = true := by
  rw [Bool.and_eq_true,bne_iff_ne,bne_iff_ne]
  constructor <;>
  · rintro rfl
    revert h
    decide

theorem accepts_quoted : Accepts quoted fun t body _ =>
    t = body ++ ['\x27'] ∧ ∀ a ∈ body, a ≠ '\x27' ∧ a ≠ '\n' := by
  refine (accepts_readWhile _).bind (fun body => (Accepts.pure body).branch (accepts_fail _))
    fun {t body u} => ?_
  constructor
  · rintro ⟨rfl,hb⟩
    exact ⟨body,['\x27'],body,rfl,⟨rfl,by simpa using hb,by simp⟩,.inl ⟨[],rfl,rfl,rfl⟩⟩
  · rintro ⟨_,_,_,rfl,⟨rfl,hb,_⟩,⟨_,rfl,rfl,rfl⟩ | ⟨_,h⟩⟩
    · exact ⟨rfl,by simpa using hb⟩
    · exact h.elim

theorem accepts_hexData (body : Text) (location : Position) :
    Accepts (hexData body location) fun t bytes _ => t = [] ∧ HexPairs body bytes := by
  constructor
  · rintro t bytes u ⟨rfl,h⟩
    have hd : body.dropWhile isHexDigit = [] := by
      rw [← List.append_nil body]
      exact dropWhile_run h.digits stops_nil
    unfold hexData
    rw [hd]
    dsimp only
    rw [if_neg (by simp [h.even]),hexBytes?_eq_some_iff.2 h]
    exact Reads.pure bytes u
  · intro c bytes d h
    unfold hexData at h
    split at h
    · exact (run_failAt_ne_ok h).elim
    split at h
    · exact (run_failAt_ne_ok h).elim
    split at h
    case h_1 bs hbs =>
      cases h
      exact ⟨[],rfl,rfl,hexBytes?_eq_some_iff.1 hbs⟩
    case h_2 => exact (run_failAt_ne_ok h).elim

theorem lt_word_of_le {n : Nat} (hn : n ≤ 16777215) : n < capacity 24 :=
  Nat.lt_of_le_of_lt hn (by decide)

theorem ofNat_word {n : Nat} (hn : n ≤ 16777215) :
    Unsigned.ofNat 24 n = .ok ⟨n,lt_word_of_le hn⟩ := Unsigned.ofNat_eq_ok_iff.2 rfl

theorem accepts_wordData : Accepts wordData fun t bytes u =>
    ∃ n, bytes = wordBytes n ∧ NumberWritten 0 16777215 t n u := by
  have hnumber : Accepts (number 0 wordLimit) (NumberWritten 0 16777215) :=
    accepts_number (by decide)
  constructor
  · rintro t _ u ⟨n,rfl,h⟩
    refine (hnumber.reads h).bind_last ?_
    rw [ofNat_word h.le_hi]
    exact Reads.pure (wordBytes n) u
  · intro c bytes d h
    obtain ⟨n,e,hn,h⟩ := run_bind_eq_ok.1 h
    obtain ⟨t,ht,hw⟩ := hnumber.gives hn
    rw [ofNat_word hw.le_hi] at h
    cases h
    exact ⟨t,ht,n,rfl,hw⟩

theorem accepts_byte : Accepts byte fun t bytes u =>
    ∃ n, bytes = [UInt8.ofNat n] ∧ NumberWritten 0 16777215 t n u :=
  (accepts_number (by decide)).map Iff.rfl

/-- Behind its letter a literal is read up to the closing quote. -/
theorem accepts_characters :
    Accepts (do expect '\x27'; return Utf8.encode (← quoted)) fun t bytes _ =>
      ∃ body : Text, t = '\x27' :: (body ++ ['\x27']) ∧ bytes = Utf8.encode body ∧
        ∀ a ∈ body, a ≠ '\x27' ∧ a ≠ '\n' := by
  refine (accepts_expect _).bind (fun _ => accepts_quoted.map Iff.rfl) fun {t bytes u} => ?_
  constructor
  · rintro ⟨body,rfl,rfl,hb⟩
    exact ⟨['\x27'],_,(),rfl,rfl,body,rfl,rfl,hb⟩
  · rintro ⟨_,_,_,rfl,rfl,body,rfl,rfl,hb⟩
    exact ⟨body,rfl,rfl,hb⟩

theorem accepts_digits :
    Accepts (do expect '\x27'; let location ← here; hexData (← quoted) location)
      fun t bytes _ => ∃ body : Text, t = '\x27' :: (body ++ ['\x27']) ∧ HexPairs body bytes := by
  refine (accepts_expect _).bind (fun _ => Accepts.located fun p =>
    accepts_quoted.bind (fun body => accepts_hexData body p) Iff.rfl) fun {t bytes u} => ?_
  constructor
  · rintro ⟨body,rfl,hb⟩
    have hmark : ∀ a ∈ body, a ≠ '\x27' ∧ a ≠ '\n' := fun a ha => by
      simpa using ne_mark_of_isHexDigit (hb.digits a ha)
    exact ⟨['\x27'],_,(),rfl,rfl,_,[],body,(List.append_nil _).symm,⟨rfl,hmark⟩,rfl,hb⟩
  · rintro ⟨_,_,_,rfl,rfl,_,_,body,rfl,⟨rfl,_⟩,rfl,hb⟩
    exact ⟨body,by rw [List.append_nil]; rfl,hb⟩

theorem literalWritten_iff {t : Text} {bytes : List UInt8} : LiteralWritten t bytes ↔
    (∃ t', t = 'C' :: t' ∧ ∃ body : Text, t' = '\x27' :: (body ++ ['\x27']) ∧
      bytes = Utf8.encode body ∧ ∀ a ∈ body, a ≠ '\x27' ∧ a ≠ '\n') ∨
    ∃ t', t = 'X' :: t' ∧ ∃ body : Text, t' = '\x27' :: (body ++ ['\x27']) ∧ HexPairs body bytes := by
  constructor
  · rintro (hb | hb)
    · exact .inl ⟨_,rfl,_,rfl,rfl,hb⟩
    · exact .inr ⟨_,rfl,_,rfl,hb⟩
  · rintro (⟨_,rfl,_,rfl,rfl,hb⟩ | ⟨_,rfl,_,rfl,hb⟩)
    · exact .characters hb
    · exact .digits hb

theorem accepts_data : Accepts data DataWritten := by
  refine Accepts.congr (accepts_characters.branch (accepts_digits.branch (Accepts.look
    (v := fun t => t.head?.any Char.isDigit) (fun _ => rfl) fun _ => accepts_wordData.ite
      (H := fun _ _ _ => False) ?_))) fun {t bytes u} => ?_
  · refine ⟨fun h => h.elim,fun {c bytes d} h => ?_⟩
    obtain ⟨found,_,_,h⟩ := run_bind_eq_ok.1 h
    cases found with
    | none => exact (run_fail_ne_ok h).elim
    | some a =>
      dsimp only at h
      split at h
      · exact (run_fail_ne_ok h).elim
      · exact (run_fail_ne_ok h).elim
  constructor
  · intro h
    cases h with
    | literal h =>
      rcases literalWritten_iff.1 h with hbody | ⟨t',rfl,hbody⟩
      · exact .inl hbody
      · exact .inr ⟨by simp,.inl ⟨t',rfl,hbody⟩⟩
    | @word _ n h =>
      have hne : ∀ a : Char, a.isDigit = false → (t ++ u).head? ≠ some a := by
        rintro a ha hhead
        have hdigit := h.head_append (v := u)
        rw [hhead,Option.any_some,ha] at hdigit
        cases hdigit
      refine .inr ⟨hne 'C' rfl,.inr ⟨hne 'X' rfl,?_⟩⟩
      rw [if_pos h.head_append]
      exact ⟨n,rfl,h⟩
  · rintro (h | ⟨_,h | ⟨_,h⟩⟩)
    · exact .literal (literalWritten_iff.2 (.inl h))
    · exact .literal (literalWritten_iff.2 (.inr h))
    · split at h
      case isTrue =>
        obtain ⟨n,rfl,h⟩ := h
        exact .word h
      case isFalse => exact h.elim

end Data

end SicXE.Reading
