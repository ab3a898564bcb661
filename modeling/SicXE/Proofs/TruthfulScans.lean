import SicXE.Proofs.AcceptedOperands
import SicXE.Proofs.LineSteps

/-! # What a fault says

The message of a fault speaks of the text at the position that is reported with it: of the
character there, of the word or the number that stands there, or of the end of the line. A scan is
truthful when what it reports holds at a place that it has reached on the line where it started. A
position may be that of the start of a token, so the judgment keeps the cursor from which the scan
set out.
-/
namespace SicXE
open Text

/-- What a fault says of the text at its position, and the words in which it does. -/
inductive Fault.HoldsAt (u : Text) : Fault → String → Prop where
  | expectedFound {wanted found : Char} : u.head? = some found → found ≠ wanted → found ≠ '\n' →
      HoldsAt u (.expectedFound wanted found) s!"Expected '{wanted}' but found '{found}'"
  | expectedAtLineEnd {wanted : Char} : u.head? = some '\n' →
      HoldsAt u (.expectedAtLineEnd wanted) s!"Expected '{wanted}' but reached end of line"
  | expectedAtInputEnd {wanted : Char} : u = [] →
      HoldsAt u (.expectedAtInputEnd wanted) s!"Expected '{wanted}' but reached end of input"
  | invalidMnemonic {spelling v : Text} : Registry.ofSpelling? spelling = none →
      u = spelling ++ v → Stops isSymbolChar v →
      HoldsAt u (.invalidMnemonic spelling) s!"Invalid mnemonic '{String.ofList spelling}'"
  | registerMissing : Ended u → HoldsAt u .registerMissing "Invalid register: operand is missing"
  | invalidRegister {found : Char} : u.head? = some found → Register.ofLetter? found = none →
      HoldsAt u (.invalidRegister found) s!"Invalid register '{found}'"
  | numberExpected : Stops Char.isDigit u → HoldsAt u .numberExpected "Number expected"
  | invalidDigit {found : Char} : u.head? = some found → isSymbolChar found →
      HoldsAt u (.invalidDigit found) s!"Invalid digit '{found}'"
  | invalidNumber {mark : Char} {radix : Nat} {v : Text} : (mark,radix) ∈ radixMarks →
      u = '0' :: mark :: v → Stops isSymbolChar v → HoldsAt u .invalidNumber "Invalid number"
  | outOfRange {t ds v : Text} {radix lo hi : Nat} : u = t ++ v → Numeral t radix ds →
      Stops isSymbolChar v → ¬(lo ≤ numeral radix ds ∧ numeral radix ds ≤ hi) →
      numeral radix ds < capacity 32 → HoldsAt u (.outOfRange (decimal (numeral radix ds)) lo hi)
        s!"Number '{numeral radix ds}' out of range [{lo}..{hi}]"
  | tooWide {t ds v : Text} {radix lo hi : Nat} : u = t ++ v → Numeral t radix ds →
      Stops isSymbolChar v → ¬(lo ≤ numeral radix ds ∧ numeral radix ds ≤ hi) →
      capacity 32 ≤ numeral radix ds → HoldsAt u (.outOfRange ds lo hi)
        s!"Number '{String.ofList ds}' out of range [{lo}..{hi}]"
  | valueExpected : Stops (fun a => a.isDigit || a == '*' || isSymbolStart a) u →
      HoldsAt u .valueExpected "Number or symbol expected"
  | unterminatedLiteral : Ended u → HoldsAt u .unterminatedLiteral "Unterminated literal"
  | invalidHexDigit {found : Char} : u.head? = some found → isHexDigit found = false →
      HoldsAt u (.invalidHexDigit found) s!"Invalid hex digit '{found}' in literal"
  | oddHexLiteral {body v : Text} : body.length % 2 = 1 → u = body ++ '\x27' :: v →
      HoldsAt u (.oddHexLiteral body)
        s!"Hex literal '{String.ofList body}' has an odd number of digits"
  | dataMissing : Ended u →
      HoldsAt u .dataMissing "Invalid storage specifier: operand is missing"
  | invalidData {found : Char} : u.head? = some found → found ≠ 'C' → found ≠ 'X' →
      found.isDigit = false → HoldsAt u (.invalidData found) s!"Invalid storage specifier '{found}'"

theorem Fault.HoldsAt.of_expectedAtLineEnd {u : Text} {wanted : Char} {message : String}
    (h : (Fault.expectedAtLineEnd wanted).HoldsAt u message) : u.head? = some '\n' := by
  cases h with
  | expectedAtLineEnd hu => exact hu

theorem Fault.HoldsAt.of_expectedAtInputEnd {u : Text} {wanted : Char} {message : String}
    (h : (Fault.expectedAtInputEnd wanted).HoldsAt u message) : u = [] := by
  cases h with
  | expectedAtInputEnd hu => exact hu

/-- A place that is reached on the line of the cursor, at which a diagnostic holds. -/
def Diagnostic.HoldsFrom (c : Cursor) (e : Diagnostic) : Prop :=
  ∃ d : Cursor, c.Within d ∧ d.pos = e.location ∧ e.fault.HoldsAt d.rest e.message

namespace Scan

variable {α β : Type} {c d : Cursor} {x : Scan α} {f : α → Scan β}

theorem run_bind_eq_error {e : Diagnostic} : (x >>= f).run c = .error e d ↔
    x.run c = .error e d ∨ ∃ a b, x.run c = .ok a b ∧ (f a).run b = .error e d := by
  rw [EStateM.run_bind]
  cases hx : x.run c with
  | ok a b =>
    constructor
    · intro h
      exact .inr ⟨a,b,rfl,h⟩
    · rintro (h | ⟨_,_,hok,h⟩)
      · cases h
      · cases hok
        exact h
  | error e b =>
    constructor
    · intro h
      cases h
      exact .inl rfl
    · rintro (h | ⟨_,_,hok,_⟩)
      · cases h
        rfl
      · cases hok

theorem InLine.within (hx : InLine x) {a : α} (h : x.run c = .ok a d) : c.Within d := by
  have hw := hx c
  unfold leaves at hw
  rwa [h] at hw

/-- Wherever the scan fails when it is run at `d`, the diagnostic holds on the line of `c`. -/
def TruthfulFrom (c : Cursor) (x : Scan α) (d : Cursor) : Prop :=
  ∀ (e : Diagnostic) (b : Cursor), x.run d = .error e b → e.HoldsFrom c

def Truthful (x : Scan α) : Prop := ∀ c, TruthfulFrom c x c

theorem Truthful.from (hx : Truthful x) (hw : c.Within d) : TruthfulFrom c x d := by
  intro e b h
  obtain ⟨found,hfound,hpos,hholds⟩ := hx d e b h
  exact ⟨found,hw.trans hfound,hpos,hholds⟩

theorem TruthfulFrom.bind (hx : TruthfulFrom c x d)
    (hf : ∀ {a b}, x.run d = .ok a b → TruthfulFrom c (f a) b) : TruthfulFrom c (x >>= f) d := by
  intro e b h
  rcases run_bind_eq_error.1 h with h | ⟨a,b',ha,h⟩
  · exact hx e b h
  · exact hf ha e b h

theorem TruthfulFrom.pure (a : α) : TruthfulFrom c (pure a) d := by
  intro e b h
  cases h

theorem truthfulFrom_fail {fault : Fault} (hw : c.Within d)
    (h : fault.HoldsAt d.rest fault.message) :
    TruthfulFrom c (fail fault : Scan α) d := by
  rintro e b ⟨⟩
  exact ⟨d,hw,rfl,h⟩

/-- A failure at the position from which the scan set out. -/
theorem truthfulFrom_failAt {fault : Fault} (h : fault.HoldsAt c.rest fault.message) :
    TruthfulFrom c (failAt c.pos fault : Scan α) d := by
  rintro e b ⟨⟩
  exact ⟨c,.refl c,rfl,h⟩

theorem Truthful.bind (hx : Truthful x) (hin : InLine x) (hf : ∀ a, Truthful (f a)) :
    Truthful (x >>= f) :=
  fun c => (hx c).bind fun h => (hf _).from (hin.within h)

theorem Truthful.bind_pure (hx : Truthful x) (g : α → β) :
    Truthful (x >>= fun a => Pure.pure (g a)) := fun c => (hx c).bind fun _ => .pure _

theorem Truthful.pure (a : α) : Truthful (pure a) := fun _ => .pure a

theorem Truthful.ite {y : Scan α} {p : Prop} [Decidable p] (hx : Truthful x) (hy : Truthful y) :
    Truthful (if p then x else y) := by
  split
  · exact hx
  · exact hy

section Elementary
variable {p : Char → Bool} {a : Char}

theorem truthful_view (f : Cursor → α) : Truthful (do return f (← get) : Scan α) := by
  intro c e b h
  cases h

theorem truthful_readWhile : Truthful (readWhile p) := by
  intro c e b h
  cases h

theorem truthful_readTo : Truthful (readTo a) := by
  intro c e b h
  cases h

theorem truthful_skipBlanks : Truthful skipBlanks := by
  intro c e b h
  cases h

theorem truthful_next : Truthful next := by
  intro c e b h
  rw [run_next] at h
  split at h <;> cases h

theorem truthful_advanceIf : Truthful (advanceIf a) := by
  intro c e b h
  rw [run_advanceIf] at h
  split at h <;> cases h

theorem peek_of_advanceIf (h : (advanceIf a).run c = .ok false d) : d = c ∧ c.peek ≠ some a := by
  rw [run_advanceIf] at h
  split at h
  · cases h
  case isFalse hp =>
    cases h
    exact ⟨rfl,hp⟩

theorem truthful_expect (a : Char) : Truthful (expect a) := by
  intro c
  refine (truthful_advanceIf c).bind fun {found d} hrun => ?_
  cases found with
  | true => exact .pure ()
  | false =>
    obtain ⟨rfl,hp⟩ := peek_of_advanceIf hrun
    refine (truthful_view Cursor.peek d).bind fun {found b} hfound => ?_
    cases hfound
    cases hpeek : d.peek with
    | none =>
      exact truthfulFrom_fail (.refl d) (.expectedAtInputEnd (List.head?_eq_none_iff.1 hpeek))
    | some found =>
      dsimp only
      split
      case isTrue hn =>
        subst hn
        exact truthfulFrom_fail (.refl d) (.expectedAtLineEnd hpeek)
      case isFalse hn =>
        refine truthfulFrom_fail (.refl d) (.expectedFound hpeek ?_ hn)
        rintro rfl
        exact hp hpeek

end Elementary
end Scan

namespace Reading
open Scan

variable {c d : Cursor}

section Tokens

theorem truthful_label : Truthful label := by
  refine (truthful_view _).bind (inLine_view _) fun _ => ?_
  refine (truthful_view _).bind (inLine_view _) fun _ => Truthful.ite ?_ (.pure _)
  exact truthful_readWhile.bind_pure _

theorem truthful_mnemonic : Truthful mnemonic := by
  intro c
  refine (truthful_view Cursor.pos c).bind fun {location _} hloc => ?_
  cases hloc
  refine (truthful_advanceIf c).bind fun {plus d} hplus => ?_
  refine ((truthful_readWhile (p := isSymbolChar)).from
    ((inLine_advanceIf (by decide)).within hplus)).bind fun {word b} hword => ?_
  obtain ⟨_,hrest,rfl,_,hstops⟩ := (accepts_readWhile isSymbolChar).gives hword
  dsimp only
  split
  · exact .pure _
  case h_2 hnone =>
    refine truthfulFrom_failAt ?_
    rw [Fault.message_invalidMnemonic]
    refine .invalidMnemonic hnone ?_ hstops
    rw [List.append_assoc,← hrest]
    cases plus with
    | true =>
      rw [run_advanceIf] at hplus
      split at hplus <;> cases hplus
      exact rest_of_peek ‹_›
    | false =>
      obtain ⟨rfl,_⟩ := peek_of_advanceIf hplus
      rfl

theorem truthful_symbol : Truthful symbol := truthful_readWhile.bind_pure _

theorem truthful_register : Truthful register := by
  intro c
  refine (truthful_view Cursor.pos c).bind fun {location _} hloc => ?_
  cases hloc
  refine (truthful_next c).bind fun {letter d} hletter => ?_
  rw [run_next] at hletter
  split at hletter
  case isTrue hend =>
    cases hletter
    exact truthfulFrom_failAt (.registerMissing (ended_iff.1 hend))
  case isFalse hend =>
    cases hletter
    cases hp : c.peek with
    | none =>
      exact truthfulFrom_failAt (.registerMissing (.inl hp))
    | some letter =>
      dsimp only
      split
      · exact .pure _
      case h_2 hnone => exact truthfulFrom_failAt (.invalidRegister hp hnone)

theorem truthful_comma : Truthful comma :=
  truthful_skipBlanks.bind inLine_skipBlanks fun _ =>
    (truthful_expect ',').bind (inLine_expect (by decide)) fun _ => truthful_skipBlanks.bind_pure _

theorem truthful_indexed : Truthful indexed := by
  refine truthful_skipBlanks.bind inLine_skipBlanks fun _ => ?_
  refine truthful_advanceIf.bind (inLine_advanceIf (by decide)) fun _ => Truthful.ite ?_ (.pure _)
  exact truthful_skipBlanks.bind inLine_skipBlanks fun _ => (truthful_expect 'X').bind_pure _

end Tokens

section Numbers
variable {lo hi radix : Nat} {ds : Text} {fault : Fault}

theorem truthful_digits : Truthful digits := by
  intro c
  refine (truthful_view id c).bind fun {c' _} hc => ?_
  cases hc
  dsimp only [id]
  split
  · refine (truthful_next.bind inLine_next fun _ => truthful_next.bind inLine_next fun _ => ?_) c
    exact truthful_readWhile.bind_pure _
  · refine (truthful_view Cursor.atDigit c).bind fun {digit _} hdigit => ?_
    cases hdigit
    split
    · exact (truthful_readWhile.bind_pure _) c
    case isFalse hd =>
      refine truthfulFrom_fail (.refl c) (.numberExpected fun a ha => ?_)
      have hpeek : c.peek = some a := ha
      simpa [Cursor.atDigit,hpeek] using hd

theorem truthful_number (hhi : hi < capacity 32) : Truthful (number lo hi) := by
  intro c
  refine (truthful_view Cursor.pos c).bind fun {location _} hloc => ?_
  cases hloc
  refine (truthful_digits c).bind fun {found d} hfound => ?_
  obtain ⟨radix,ds⟩ := found
  have hw := inLine_digits.within hfound
  obtain ⟨t,hrest,ht⟩ := numeral_of_digits hfound
  refine ((truthful_view Cursor.peek).from hw).bind fun {found _} hpeek => ?_
  cases hpeek
  split
  case h_1 a ha =>
    obtain ⟨hpeek,hsym⟩ := Option.filter_eq_some_iff.1 ha
    exact truthfulFrom_fail hw (.invalidDigit hpeek hsym)
  case h_2 hnone =>
    have hstops : Stops isSymbolChar d.rest := fun a ha => by
      simpa using (Option.filter_eq_none_iff.1 hnone) a ha
    cases hb : bounded lo hi radix ds with
    | ok n => exact .pure n
    | error fault =>
      refine truthfulFrom_failAt ?_
      rcases bounded_eq_error hb with ⟨rfl,rfl⟩ | ⟨hout,rfl⟩
      · cases ht with
        | decimal hne => exact absurd rfl hne
        | marked hm => exact .invalidNumber hm hrest hstops
      · rw [Fault.message_outOfRange]
        split
        case isTrue hwide => exact .outOfRange hrest ht hstops (by omega) hwide
        case isFalse hwide => exact .tooWide hrest ht hstops (by omega) (by omega)

theorem truthful_value {limit : Nat} (hl : limit < capacity 32) : Truthful (value limit) := by
  intro c
  refine (truthful_view Cursor.peek c).bind fun {found _} hpeek => ?_
  cases hpeek
  cases hp : c.peek with
  | none =>
    refine truthfulFrom_fail (.refl c) (.valueExpected fun a ha => ?_)
    have hpeek : c.peek = some a := ha
    rw [hp] at hpeek
    cases hpeek
  | some a =>
    dsimp only
    split
    · exact ((truthful_number hl).bind_pure _) c
    split
    · exact (truthful_next.bind_pure _) c
    split
    · exact (truthful_symbol.bind_pure _) c
    case isFalse hd hs hf =>
      refine truthfulFrom_fail (.refl c) (.valueExpected fun b hb => ?_)
      have hpeek : c.peek = some b := hb
      rw [hp] at hpeek
      cases hpeek
      simp [hd,hs,hf]

end Numbers

section Literals

theorem truthful_quoted : Truthful quoted := by
  intro c
  refine (truthful_readWhile c).bind fun {body d} hbody => ?_
  have hw := (inLine_readWhile (by decide)).within hbody
  refine (truthful_advanceIf.from hw).bind fun {closed b} hclosed => ?_
  cases closed with
  | true => exact .pure body
  | false =>
    obtain ⟨rfl,hne⟩ := peek_of_advanceIf hclosed
    obtain ⟨_,_,_,_,hstops⟩ := (accepts_readWhile _).gives hbody
    refine truthfulFrom_fail hw (.unterminatedLiteral ?_)
    cases hp : b.peek with
    | none => exact .inl hp
    | some a =>
      have ha := hstops a hp
      have hmark : a ≠ '\x27' := by
        rintro rfl
        exact hne hp
      simp only [Bool.and_eq_false_iff,bne_eq_false_iff_eq,hmark,false_or] at ha
      exact .inr (ha ▸ hp)

theorem exists_hexBytes? (t : Text) (hd : ∀ a ∈ t, isHexDigit a) (he : t.length % 2 = 0) :
    ∃ bytes, hexBytes? t = some bytes := by
  fun_induction hexBytes? t with
  | case1 => exact ⟨[],rfl⟩
  | case2 => simp at he
  | case3 a b rest ih =>
    obtain ⟨high,ha⟩ := Option.isSome_iff_exists.1 (hd a (by simp))
    obtain ⟨low,hb⟩ := Option.isSome_iff_exists.1 (hd b (by simp))
    simp only [List.length_cons] at he
    obtain ⟨bytes,hrest⟩ := ih (fun c hc => hd c (by simp [hc])) (by omega)
    exact ⟨_,hexBytes?_eq_some_iff.2 (.cons ha hb (hexBytes?_eq_some_iff.1 hrest))⟩

/-- What is wrong with the digits of a literal is found where the body of the literal stands. -/
theorem truthfulFrom_hexData {body v : Text} {location : Position} (hb : ∀ a ∈ body, a ≠ '\n')
    (hw : c.Within ⟨body ++ '\x27' :: v,location⟩) :
    TruthfulFrom c (hexData body location) d := by
  unfold hexData
  have hsplit := List.takeWhile_append_dropWhile (p := isHexDigit) (l := body)
  split
  case h_1 a rest hrest =>
    rintro e b ⟨⟩
    have hline : ∀ a ∈ body.takeWhile isHexDigit, a ≠ '\n' := fun a ha =>
      hb a ((List.takeWhile_prefix _).subset ha)
    refine ⟨⟨body.dropWhile isHexDigit ++ '\x27' :: v,_⟩,hw.trans
      ⟨body.takeWhile isHexDigit,?_,rfl,hline⟩,Position.past_eq_along hline location,?_⟩
    · rw [← List.append_assoc,hsplit]
    have hstops : Stops isHexDigit (a :: rest) := hrest ▸ stops_dropWhile
    rw [hrest]
    exact .invalidHexDigit rfl (stops_cons.1 hstops)
  case h_2 hnil =>
    split
    case isTrue hodd =>
      rintro e b ⟨⟩
      refine ⟨_,hw,rfl,?_⟩
      rw [Diagnostic.message,Fault.message_oddHexLiteral]
      exact .oddHexLiteral (by omega) rfl
    case isFalse heven =>
      rw [hnil,List.append_nil] at hsplit
      have hd : ∀ a ∈ body, isHexDigit a := by
        rw [← hsplit]
        exact fun _ => List.mem_takeWhile_imp
      obtain ⟨bytes,hbytes⟩ := exists_hexBytes? body hd (by omega)
      rw [hbytes]
      exact .pure bytes

theorem truthful_wordData : Truthful wordData := by
  intro c
  refine (truthful_number (by decide) c).bind fun {n d} hn => ?_
  obtain ⟨_,_,hw⟩ := (accepts_number (by decide)).gives hn
  rw [ofNat_word hw.le_hi]
  exact .pure _

theorem truthful_byte : Truthful byte := (truthful_number (by decide)).bind_pure _

/-- The digits of a literal, behind the letter that announces them. -/
theorem truthful_digitLiteral :
    Truthful (do expect '\x27'; let location ← here; hexData (← quoted) location) := by
  refine (truthful_expect _).bind (inLine_expect (by decide)) fun _ c => ?_
  refine (truthful_view Cursor.pos c).bind fun {location _} hloc => ?_
  cases hloc
  refine (truthful_quoted c).bind fun {body d} hbody => ?_
  obtain ⟨_,hrest,rfl,hb⟩ := accepts_quoted.gives hbody
  rw [List.append_assoc] at hrest
  refine truthfulFrom_hexData (v := d.rest) (fun a ha => (hb a ha).2) ?_
  rw [← List.singleton_append,← hrest]
  exact .refl c

theorem truthful_data : Truthful data := by
  intro c
  refine (truthful_advanceIf c).bind fun {found d} hfound => ?_
  have hw := (inLine_advanceIf (by decide)).within hfound
  cases found with
  | true =>
    refine Truthful.from ?_ hw
    exact (truthful_expect _).bind (inLine_expect (by decide)) fun _ => truthful_quoted.bind_pure _
  | false =>
    obtain ⟨rfl,hc⟩ := peek_of_advanceIf hfound
    refine (truthful_advanceIf d).bind fun {found b} hfound => ?_
    have hw := (inLine_advanceIf (by decide)).within hfound
    cases found with
    | true => exact truthful_digitLiteral.from hw
    | false =>
      obtain ⟨rfl,hx⟩ := peek_of_advanceIf hfound
      refine (truthful_view Cursor.atDigit b).bind fun {digit _} hdigit => ?_
      cases hdigit
      split
      · exact truthful_wordData b
      case isFalse hd =>
        refine (truthful_view Cursor.peek b).bind fun {found _} hpeek => ?_
        cases hpeek
        cases hp : b.peek with
        | none => exact truthfulFrom_fail (.refl b) (.dataMissing (.inl hp))
        | some a =>
          dsimp only
          split
          case isTrue hn => exact truthfulFrom_fail (.refl b) (.dataMissing (.inr (hn ▸ hp)))
          case isFalse =>
            refine truthfulFrom_fail (.refl b) (.invalidData hp ?_ ?_ ?_)
            · rintro rfl
              exact hc hp
            · rintro rfl
              exact hx hp
            · simpa [Cursor.atDigit,hp] using hd

end Literals

section Operands

theorem truthful_addressing : Truthful addressing := by
  refine truthful_advanceIf.bind (inLine_advanceIf (by decide)) fun _ => Truthful.ite (.pure _) ?_
  exact truthful_advanceIf.bind (inLine_advanceIf (by decide)) fun _ =>
    Truthful.ite (.pure _) (.pure _)

theorem truthful_target (mode : Addressing) (extended : Bool) :
    Truthful (target mode extended) := by
  have hl : memoryLimit mode extended < capacity 32 := by
    unfold memoryLimit
    split <;> decide
  have hv := (truthful_value hl).bind_pure Target.value
  refine Truthful.ite ?_ hv
  refine truthful_advanceIf.bind (inLine_advanceIf (by decide)) fun _ => Truthful.ite ?_ hv
  exact truthful_data.bind_pure _

theorem truthful_memoryOperand (extended : Bool) : Truthful (memoryOperand extended) :=
  truthful_addressing.bind inLine_addressing fun _ =>
    (truthful_target _ _).bind (inLine_target _ _) fun _ => truthful_indexed.bind_pure _

theorem truthful_operand {shape : Shape} (hl : ∀ limit ∈ shape.limit?, limit < capacity 32) :
    Truthful (operand shape) := by
  cases shape with
  | directive | format1 | format3 => exact .pure _
  | directiveOperand limit => exact (truthful_value (hl limit rfl)).bind_pure _
  | directiveOptional limit =>
    refine (truthful_view _).bind (inLine_view _) fun _ => Truthful.ite (.pure _) ?_
    exact (truthful_value (hl limit rfl)).bind_pure _
  | storageReserve | format2Number => exact (truthful_number (by decide)).bind_pure _
  | storageByte =>
    refine (truthful_view _).bind (inLine_view _) fun _ => Truthful.ite ?_ ?_
    · exact truthful_byte.bind_pure _
    · exact truthful_data.bind_pure _
  | storageWord => exact truthful_data.bind_pure _
  | format2Register => exact truthful_register.bind_pure _
  | format2RegisterNumber =>
    exact truthful_register.bind inLine_register fun _ => truthful_comma.bind inLine_comma fun _ =>
      (truthful_number (by decide)).bind_pure _
  | format2RegisterPair =>
    exact truthful_register.bind inLine_register fun _ => truthful_comma.bind inLine_comma fun _ =>
      truthful_register.bind_pure _
  | format3Memory | format4Memory => exact (truthful_memoryOperand _).bind_pure _

theorem truthful_instruction : Truthful instruction := by
  intro c
  refine (truthful_mnemonic c).bind fun {m d} hm => ?_
  obtain ⟨_,_,hwritten⟩ := accepts_mnemonic.gives hm
  refine Truthful.from ?_ (inLine_mnemonic.within hm)
  exact truthful_skipBlanks.bind inLine_skipBlanks fun _ => (truthful_operand hwritten.limit_lt).bind_pure _

end Operands

section Lines

theorem truthful_statement (location : Position) : Truthful (statement location) := by
  refine truthful_label.bind inLine_label fun _ => ?_
  refine truthful_skipBlanks.bind inLine_skipBlanks fun _ => Truthful.ite ?_ ?_
  · exact truthful_readTo.bind_pure _
  refine truthful_instruction.bind inLine_instruction fun _ => ?_
  exact (truthful_readTo.bind_pure _).bind_pure _

theorem truthful_line : Truthful line := by
  intro c
  cases h : atComment c with
  | true =>
    intro e d hrun
    rw [run_line_comment h] at hrun
    cases hrun
  | false =>
    intro e d hrun
    rw [run_line_statement h] at hrun
    exact truthful_statement c.pos c e d hrun

end Lines

end Reading
end SicXE
