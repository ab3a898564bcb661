import SicXE.Proofs.TrailingBlanks

/-! # A line with a blank behind it

Two runs of the same scan are followed, one on a line and one on the line with one more blank. Both
see the same until the first one comes to the end of its line: there the second one still has the
blank before it, unless blanks have been skipped. Only two faults tell the difference, a quote that
is missing directly behind the letter of a literal, and data that are missing directly behind the
sign of a literal operand.
-/
namespace SicXE
open Text

/-- What a fault of a line says where one more blank ends the line. -/
def Fault.trailed (b : Char) (l : Text) : Fault → Fault
  | expectedAtInputEnd wanted =>
    if wanted = '\x27' then expectedFound wanted b else expectedAtInputEnd wanted
  | dataMissing => if l.getLast? = some '=' then invalidData b else dataMissing
  | fault => fault

theorem Fault.trailed_expectedAtInputEnd (b : Char) (l : Text) (wanted : Char) :
    (expectedAtInputEnd wanted).trailed b l =
      if wanted = '\x27' then expectedFound wanted b else expectedAtInputEnd wanted := rfl

theorem Fault.trailed_dataMissing (b : Char) (l : Text) :
    dataMissing.trailed b l = if l.getLast? = some '=' then invalidData b else dataMissing := rfl

namespace Cursor

/-- Two cursors at one place of a line, the second one with the blank behind the line. -/
structure Beside (b : Char) (l : Text) (c c' : Cursor) : Prop where
  part : ∃ v, l = v ++ c.rest
  rest : c'.rest = c.rest ++ [b]

/-- The same, or both cursors at the end, the second one behind the blank. -/
inductive Near (b : Char) (l : Text) (c c' : Cursor) : Prop where
  | beside : Beside b l c c' → Near b l c c'
  | beyond : c.rest = [] → c'.rest = [] → Near b l c c'

/-- Where one cursor is at the end, so is the other one. -/
structure Level (b : Char) (l : Text) (c c' : Cursor) : Prop where
  near : Near b l c c'
  ended : c.rest = [] → c'.rest = []

/-- The line does not end at the cursor with the sign of a literal operand. -/
def Clear (l : Text) (c : Cursor) : Prop := c.rest = [] → l.getLast? ≠ some '='

variable {b : Char} {l : Text} {c c' : Cursor} {p : Char → Bool}

theorem Beside.advance {a : Char} (h : Beside b l c c') (ha : c.peek = some a) :
    Beside b l c.advance c'.advance ∧ ∃ v, l = v ++ a :: c.advance.rest := by
  obtain ⟨⟨v,hv⟩,hrest⟩ := h
  rcases c with ⟨_ | ⟨d,rest⟩,pos⟩
  · cases ha
  · cases ha
    rcases c' with ⟨rest',pos'⟩
    obtain rfl : rest' = a :: rest ++ [b] := hrest
    exact ⟨⟨⟨v ++ [a],by rw [hv,List.append_assoc]; rfl⟩,rfl⟩,v,hv⟩

theorem Near.beside_of_peek {a : Char} (h : Near b l c c') (ha : c.peek = some a) :
    Beside b l c c' := by
  cases h with
  | beside h => exact h
  | beyond hc =>
    rw [peek,hc] at ha
    cases ha

theorem Beside.peek {a : Char} (h : Beside b l c c') (ha : c.peek = some a) : c'.peek = some a := by
  rw [Cursor.peek] at ha
  rw [Cursor.peek,h.rest,List.head?_append,ha]
  rfl

/-- What is said of the next character, if it is not said of the blank. -/
theorem Near.any_peek (h : Near b l c c') (hp : p b = false) : c'.peek.any p = c.peek.any p := by
  cases h with
  | beside h =>
    cases ha : c.peek with
    | some a => rw [h.peek ha]
    | none =>
      have hc : c.rest = [] := List.head?_eq_none_iff.1 ha
      rw [Cursor.peek,h.rest,hc]
      simp [hp]
  | beyond hc hc' => rw [Cursor.peek,Cursor.peek,hc,hc']

theorem Near.peek_eq_iff {a : Char} (h : Near b l c c') (ha : a ≠ b) :
    c'.peek = some a ↔ c.peek = some a := by
  have hany := h.any_peek (p := (· == a)) (by simpa using ha.symm)
  rw [Bool.eq_iff_iff] at hany
  simpa [Option.any_eq_true] using hany

theorem Near.takeWhile (h : Near b l c c') (hp : p b = false) :
    c'.rest.takeWhile p = c.rest.takeWhile p := by
  cases h with
  | beside h =>
    rw [h.rest]
    exact takeWhile_append_of_stops (stops_cons.2 hp) c.rest
  | beyond hc hc' => rw [hc,hc']

theorem exists_append_dropWhile {v : Text} (h : l = v ++ c.rest) (p : Char → Bool) :
    ∃ v, l = v ++ (c.dropWhile p).rest :=
  ⟨v ++ c.rest.takeWhile p,by rw [List.append_assoc,dropWhile,List.takeWhile_append_dropWhile,h]⟩

theorem Near.dropWhile (h : Near b l c c') (hp : p b = false) :
    Near b l (c.dropWhile p) (c'.dropWhile p) := by
  cases h with
  | beside h =>
    obtain ⟨⟨v,hv⟩,hrest⟩ := h
    refine .beside ⟨exists_append_dropWhile hv p,?_⟩
    simp only [Cursor.dropWhile,hrest,List.dropWhile_append]
    split
    case isTrue hnil => simp [List.isEmpty_iff.1 hnil,hp]
    case isFalse => rfl
  | beyond hc hc' =>
    refine .beyond ?_ ?_
    · simp [Cursor.dropWhile,hc]
    · simp [Cursor.dropWhile,hc']

/-- Skipping a class that the blank belongs to leads beyond it at the end of the line. -/
theorem Near.dropWhile_level (h : Near b l c c') (hp : p b = true) :
    Level b l (c.dropWhile p) (c'.dropWhile p) := by
  cases h with
  | beside h =>
    obtain ⟨⟨v,hv⟩,hrest⟩ := h
    by_cases hnil : c.rest.dropWhile p = []
    · have hnil' : c'.rest.dropWhile p = [] := by
        rw [hrest,List.dropWhile_append,hnil]
        simp [hp]
      exact ⟨.beyond hnil hnil',fun _ => hnil'⟩
    · refine ⟨.beside ⟨exists_append_dropWhile hv p,?_⟩,fun h => absurd h hnil⟩
      simp only [Cursor.dropWhile,hrest,List.dropWhile_append]
      rw [if_neg (by simpa using hnil)]
  | beyond hc hc' =>
    have hnil : c.rest.dropWhile p = [] := by rw [hc]; rfl
    have hnil' : c'.rest.dropWhile p = [] := by rw [hc']; rfl
    exact ⟨.beyond hnil hnil',fun _ => hnil'⟩

theorem Level.peek_eq (h : Level b l c c') : c'.peek = c.peek := by
  cases ha : c.peek with
  | some a => exact (h.near.beside_of_peek ha).peek ha
  | none =>
    rw [peek,h.ended (List.head?_eq_none_iff.1 ha)]
    rfl

theorem Near.mem_of_peek {a : Char} (h : Near b l c c') (ha : c.peek = some a) : a ∈ l := by
  obtain ⟨⟨v,hv⟩,_⟩ := h.beside_of_peek ha
  rw [hv]
  exact List.mem_append_right v (List.mem_of_head? ha)

/-- Where data are read the second cursor has the blank before it exactly if the sign of a literal
operand ends the line. -/
structure Signed (b : Char) (l : Text) (c c' : Cursor) : Prop where
  near : Near b l c c'
  ended : c.rest = [] → (c'.rest = [] ↔ l.getLast? ≠ some '=')

theorem Level.signed (h : Level b l c c') (hc : Clear l c) : Signed b l c c' :=
  ⟨h.near,fun hrest => ⟨fun _ => hc hrest,fun _ => h.ended hrest⟩⟩

theorem Beside.signed (h : Beside b l c c') (hl : ∃ v, l = v ++ '=' :: c.rest) :
    Signed b l c c' := by
  refine ⟨.beside h,fun hrest => ?_⟩
  obtain ⟨v,hv⟩ := hl
  have hrest' : c'.rest ≠ [] := by simp [h.rest]
  have hlast : l.getLast? = some '=' := by
    rw [hv,hrest]
    simp
  exact ⟨fun h => absurd h hrest',fun h => absurd hlast h⟩

end Cursor

namespace Scan
open Cursor

variable {α β : Type} {b : Char} {l : Text} {P Q R : Cursor → Cursor → Prop}

/-- The same value with cursors that are related, or a fault and what becomes of it. -/
inductive Matches (b : Char) (l : Text) (Q : Cursor → Cursor → Prop) :
    EStateM.Result Diagnostic Cursor α → EStateM.Result Diagnostic Cursor α → Prop where
  | ok {a : α} {d d' : Cursor} : Q d d' → Matches b l Q (.ok a d) (.ok a d')
  | error {e e' : Diagnostic} {d d' : Cursor} : e'.fault = e.fault.trailed b l →
      Matches b l Q (.error e d) (.error e' d')

/-- The first scan on the line and the second one on the line with the blank. They differ in the
positions that they are given. -/
def Follows (b : Char) (l : Text) (P Q : Cursor → Cursor → Prop) (x y : Scan α) : Prop :=
  ∀ c c' : Cursor, P c c' → Matches b l Q (x.run c) (y.run c')

theorem Matches.mono {r r' : EStateM.Result Diagnostic Cursor α} (h : Matches b l Q r r')
    (hQ : ∀ {d d'}, Q d d' → R d d') : Matches b l R r r' := by
  cases h with
  | ok hd => exact .ok (hQ hd)
  | error he => exact .error he

theorem Follows.from {x y : Scan α} (h : Follows b l P Q x y) (hP : ∀ {c c'}, R c c' → P c c') :
    Follows b l R Q x y := fun c c' hc => h c c' (hP hc)

theorem Follows.to {x y : Scan α} (h : Follows b l P Q x y) (hQ : ∀ {c c'}, Q c c' → R c c') :
    Follows b l P R x y := fun c c' hc => (h c c' hc).mono hQ

/-- What is known of the first run alone holds beside what relates the two. -/
theorem Follows.and {x y : Scan α} {p : Cursor → Prop} (h : Follows b l P Q x y)
    (hp : ∀ {c c' a d}, P c c' → x.run c = .ok a d → p d) :
    Follows b l P (fun d d' => Q d d' ∧ p d) x y := by
  intro c c' hc
  have hm := h c c' hc
  generalize hr : x.run c = r at hm ⊢
  generalize y.run c' = r' at hm ⊢
  cases hm with
  | ok hd => exact .ok ⟨hd,hp hc hr⟩
  | error he => exact .error he

theorem Follows.bind {x y : Scan α} {f g : α → Scan β} (hx : Follows b l P Q x y)
    (hf : ∀ a, Follows b l Q R (f a) (g a)) : Follows b l P R (x >>= f) (y >>= g) := by
  intro c c' hc
  have h := hx c c' hc
  rw [EStateM.run_bind,EStateM.run_bind]
  generalize x.run c = r at h
  generalize y.run c' = r' at h
  cases h with
  | ok hd => exact hf _ _ _ hd
  | error he => exact .error he

theorem Follows.pure (a : α) : Follows b l P P (pure a) (pure a) := fun _ _ hc => .ok hc

theorem Follows.bind_pure {x y : Scan α} (hx : Follows b l P Q x y) (f : α → β) :
    Follows b l P Q (x >>= fun a => Pure.pure (f a)) (y >>= fun a => Pure.pure (f a)) :=
  hx.bind fun _ => .pure _

theorem Follows.ite {x x' y y' : Scan α} {p : Prop} [Decidable p] (hx : Follows b l P Q x x')
    (hy : Follows b l P Q y y') : Follows b l P Q (if p then x else y) (if p then x' else y') := by
  split
  · exact hx
  · exact hy

/-- A scan that remembers where it started. -/
theorem Follows.located {f g : Position → Scan α} (h : ∀ p p', Follows b l P Q (f p) (g p')) :
    Follows b l P Q (here >>= f) (here >>= g) := fun c c' hc => h c.pos c'.pos c c' hc

theorem follows_view {f : Cursor → α} (h : ∀ {c c'}, P c c' → f c' = f c) :
    Follows b l P P (do return f (← get) : Scan α) (do return f (← get)) := by
  intro c c' hc
  change Matches b l P (.ok (f c) c) (.ok (f c') c')
  rw [h hc]
  exact .ok hc

theorem follows_failAt {p p' : Position} {fault fault' : Fault}
    (h : fault' = fault.trailed b l) :
    Follows b l P Q (failAt p fault : Scan α) (failAt p' fault') := fun _ _ _ => .error h

theorem follows_fail {fault fault' : Fault}
    (h : ∀ {c c'}, P c c' → fault' = fault.trailed b l) :
    Follows b l P Q (fail fault : Scan α) (fail fault') := fun _ _ hc => .error (h hc)

/-- A scan that looks at the next character. Where there is none on the line, there is the blank,
or none either. -/
theorem Follows.peek {f g : Option Char → Scan α} (hP : ∀ {c c'}, P c c' → Near b l c c')
    (hsome : ∀ a, Follows b l (fun c c' => P c c' ∧ c.peek = some a) Q (f (some a)) (g (some a)))
    (hblank : Follows b l (fun c c' => P c c' ∧ c.rest = [] ∧ c'.rest = [b]) Q (f none)
      (g (some b)))
    (hnone : Follows b l (fun c c' => P c c' ∧ c.rest = [] ∧ c'.rest = []) Q (f none) (g none)) :
    Follows b l P Q (Scan.peek >>= f) (Scan.peek >>= g) := by
  intro c c' hc
  change Matches b l Q ((f c.peek).run c) ((g c'.peek).run c')
  cases ha : c.peek with
  | some a =>
    rw [((hP hc).beside_of_peek ha).peek ha]
    exact hsome a c c' ⟨hc,ha⟩
  | none =>
    have hrest : c.rest = [] := List.head?_eq_none_iff.1 ha
    cases hP hc with
    | beside h =>
      have hrest' : c'.rest = [b] := by rw [h.rest,hrest]; rfl
      have hpeek : c'.peek = some b := by rw [Cursor.peek,hrest']; rfl
      rw [hpeek]
      exact hblank c c' ⟨hc,hrest,hrest'⟩
    | beyond _ hrest' =>
      have hpeek : c'.peek = none := by rw [Cursor.peek,hrest']; rfl
      rw [hpeek]
      exact hnone c c' ⟨hc,hrest,hrest'⟩

/-- A choice by the next character, which is consumed on one side and then belongs to the line. -/
theorem Follows.branch {a : Char} {x x' y y' : Scan α} (ha : a ≠ b)
    (hP : ∀ {c c'}, P c c' → Near b l c c')
    (hx : Follows b l (fun d d' => Beside b l d d' ∧ ∃ v, l = v ++ a :: d.rest) Q x x')
    (hy : Follows b l P Q y y') :
    Follows b l P Q (do if ← advanceIf a then x else y) (do if ← advanceIf a then x' else y') := by
  intro c c' hc
  have hpeek := (hP hc).peek_eq_iff ha
  by_cases hca : c.peek = some a
  · have hrun : (advanceIf a).run c = .ok true c.advance := by rw [run_advanceIf,if_pos hca]
    have hrun' : (advanceIf a).run c' = .ok true c'.advance := by
      rw [run_advanceIf,if_pos (hpeek.2 hca)]
    rw [run_bind_of_ok hrun,run_bind_of_ok hrun']
    exact hx _ _ (((hP hc).beside_of_peek hca).advance hca)
  · have hrun : (advanceIf a).run c = .ok false c := by rw [run_advanceIf,if_neg hca]
    have hrun' : (advanceIf a).run c' = .ok false c' := by
      rw [run_advanceIf,if_neg (mt hpeek.1 hca)]
    rw [run_bind_of_ok hrun,run_bind_of_ok hrun']
    exact hy c c' hc

section Failures
variable {x y : Scan α}

/-- Where the first scan fails, so does the second one, with what becomes of the fault. -/
def FailsAlike (b : Char) (l : Text) (P : Cursor → Cursor → Prop) (x y : Scan α) : Prop :=
  ∀ {c c' : Cursor} {e : Diagnostic} {d : Cursor}, P c c' → x.run c = .error e d →
    ∃ e' d', y.run c' = .error e' d' ∧ e'.fault = e.fault.trailed b l

theorem FailsAlike.bind {f g : α → Scan β} (hx : Follows b l P Q x y)
    (hf : ∀ a, FailsAlike b l Q (f a) (g a)) : FailsAlike b l P (x >>= f) (y >>= g) := by
  intro c c' e d hc h
  have hm := hx c c' hc
  rw [EStateM.run_bind] at h ⊢
  generalize x.run c = r at h hm
  generalize y.run c' = r' at hm
  cases hm with
  | ok hd => exact hf _ hd h
  | error he =>
    cases h
    exact ⟨_,_,rfl,he⟩

theorem FailsAlike.ite {x' y' : Scan α} {p : Prop} [Decidable p] (hx : FailsAlike b l P x x')
    (hy : FailsAlike b l P y y') : FailsAlike b l P (if p then x else y) (if p then x' else y') := by
  split
  · exact hx
  · exact hy

theorem failsAlike_of_ok (h : ∀ c, ∃ a d, x.run c = .ok a d) : FailsAlike b l P x y := by
  intro c c' e d _ herror
  obtain ⟨a,d',hok⟩ := h c
  rw [hok] at herror
  cases herror

end Failures

section Elementary
variable {a : Char} {p : Char → Bool}

theorem follows_advanceIf (ha : a ≠ b) :
    Follows b l (Near b l) (Near b l) (advanceIf a) (advanceIf a) := by
  intro c c' hc
  simp only [run_advanceIf,hc.peek_eq_iff ha]
  split
  case isTrue h => exact .ok (.beside ((hc.beside_of_peek h).advance h).1)
  case isFalse => exact .ok hc

theorem follows_readWhile (hp : p b = false) :
    Follows b l (Near b l) (Near b l) (readWhile p) (readWhile p) := by
  intro c c' hc
  rw [run_readWhile,run_readWhile,hc.takeWhile hp]
  exact .ok (hc.dropWhile hp)

theorem follows_atEndOfLine : Follows b l (Level b l) (Level b l) atEndOfLine atEndOfLine :=
  follows_view fun h => by rw [Cursor.atEndOfLine,Cursor.atEndOfLine,h.peek_eq]

theorem follows_peek : Follows b l (Level b l) (Level b l) peek peek := follows_view Level.peek_eq

theorem follows_atDigit (hP : ∀ {c c'}, P c c' → Near b l c c') (hd : b.isDigit = false) :
    Follows b l P P atDigit atDigit := follows_view fun h => (hP h).any_peek hd

theorem follows_skipBlanks (hb : isBlank b) :
    Follows b l (Near b l) (Level b l) skipBlanks skipBlanks := by
  intro c c' hc
  have hlevel := hc.dropWhile_level hb
  have hended : (c'.dropWhile isBlank).atEndOfLine = (c.dropWhile isBlank).atEndOfLine := by
    rw [Cursor.atEndOfLine,Cursor.atEndOfLine,hlevel.peek_eq]
  change Matches b l _ (.ok (c.dropWhile isBlank).atEndOfLine (c.dropWhile isBlank))
    (.ok (c'.dropWhile isBlank).atEndOfLine (c'.dropWhile isBlank))
  rw [hended]
  exact .ok hlevel

theorem follows_next_of_peek (ha : a ≠ '\n') :
    Follows b l (fun c c' => Near b l c c' ∧ c.peek = some a) (Near b l) next next := by
  rintro c c' ⟨hc,hpeek⟩
  have hbeside := hc.beside_of_peek hpeek
  have hpeek' := hbeside.peek hpeek
  have he : c.atEndOfLine = false := by simp [Cursor.atEndOfLine,hpeek,ha]
  have he' : c'.atEndOfLine = false := by simp [Cursor.atEndOfLine,hpeek',ha]
  rw [run_next,run_next,he,he',hpeek,hpeek']
  exact .ok (.beside (hbeside.advance hpeek).1)

theorem follows_next (hl : '\n' ∉ l) : Follows b l (Level b l) (Near b l) next next := by
  intro c c' hc
  cases ha : c.peek with
  | some a =>
    refine follows_next_of_peek ?_ c c' ⟨hc.near,ha⟩
    rintro rfl
    exact hl (hc.near.mem_of_peek ha)
  | none =>
    have he : c.atEndOfLine = true := by simp [Cursor.atEndOfLine,ha]
    have he' : c'.atEndOfLine = true := by simp [Cursor.atEndOfLine,hc.peek_eq,ha]
    rw [run_next,run_next,he,he']
    exact .ok hc.near

/-- Behind skipped blanks a missing character is missing in the same way. -/
theorem follows_expect (ha : a ≠ b) (hq : a ≠ '\x27') :
    Follows b l (Level b l) (Near b l) (expect a) (expect a) := by
  refine Follows.branch ha Level.near ((Follows.pure ()).from fun h => .beside h.1) ?_
  refine follows_peek.bind fun found => ?_
  cases found with
  | none => exact follows_fail fun _ => by rw [Fault.trailed_expectedAtInputEnd,if_neg hq]
  | some found => exact Follows.ite (follows_fail fun _ => rfl) (follows_fail fun _ => rfl)

/-- A quote that is missing at the end of the line is missing before the blank. -/
theorem follows_expect_quote (hb : isBlank b) :
    Follows b l (Beside b l) (Near b l) (expect '\x27') (expect '\x27') := by
  have hn : b ≠ '\n' := ne_newline_of_isBlank hb
  refine Follows.branch (ne_of_isBlank hb rfl) .beside ((Follows.pure ()).from fun h => .beside h.1) ?_
  refine Follows.peek .beside (fun a => Follows.ite (follows_fail fun _ => rfl)
    (follows_fail fun _ => rfl)) ?_ ?_
  · dsimp only
    rw [if_neg hn]
    exact follows_fail fun _ => rfl
  · rintro c c' ⟨hc,_,hrest⟩
    rw [hc.rest] at hrest
    exact absurd hrest (by simp)

end Elementary
end Scan

end SicXE
