import SicXE.Proofs.Characters
import SicXE.Proofs.Positions
import SicXE.Source.InLine

/-! # What a scan reads

`Reads x t a u` says that before the text `u` the scan `x` consumes exactly `t` and gives `a`.
The text that follows is part of the statement, since most scans look at the character that
ends what they read. Scans in sequence read texts in sequence.
-/
namespace SicXE.Scan
open Text

variable {α β γ : Type}

def Reads (x : Scan α) (t : Text) (a : α) (u : Text) : Prop :=
  ∀ p : Position, x.run ⟨t ++ u,p⟩ = .ok a ⟨u,p.past t⟩

/-- A sequence succeeds by succeeding at its first part and then at its second. -/
theorem run_bind_eq_ok {x : Scan α} {f : α → Scan β} {c d : Cursor} {b : β} :
    (x >>= f).run c = .ok b d ↔ ∃ a e, x.run c = .ok a e ∧ (f a).run e = .ok b d := by
  rw [EStateM.run_bind]
  constructor
  · intro h
    cases hx : x.run c with
    | ok a e =>
      rw [hx] at h
      exact ⟨a,e,rfl,h⟩
    | error e c' =>
      rw [hx] at h
      cases h
  · rintro ⟨a,e,hx,hf⟩
    rw [hx]
    exact hf

theorem run_readWhile (p : Char → Bool) (c : Cursor) :
    (readWhile p).run c = .ok (c.rest.takeWhile p) (c.dropWhile p) := rfl

theorem run_readTo (delimiter : Char) (c : Cursor) :
    (readTo delimiter).run c =
      .ok (c.rest.takeWhile (· != delimiter)) (c.dropTo delimiter) := rfl

theorem run_advanceIf (a : Char) (c : Cursor) :
    (advanceIf a).run c = if c.peek = some a then .ok true c.advance else .ok false c := by
  change EStateM.Result.ok (if c.peek = some a then _ else _ : Bool × Cursor).1
    (if c.peek = some a then _ else _ : Bool × Cursor).2 = _
  split <;> rfl

theorem run_next (c : Cursor) :
    next.run c = if c.atEndOfLine then .ok none c else .ok c.peek c.advance := by
  change EStateM.Result.ok (if c.atEndOfLine then _ else _ : Option Char × Cursor).1
    (if c.atEndOfLine then _ else _ : Option Char × Cursor).2 = _
  split <;> rfl

theorem run_bind_of_ok {x : Scan α} {f : α → Scan β} {c d : Cursor} {a : α}
    (h : x.run c = .ok a d) : (x >>= f).run c = (f a).run d := by
  rw [EStateM.run_bind,h]

theorem run_bind_of_error {x : Scan α} {f : α → Scan β} {c d : Cursor} {e : Diagnostic}
    (h : x.run c = .error e d) : (x >>= f).run c = .error e d := by
  rw [EStateM.run_bind,h]

section Failures
variable {a b : α} {c d : Cursor}

theorem run_failAt_ne_ok {location : Position} {fault : Fault} :
    (failAt location fault : Scan α).run c ≠ .ok a d := by
  intro h
  cases h

theorem run_fail_ne_ok {fault : Fault} : (fail fault : Scan α).run c ≠ .ok a d := by
  intro h
  cases h

theorem run_orFailAt_eq_ok {location : Position} {r : Except Fault α} :
    (orFailAt location r).run c = .ok a d ↔ r = .ok a ∧ c = d := by
  cases r with
  | ok b =>
    constructor
    · intro h
      cases h
      exact ⟨rfl,rfl⟩
    · rintro ⟨h,rfl⟩
      cases h
      rfl
  | error fault => exact ⟨fun h => (run_failAt_ne_ok h).elim,fun h => nomatch h.1⟩

end Failures

section Sequences
variable {x : Scan α} {f : α → Scan β} {t u v : Text} {a : α} {b : β}

theorem Reads.run (h : Reads x t a u) (p : Position) :
    x.run ⟨t ++ u,p⟩ = .ok a ⟨u,p.past t⟩ := h p

theorem Reads.pure (a : α) (u : Text) : Reads (pure a) [] a u := fun _ => rfl

theorem Reads.bind (hx : Reads x t a (v ++ u)) (hf : Reads (f a) v b u) :
    Reads (x >>= f) (t ++ v) b u := by
  intro p
  refine run_bind_eq_ok.2 ⟨a,⟨v ++ u,p.past t⟩,?_,?_⟩
  · rw [List.append_assoc]
    exact hx p
  · rw [Position.past_append]
    exact hf (p.past t)

/-- A first part that consumes nothing. -/
theorem Reads.look (hx : Reads x [] a (t ++ u)) (hf : Reads (f a) t b u) :
    Reads (x >>= f) t b u := Reads.bind hx hf

/-- A second part that consumes nothing. -/
theorem Reads.bind_last (hx : Reads x t a u) (hf : Reads (f a) [] b u) :
    Reads (x >>= f) t b u := by
  have h := Reads.bind (v := []) hx hf
  rwa [List.append_nil] at h

theorem Reads.bind_pure (hx : Reads x t a u) (g : α → γ) :
    Reads (x >>= fun a => Pure.pure (g a)) t (g a) u :=
  hx.bind_last (Reads.pure (g a) u)

/-- A scan that looks at the text itself. -/
theorem Reads.get {f : Cursor → Scan β} (h : ∀ p, Reads (f ⟨t ++ u,p⟩) t b u) :
    Reads (get >>= f) t b u := fun p => h p p

/-- A scan that remembers where it started reads what it reads from anywhere. -/
theorem Reads.located {f : Position → Scan β} (h : ∀ p, Reads (f p) t b u) :
    Reads (here >>= f) t b u := fun p => h p p

theorem Reads.ite_pos {c : Prop} [Decidable c] {x y : Scan α} (hc : c) (h : Reads x t a u) :
    Reads (if c then x else y) t a u := by
  rw [if_pos hc]
  exact h

theorem Reads.ite_neg {c : Prop} [Decidable c] {x y : Scan α} (hc : ¬c) (h : Reads y t a u) :
    Reads (if c then x else y) t a u := by
  rw [if_neg hc]
  exact h

end Sequences

section Elementary
variable {p : Char → Bool} {t u : Text} {a : Char}

theorem reads_peek (u : Text) : Reads peek [] u.head? u := fun _ => rfl

theorem reads_atDigit (u : Text) : Reads atDigit [] (u.head?.any Char.isDigit) u := fun _ => rfl

theorem reads_atEndOfLine (u : Text) :
    Reads atEndOfLine [] (u.head? == none || u.head? == some '\n') u := fun _ => rfl

theorem reads_readWhile (ht : ∀ a ∈ t, p a) (hu : Stops p u) : Reads (readWhile p) t t u := by
  intro q
  rw [run_readWhile,Cursor.dropWhile,takeWhile_run ht hu,dropWhile_run ht hu]

theorem reads_advanceIf (a : Char) (u : Text) : Reads (advanceIf a) [a] true u := by
  intro q
  rw [run_advanceIf]
  exact if_pos rfl

theorem reads_advanceIf_ne (h : u.head? ≠ some a) : Reads (advanceIf a) [] false u := by
  intro q
  rw [run_advanceIf]
  exact if_neg h

theorem reads_expect (a : Char) (u : Text) : Reads (expect a) [a] () u :=
  (reads_advanceIf a u).bind_last (Reads.ite_pos rfl (Reads.pure () u))

theorem reads_next (ha : a ≠ '\n') (u : Text) : Reads next [a] (some a) u := by
  intro q
  have he : (⟨[a] ++ u,q⟩ : Cursor).atEndOfLine = false := by
    simp [Cursor.atEndOfLine,Cursor.peek,ha]
  rw [run_next,he]
  rfl

theorem reads_skipBlanks (ht : ∀ a ∈ t, isBlank a) (hu : Stops isBlank u) :
    Reads skipBlanks t (u.head? == none || u.head? == some '\n') u :=
  (reads_readWhile ht hu).bind_last (reads_atEndOfLine u)

theorem reads_readTo {delimiter : Char} (ht : delimiter ∉ t) :
    Reads (readTo delimiter) (t ++ [delimiter]) t u := by
  intro q
  have hp := bne_of_not_mem ht
  have hs : Stops (· != delimiter) (delimiter :: u) := by simp
  rw [run_readTo,Cursor.dropTo,Cursor.dropWhile,List.append_assoc,List.singleton_append,
    takeWhile_run hp hs,dropWhile_run hp hs,Position.past_append]
  rfl

/-- Without the delimiter all that is left is read. -/
theorem reads_readTo_end {delimiter : Char} (ht : delimiter ∉ t) :
    Reads (readTo delimiter) t t [] := by
  intro q
  have hp := bne_of_not_mem ht
  rw [run_readTo,Cursor.dropTo,Cursor.dropWhile,takeWhile_run hp stops_nil,
    dropWhile_run hp stops_nil]
  rfl

theorem reads_advance (a : Char) (u : Text) : Reads advance [a] (some a) u := fun _ => rfl

theorem reads_advance_end : Reads advance [] none [] := fun _ => rfl

end Elementary

end SicXE.Scan
