import SicXE.Source.Scan

/-! # Scans that stay in their line

A scan is in line when it never moves over a newline, whether it succeeds or fails. A scan
ends its line when success leaves the cursor just beyond the next newline, or at the end of
the text. Both properties are kept by composition, and the second one gives progress.
-/
namespace SicXE.Scan
open Text

variable {α β : Type}

/-- Where a scan leaves the cursor, whether it succeeds or fails. -/
def leaves (x : Scan α) (c : Cursor) : Cursor :=
  match x.run c with
  | .ok _ d => d
  | .error _ d => d

def InLine (x : Scan α) : Prop := ∀ c : Cursor, c.Within (leaves x c)

theorem InLine.pure (a : α) : InLine (pure a : Scan α) := fun c => .refl c

theorem InLine.bind {x : Scan α} {f : α → Scan β} (hx : InLine x) (hf : ∀ a, InLine (f a)) :
    InLine (x >>= f) := by
  intro c
  have h := hx c
  unfold leaves at h ⊢
  rw [EStateM.run_bind]
  cases hr : x.run c with
  | ok a d =>
    rw [hr] at h
    exact h.trans (hf a d)
  | error e d =>
    rw [hr] at h
    exact h

theorem InLine.map {x : Scan α} (hx : InLine x) (f : α → β) : InLine (f <$> x) := by
  rw [map_eq_pure_bind]
  exact hx.bind fun a => .pure (f a)

theorem InLine.ite {x y : Scan α} {p : Prop} [Decidable p] (hx : InLine x) (hy : InLine y) :
    InLine (if p then x else y) := by
  split
  · exact hx
  · exact hy

theorem inLine_view (f : Cursor → α) : InLine (do return f (← get) : Scan α) := fun c => .refl c

theorem inLine_failAt (location : Position) (fault : Fault) :
    InLine (failAt location fault : Scan α) := fun c => .refl c

theorem inLine_fail (fault : Fault) : InLine (fail fault : Scan α) := fun c => .refl c

theorem inLine_orFailAt (location : Position) (r : Except Fault α) :
    InLine (orFailAt location r) := by
  cases r with
  | ok a => exact .pure a
  | error fault => exact inLine_failAt location fault

theorem inLine_next : InLine next := by
  intro c
  change c.Within (if c.atEndOfLine then ((none : Option Char),c) else (c.peek,c.advance)).2
  split
  · exact .refl c
  case isFalse h =>
    refine Cursor.passes_advance ?_
    intro a ha hn
    subst hn
    exact h (by simp [Cursor.atEndOfLine,ha])

theorem inLine_advanceIf {a : Char} (ha : a ≠ '\n') : InLine (advanceIf a) := by
  intro c
  change c.Within (if c.peek = some a then (true,c.advance) else (false,c)).2
  split
  case isTrue h =>
    refine Cursor.passes_advance ?_
    intro b hb
    rw [h] at hb
    exact (Option.some.inj hb) ▸ ha
  · exact .refl c

theorem inLine_expect {a : Char} (ha : a ≠ '\n') : InLine (expect a) := by
  refine (inLine_advanceIf ha).bind fun b => ?_
  refine InLine.ite (.pure ()) ((inLine_view _).bind fun found => ?_)
  cases found with
  | none => exact inLine_fail _
  | some found => exact InLine.ite (inLine_fail _) (inLine_fail _)

theorem inLine_readWhile {p : Char → Bool} (hp : p '\n' = false) : InLine (readWhile p) := by
  intro c
  refine Cursor.passes_dropWhile p ?_
  intro a ha hn
  subst hn
  rw [hp] at ha
  exact Bool.noConfusion ha

theorem inLine_skipBlanks : InLine skipBlanks :=
  (inLine_readWhile isBlank_newline).bind fun _ => inLine_view _

theorem inLine_readSymbol : InLine readSymbol := inLine_readWhile (by decide)

theorem inLine_readDigits (radix : Nat) : InLine (readDigits radix) := inLine_readWhile rfl

/-- A scan that, when it succeeds, leaves the cursor just beyond the end of its line. -/
def EndsLine (x : Scan α) : Prop :=
  ∀ c a d, x.run c = .ok a d → ∃ e : Cursor, c.Within e ∧ d = e.dropTo '\n'

theorem InLine.bind_endsLine {x : Scan α} {f : α → Scan β} (hx : InLine x)
    (hf : ∀ a, EndsLine (f a)) : EndsLine (x >>= f) := by
  intro c b d h
  have hw := hx c
  unfold leaves at hw
  rw [EStateM.run_bind] at h
  cases hr : x.run c with
  | ok a c' =>
    rw [hr] at h hw
    obtain ⟨e,he,hd⟩ := hf a c' b d h
    exact ⟨e,hw.trans he,hd⟩
  | error e c' =>
    rw [hr] at h
    cases h

theorem EndsLine.bind_pure {x : Scan α} (hx : EndsLine x) (f : α → β) :
    EndsLine (x >>= fun a => pure (f a)) := by
  intro c b d h
  rw [EStateM.run_bind] at h
  cases hr : x.run c with
  | ok a c' =>
    rw [hr] at h
    cases h
    exact hx c a _ hr
  | error e c' =>
    rw [hr] at h
    cases h

theorem EndsLine.ite {x y : Scan α} {p : Prop} [Decidable p] (hx : EndsLine x)
    (hy : EndsLine y) : EndsLine (if p then x else y) := by
  split
  · exact hx
  · exact hy

theorem endsLine_readTo : EndsLine (readTo '\n') := by
  intro c t d h
  cases h
  exact ⟨c,.refl c,rfl⟩

theorem EndsLine.length_le {x : Scan α} (hx : EndsLine x) {c d : Cursor} {a : α}
    (h : x.run c = .ok a d) : d.rest.length ≤ c.rest.length := by
  obtain ⟨e,he,rfl⟩ := hx c a d h
  exact Nat.le_trans (Cursor.dropTo_length_le _) he.length_le

/-- Such a scan makes progress unless the text has ended. -/
theorem EndsLine.length_lt {x : Scan α} (hx : EndsLine x) {c d : Cursor} {a : α}
    (h : x.run c = .ok a d) (hc : c.rest ≠ []) : d.rest.length < c.rest.length := by
  obtain ⟨e,he,rfl⟩ := hx c a d h
  by_cases hr : e.rest = []
  · have hd := Cursor.dropTo_length_le (c := e) '\n'
    have hpos := List.length_pos_iff.2 hc
    simp only [hr,List.length_nil] at hd
    omega
  · exact Nat.lt_of_lt_of_le (Cursor.dropTo_length_lt _ hr) he.length_le

end SicXE.Scan
