import SicXE.Proofs.Reads

/-! # Embedding a line into a text

A scan that stays in its line gives the same wherever the line stands: other lines may follow,
and the line may have another number. What it gives on a single line is carried over by an
embedding, which appends what follows and sets the number of the line. A fault keeps its column,
and only if it speaks of the end of the input it speaks of the end of the line instead.
-/
namespace SicXE

/-- The same column of another line. -/
def Position.onLine (n : Nat) (p : Position) : Position := ⟨n,p.column⟩

def Diagnostic.onLine (n : Nat) (e : Diagnostic) : Diagnostic := ⟨e.fault,e.location.onLine n⟩

/-- What a fault says where a text follows that does not continue the line. -/
def Fault.before (u : Text) : Fault → Fault
  | expectedAtInputEnd wanted =>
    if u = [] then expectedAtInputEnd wanted else expectedAtLineEnd wanted
  | fault => fault

theorem Fault.before_of_ne {fault : Fault} (h : ∀ wanted, fault ≠ .expectedAtInputEnd wanted)
    (u : Text) : fault.before u = fault := by
  cases fault with
  | expectedAtInputEnd wanted => exact absurd rfl (h wanted)
  | _ => rfl

@[simp] theorem Fault.before_nil (fault : Fault) : fault.before [] = fault := by
  cases fault <;> rfl

/-- A diagnostic of a line in the text where other lines follow, on a line with another number. -/
def Diagnostic.embed (n : Nat) (u : Text) (e : Diagnostic) : Diagnostic :=
  ⟨e.fault.before u,e.location.onLine n⟩

theorem Position.past_onLine {t : Text} (ht : '\n' ∉ t) (n : Nat) (p : Position) :
    (p.onLine n).past t = (p.past t).onLine n := by
  induction t generalizing p with
  | nil => rfl
  | cons a t ih =>
    have ha : a ≠ '\n' := by
      rintro rfl
      exact ht List.mem_cons_self
    have hafter : (p.onLine n).after a = (p.after a).onLine n := by simp [after,onLine,ha]
    rw [past_cons,past_cons,hafter,ih fun h => ht (List.mem_cons_of_mem _ h)]

namespace Cursor
open Text

/-- The cursor in the text where other lines follow, on a line with another number. -/
def embed (n : Nat) (u : Text) (c : Cursor) : Cursor := ⟨c.rest ++ u,c.pos.onLine n⟩

/-- Nothing of the text that follows belongs to the line of the cursor. -/
def EndsBefore (u : Text) (c : Cursor) : Prop := Ended u ∨ '\n' ∈ c.rest

variable {n : Nat} {u : Text} {c d : Cursor}

theorem EndsBefore.within (hc : c.EndsBefore u) (h : c.Within d) : d.EndsBefore u := by
  obtain ⟨t,hrest,_,ht⟩ := h
  apply hc.imp_right
  intro hn
  rw [hrest,List.mem_append] at hn
  exact hn.resolve_left fun h => ht '\n' h rfl

theorem embed_of_peek {a : Char} (h : c.peek = some a) : (c.embed n u).peek = some a := by
  rcases c with ⟨_ | ⟨b,rest⟩,pos⟩
  · cases h
  · exact h

theorem embed_of_peek_none (hc : c.EndsBefore u) (h : c.peek = none) :
    u = [] ∧ (c.embed n u).peek = none ∨ u ≠ [] ∧ (c.embed n u).peek = some '\n' := by
  rcases c with ⟨_ | ⟨a,rest⟩,pos⟩
  · rcases hc.resolve_right List.not_mem_nil with hu | hu
    · exact .inl ⟨List.head?_eq_none_iff.1 hu,hu⟩
    · refine .inr ⟨?_,hu⟩
      rintro rfl
      cases hu
  · cases h

/-- What is said of the next character, as long as the end of the input is as good as that of the
line. -/
theorem any_peek_embed {p : Char → Bool} (hp : p '\n' = false) (hc : c.EndsBefore u) :
    (c.embed n u).peek.any p = c.peek.any p := by
  cases h : c.peek with
  | some a => rw [embed_of_peek h]
  | none =>
    rcases embed_of_peek_none (n := n) hc h with ⟨_,hu⟩ | ⟨_,hu⟩
    · rw [hu]
    · rw [hu,Option.any_some,hp]
      rfl

theorem peek_embed_eq_iff {a : Char} (ha : a ≠ '\n') (hc : c.EndsBefore u) :
    (c.embed n u).peek = some a ↔ c.peek = some a := by
  cases h : c.peek with
  | some b => rw [embed_of_peek h]
  | none =>
    rcases embed_of_peek_none (n := n) hc h with ⟨_,hu⟩ | ⟨_,hu⟩
    · rw [hu]
    · simp [hu,ha.symm]

theorem atEndOfLine_embed (hc : c.EndsBefore u) :
    (c.embed n u).atEndOfLine = c.atEndOfLine := by
  cases h : c.peek with
  | some a => rw [atEndOfLine,atEndOfLine,embed_of_peek h,h]
  | none =>
    rcases embed_of_peek_none (n := n) hc h with ⟨_,hu⟩ | ⟨_,hu⟩ <;> simp [atEndOfLine,h,hu]

theorem advance_embed (he : c.atEndOfLine = false) : (c.embed n u).advance = c.advance.embed n u := by
  rcases c with ⟨_ | ⟨a,rest⟩,pos⟩
  · cases he
  · have ha : '\n' ∉ [a] := by
      intro h
      rw [← List.mem_singleton.1 h] at he
      cases he
    exact congrArg (Cursor.mk (rest ++ u)) (Position.past_onLine ha n pos)

section Classes
variable {p : Char → Bool}

/-- A run of a class without newlines ends with the line, whatever follows. -/
theorem takeWhile_embed (hp : p '\n' = false) (hc : c.EndsBefore u) :
    (c.rest ++ u).takeWhile p = c.rest.takeWhile p := by
  rcases hc with hu | hn
  · exact takeWhile_append_of_stops (hu.stops hp) c.rest
  · exact takeWhile_append_of_mem hn hp u

theorem dropWhile_embed (hp : p '\n' = false) (hc : c.EndsBefore u) :
    (c.embed n u).dropWhile p = (c.dropWhile p).embed n u := by
  have htake := takeWhile_embed hp hc
  have hline : '\n' ∉ c.rest.takeWhile p := by
    intro h
    rw [List.mem_takeWhile_imp h] at hp
    cases hp
  have hrest : (c.rest ++ u).dropWhile p = c.rest.dropWhile p ++ u := by
    have h : c.rest.takeWhile p ++ (c.rest ++ u).dropWhile p =
        c.rest.takeWhile p ++ (c.rest.dropWhile p ++ u) := by
      rw [← htake,List.takeWhile_append_dropWhile,htake,← List.append_assoc,
        List.takeWhile_append_dropWhile]
    exact List.append_cancel_left h
  simp only [embed,dropWhile,hrest,htake,Position.past_onLine hline]

end Classes
end Cursor

namespace Scan
open Text

variable {α β : Type} {n : Nat} {u : Text}

/-- What a scan gives, in the text and on the line that its cursor is embedded in. -/
def embedResult (n : Nat) (u : Text) :
    EStateM.Result Diagnostic Cursor α → EStateM.Result Diagnostic Cursor α
  | .ok a d => .ok a (d.embed n u)
  | .error e d => .error (e.embed n u) (d.embed n u)

/-- The second scan does in a text what the first one does on a single line of it. They differ in
the positions that they are given. -/
def Embeds (n : Nat) (u : Text) (x y : Scan α) : Prop :=
  ∀ c : Cursor, c.EndsBefore u → y.run (c.embed n u) = embedResult n u (x.run c)

theorem Embeds.bind {x y : Scan α} {f g : α → Scan β} (hx : Embeds n u x y) (hin : InLine x)
    (hf : ∀ a, Embeds n u (f a) (g a)) : Embeds n u (x >>= f) (y >>= g) := by
  intro c hc
  have hw := hin c
  unfold leaves at hw
  rw [EStateM.run_bind,EStateM.run_bind,hx c hc]
  cases hr : x.run c with
  | ok a d =>
    rw [hr] at hw
    exact hf a d (hc.within hw)
  | error e d => rfl

theorem Embeds.pure (a : α) : Embeds n u (pure a) (pure a) := fun _ _ => rfl

theorem Embeds.bind_pure {x y : Scan α} (hx : Embeds n u x y) (hin : InLine x) (f : α → β) :
    Embeds n u (x >>= fun a => Pure.pure (f a)) (y >>= fun a => Pure.pure (f a)) :=
  hx.bind hin fun a => .pure (f a)

theorem Embeds.ite {x x' y y' : Scan α} {p : Prop} [Decidable p] (hx : Embeds n u x x')
    (hy : Embeds n u y y') : Embeds n u (if p then x else y) (if p then x' else y') := by
  split
  · exact hx
  · exact hy

/-- A scan that looks at the cursor itself. -/
theorem Embeds.get {f g : Cursor → Scan α}
    (h : ∀ c, c.EndsBefore u → Embeds n u (f c) (g (c.embed n u))) :
    Embeds n u (get >>= f) (get >>= g) := fun c hc => h c hc c hc

/-- A scan that remembers where it started. -/
theorem Embeds.located {f g : Position → Scan α}
    (h : ∀ p, Embeds n u (f p) (g (p.onLine n))) : Embeds n u (here >>= f) (here >>= g) :=
  fun c hc => h c.pos c hc

theorem embeds_view {f : Cursor → α} (h : ∀ c, c.EndsBefore u → f (c.embed n u) = f c) :
    Embeds n u (do return f (← get) : Scan α) (do return f (← get)) := by
  refine Embeds.get fun c hc => ?_
  rw [h c hc]
  exact .pure _

/-- A scan that looks at the next character. Where there is none, there may be a newline in the
text. -/
theorem Embeds.peek {f g : Option Char → Scan α} (hsome : ∀ a, Embeds n u (f (some a)) (g (some a)))
    (hnone : u = [] → Embeds n u (f none) (g none))
    (hend : u ≠ [] → Embeds n u (f none) (g (some '\n'))) :
    Embeds n u (Scan.peek >>= f) (Scan.peek >>= g) := by
  intro c hc
  change (g (c.embed n u).peek).run (c.embed n u) = embedResult n u ((f c.peek).run c)
  cases h : c.peek with
  | some a =>
    rw [Cursor.embed_of_peek h]
    exact hsome a c hc
  | none =>
    rcases Cursor.embed_of_peek_none (n := n) hc h with ⟨hu,hpeek⟩ | ⟨hu,hpeek⟩
    · rw [hpeek]
      exact hnone hu c hc
    · rw [hpeek]
      exact hend hu c hc

theorem embeds_atEndOfLine : Embeds n u atEndOfLine atEndOfLine :=
  embeds_view fun _ => Cursor.atEndOfLine_embed

theorem embeds_atDigit : Embeds n u atDigit atDigit :=
  embeds_view fun _ => Cursor.any_peek_embed rfl

theorem embeds_atStartOfLine : Embeds n u atStartOfLine atStartOfLine :=
  embeds_view fun _ _ => rfl

theorem embeds_failAt (location : Position) (fault : Fault) :
    Embeds n u (failAt location fault : Scan α) (failAt (location.onLine n) (fault.before u)) :=
  fun _ _ => rfl

theorem embeds_fail (fault : Fault) :
    Embeds n u (fail fault : Scan α) (fail (fault.before u)) := fun _ _ => rfl

theorem embeds_orFailAt (location : Position) {r : Except Fault α}
    (h : ∀ fault, r = .error fault → fault.before u = fault) :
    Embeds n u (orFailAt location r) (orFailAt (location.onLine n) r) := by
  cases r with
  | ok a => exact .pure a
  | error fault =>
    have hfail := embeds_failAt (α := α) (n := n) (u := u) location fault
    rwa [h fault rfl] at hfail

theorem embeds_next : Embeds n u next next := by
  intro c hc
  rw [run_next,run_next,Cursor.atEndOfLine_embed hc]
  split
  · rfl
  case isFalse h =>
    have he := Bool.eq_false_iff.2 h
    obtain ⟨a,ha⟩ : ∃ a, c.peek = some a := by
      cases hp : c.peek with
      | some a => exact ⟨a,rfl⟩
      | none => simp [Cursor.atEndOfLine,hp] at he
    rw [Cursor.embed_of_peek ha,Cursor.advance_embed he,ha]
    rfl

theorem embeds_advanceIf {a : Char} (ha : a ≠ '\n') :
    Embeds n u (advanceIf a) (advanceIf a) := by
  intro c hc
  simp only [run_advanceIf,Cursor.peek_embed_eq_iff ha hc]
  split
  case isTrue h =>
    rw [Cursor.advance_embed (by simp [Cursor.atEndOfLine,h,ha])]
    rfl
  · rfl

theorem embeds_expect {a : Char} (ha : a ≠ '\n') : Embeds n u (expect a) (expect a) := by
  refine (embeds_advanceIf ha).bind (inLine_advanceIf ha) fun _ => Embeds.ite (.pure ()) ?_
  refine Embeds.peek (fun found => Embeds.ite (embeds_fail _) (embeds_fail _)) ?_ ?_
  · rintro rfl
    exact embeds_fail (.expectedAtInputEnd a)
  · intro hu
    have h := embeds_fail (α := Unit) (n := n) (u := u) (.expectedAtInputEnd a)
    rwa [Fault.before,if_neg hu] at h

theorem embeds_readWhile {p : Char → Bool} (hp : p '\n' = false) :
    Embeds n u (readWhile p) (readWhile p) := by
  intro c hc
  rw [run_readWhile,run_readWhile,Cursor.dropWhile_embed hp hc]
  exact congrArg (EStateM.Result.ok · _) (Cursor.takeWhile_embed hp hc)

theorem embeds_skipBlanks : Embeds n u skipBlanks skipBlanks :=
  (embeds_readWhile isBlank_newline).bind (inLine_readWhile isBlank_newline) fun _ =>
    embeds_atEndOfLine

theorem embeds_readSymbol : Embeds n u readSymbol readSymbol := embeds_readWhile (by decide)

theorem embeds_readDigits (radix : Nat) : Embeds n u (readDigits radix) (readDigits radix) :=
  embeds_readWhile rfl

end Scan
end SicXE
