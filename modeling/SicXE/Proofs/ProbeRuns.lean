import SicXE.Proofs.ByteCursors
import SicXE.Proofs.Reads

/-! # Runs of probes

A probe takes some text off what is unread, and its reply shows that text, but for blanks that are
only skipped. What it does is the same whether the cursor holds the unread text or reads in place.
A sequence of probes takes what its probes take, one after another, so nothing of a source is lost
and nothing is read twice.
-/
namespace SicXE
open Text

/-- The text is the longest part at the start of another one in which a predicate holds. -/
structure Text.LongestRun (p : Char → Bool) (w t : Text) : Prop where
  starts : w <+: t
  holds : ∀ a ∈ w, p a
  longest : ∀ v, v <+: t → (∀ a ∈ v, p a) → v.length ≤ w.length

theorem Text.longestRun_takeWhile (p : Char → Bool) (t : Text) :
    LongestRun p (t.takeWhile p) t := by
  refine ⟨List.takeWhile_prefix p,fun a => List.mem_takeWhile_imp,?_⟩
  rintro v ⟨u,rfl⟩ hv
  rw [List.takeWhile_append_of_pos hv,List.length_append]
  exact Nat.le_add_right _ _

/-- Why a character is not the one that is wanted. -/
def Fault.ofMismatch (wanted : Char) : Option Char → Fault
  | none => expectedAtInputEnd wanted
  | some found => if found = '\n' then expectedAtLineEnd wanted else expectedFound wanted found

theorem Scan.run_expect_ne {c : Cursor} {a : Char} (h : c.peek ≠ some a) :
    (expect a).run c = .error ⟨.ofMismatch a c.peek,c.pos⟩ c := by
  have hrun : (advanceIf a).run c = .ok false c := by rw [run_advanceIf,if_neg h]
  refine (run_bind_of_ok hrun).trans ?_
  change EStateM.run (match c.peek with | none => _ | some found => _ : Scan Unit) c = _
  cases c.peek with
  | none => rfl
  | some found =>
    dsimp only [Fault.ofMismatch]
    split <;> rfl

namespace Cursor
variable {c : Cursor} {a : Char} {t u w : Text} {p : Char → Bool}

theorem expect_behind (h : c.peek ≠ some a) (t : Text) :
    (c.behind t).expect a = (.failed ⟨.ofMismatch a c.peek,c.pos⟩,c.behind t) := by
  rw [ByteCursor.expect,peek_behind]
  cases hpeek : c.peek with
  | none => rfl
  | some found =>
    have hne : found ≠ a := fun ha => h (ha ▸ hpeek)
    dsimp only [Fault.ofMismatch]
    rw [if_neg hne]
    split <;> rfl

theorem skipWhile_behind_of_stops (hc : c.rest = w ++ u) (hw : ∀ a ∈ w, p a) (hu : Stops p u)
    (t : Text) : (c.behind t).skipWhile p = behind (t ++ w) ⟨u,c.pos.past w⟩ := by
  rw [skipWhile_behind,dropWhile,hc,takeWhile_run hw hu,dropWhile_run hw hu]

theorem readWhile_behind (hc : c.rest = w ++ u) (hw : ∀ a ∈ w, p a) (hu : Stops p u) (t : Text) :
    (c.behind t).readWhile p = (.text w,behind (t ++ w) ⟨u,c.pos.past w⟩) := by
  rw [ByteCursor.readWhile,skipWhile_behind_of_stops hc hw hu]
  exact congrArg (fun v => (Probe.Reply.text v,_)) (slice_behind hc)

end Cursor

namespace Probe
open Scan

variable {α : Type} {c : Cursor} {a : Char} {t u w : Text} {p : Char → Bool} {probe : Probe}
  {reply : Reply}

/-- The probe gives a reply and moves over a text that is unread. It does the same by byte offset,
whatever text the offset counts. -/
structure Takes (probe : Probe) (c : Cursor) (reply : Reply) (w u : Text) : Prop where
  unread : c.rest = w ++ u
  run : probe.run c = (reply,⟨u,c.pos.past w⟩)
  in_place : ∀ t, (c.behind t).probe probe = (reply,Cursor.behind (t ++ w) ⟨u,c.pos.past w⟩)

theorem Takes.of_reads {x : Scan α} {b : α} {f : α → Reply}
    (hscan : probe.scan = x >>= fun b => pure (f b)) (hc : c.rest = w ++ u) (hx : Reads x w b u)
    (h : ∀ t, (c.behind t).probe probe = (f b,Cursor.behind (t ++ w) ⟨u,c.pos.past w⟩)) :
    probe.Takes c (f b) w u := by
  refine ⟨hc,?_,h⟩
  have hrun : x.run c = .ok b ⟨u,c.pos.past w⟩ := by
    have hx := hx.run c.pos
    rwa [← hc] at hx
  rw [Probe.run,hscan,run_bind_of_ok hrun]
  rfl

/-- A probe that only looks. -/
theorem Takes.of_looks {x : Scan α} {b : α} {f : α → Reply}
    (hscan : probe.scan = x >>= fun b => pure (f b)) (hx : Reads x [] b c.rest)
    (h : ∀ t, (c.behind t).probe probe = (f b,c.behind t)) :
    probe.Takes c (f b) [] c.rest :=
  .of_reads hscan rfl hx fun t => by rw [h,List.append_nil]; rfl

theorem takes_peek (c : Cursor) : peek.Takes c (.char c.peek) [] c.rest :=
  .of_looks rfl (reads_peek c.rest) fun t => by
    rw [ByteCursor.probe,Cursor.peek_behind]

theorem takes_peekAt (c : Cursor) (offset : Nat) :
    (peekAt offset).Takes c (.char c.rest[offset]?) [] c.rest :=
  .of_looks (x := do return (← get).peekAt offset) rfl (fun _ => rfl) fun t => by
    rw [ByteCursor.probe,ByteCursor.peekAt,Cursor.rest_behind]

theorem takes_symbolNext (c : Cursor) :
    symbolNext.Takes c (.symbolNext (c.peek.map isSymbolChar)) [] c.rest :=
  .of_looks (f := fun a => .symbolNext (a.map isSymbolChar)) rfl (reads_peek c.rest) fun t => by
    rw [ByteCursor.probe,Cursor.peek_behind]
    rfl

section Characters

theorem peek_eq_some (h : c.rest = a :: u) : c.peek = some a := by
  rw [Cursor.peek,h,List.head?_cons]

theorem takes_advance (h : c.rest = a :: u) : advance.Takes c (.char (some a)) [a] u :=
  .of_reads rfl h (reads_advance a u) fun t => by
    rw [ByteCursor.probe,Cursor.peek_behind,peek_eq_some h,Cursor.advance_behind h]; rfl

theorem takes_advance_end (h : c.rest = []) : advance.Takes c (.char none) [] c.rest := by
  have hpeek : c.peek = none := by rw [Cursor.peek,h,List.head?_nil]
  have hreads : Reads Scan.advance [] none c.rest := by
    rw [h]
    exact reads_advance_end
  refine .of_looks rfl hreads fun t => ?_
  rw [ByteCursor.probe,ByteCursor.advance,Cursor.peek_behind,hpeek]

theorem takes_advanceIf (h : c.rest = a :: u) : (advanceIf a).Takes c (.flag true) [a] u :=
  .of_reads rfl h (reads_advanceIf a u) fun t => by
    rw [ByteCursor.probe,ByteCursor.advanceIf,Cursor.peek_behind,if_pos (peek_eq_some h),
      Cursor.advance_behind h]; rfl

theorem takes_advanceIf_ne (h : c.peek ≠ some a) :
    (advanceIf a).Takes c (.flag false) [] c.rest :=
  .of_looks rfl (reads_advanceIf_ne h) fun t => by
    rw [ByteCursor.probe,ByteCursor.advanceIf,Cursor.peek_behind,if_neg h]

theorem takes_expect (h : c.rest = a :: u) : (expect a).Takes c (.flag true) [a] u :=
  .of_reads (f := fun _ => .flag true) rfl h (reads_expect a u) fun t => by
    rw [ByteCursor.probe,ByteCursor.expect,Cursor.peek_behind,peek_eq_some h]
    dsimp only
    rw [if_pos rfl,Cursor.advance_behind h]; rfl

theorem takes_expect_ne (h : c.peek ≠ some a) :
    (expect a).Takes c (.failed ⟨.ofMismatch a c.peek,c.pos⟩) [] c.rest := by
  refine ⟨rfl,?_,fun t => ?_⟩
  · rw [run,scan,run_bind_of_error (run_expect_ne h)]
    rfl
  · rw [ByteCursor.probe,Cursor.expect_behind h,List.append_nil]
    rfl

end Characters

section Runs

theorem takes_readWhile (hc : c.rest = w ++ u) (hw : ∀ a ∈ w, p a) (hu : Stops p u) :
    (readWhile p).Takes c (.text w) w u :=
  .of_reads rfl hc (reads_readWhile hw hu) (Cursor.readWhile_behind hc hw hu)

theorem takes_skipBlanks (hc : c.rest = w ++ u) (hw : ∀ a ∈ w, isBlank a)
    (hu : Stops isBlank u) :
    skipBlanks.Takes c (.flag (u.head? == none || u.head? == some '\n')) w u :=
  .of_reads rfl hc (reads_skipBlanks hw hu) fun t => by
    rw [ByteCursor.probe,Cursor.skipWhile_behind_of_stops hc hw hu,ByteCursor.atEndOfLine,
      Cursor.peek_behind]; rfl

theorem takes_readTo (hc : c.rest = w ++ a :: u) (ha : a ∉ w) :
    (readTo a).Takes c (.text w) (w ++ [a]) u := by
  have hu : Stops (· != a) (a :: u) := by simp
  refine .of_reads rfl (by rw [hc,List.append_assoc]; rfl) (reads_readTo ha) fun t => ?_
  have hskip := Cursor.skipWhile_behind_of_stops hc (bne_of_not_mem ha) hu t
  have hslice := Cursor.slice_behind (t := t) (d := ⟨a :: u,c.pos.past w⟩) hc
  rw [ByteCursor.probe,ByteCursor.readTo,hskip,hslice,ByteCursor.advanceIf,Cursor.peek_behind,
    if_pos (peek_eq_some rfl),Cursor.advance_behind rfl,List.append_assoc,Position.past_append]
  rfl

theorem takes_readTo_end (ha : a ∉ c.rest) : (readTo a).Takes c (.text c.rest) c.rest [] := by
  have hc : c.rest = c.rest ++ [] := (List.append_nil _).symm
  refine .of_reads rfl hc (reads_readTo_end ha) fun t => ?_
  have hskip := Cursor.skipWhile_behind_of_stops hc (bne_of_not_mem ha) stops_nil t
  have hslice := Cursor.slice_behind (t := t) (d := ⟨[],c.pos.past c.rest⟩) hc
  rw [ByteCursor.probe,ByteCursor.readTo,hskip,hslice,ByteCursor.advanceIf,Cursor.peek_behind]
  rfl

end Runs

/-- The text that a probe has consumed when it gives a reply. The reply shows that text, unless it
is blanks that were skipped. -/
inductive Consumes : Probe → Reply → Text → Prop where
  | peek {found : Option Char} : Consumes peek (.char found) []
  | peekAt {offset : Nat} {found : Option Char} : Consumes (peekAt offset) (.char found) []
  | symbolNext {b : Option Bool} : Consumes symbolNext (.symbolNext b) []
  | advance {a : Char} : Consumes advance (.char (some a)) [a]
  | advance_end : Consumes advance (.char none) []
  | expect {a : Char} : Consumes (expect a) (.flag true) [a]
  | expect_ne {a : Char} {e : Diagnostic} : Consumes (expect a) (.failed e) []
  | advanceIf {a : Char} : Consumes (advanceIf a) (.flag true) [a]
  | advanceIf_ne {a : Char} : Consumes (advanceIf a) (.flag false) []
  | skipBlanks {b : Bool} {w : Text} : (∀ a ∈ w, isBlank a) → Consumes skipBlanks (.flag b) w
  | readWhile {p : Char → Bool} {w : Text} : Consumes (readWhile p) (.text w) w
  | readSymbol {w : Text} : Consumes readSymbol (.text w) w
  | readDigits {radix : Nat} {w : Text} : Consumes (readDigits radix) (.text w) w
  | readTo {a : Char} {w : Text} : Consumes (readTo a) (.text w) (w ++ [a])
  | readTo_end {a : Char} {w : Text} : Consumes (readTo a) (.text w) w

/-- Everything that a probe can do. -/
theorem exists_takes (probe : Probe) (c : Cursor) :
    ∃ reply w u, probe.Takes c reply w u ∧ probe.Consumes reply w := by
  have hread : ∀ p, (Probe.readWhile p).Takes c (.text (c.rest.takeWhile p)) (c.rest.takeWhile p)
      (c.rest.dropWhile p) := fun p =>
    takes_readWhile List.takeWhile_append_dropWhile.symm (fun a => List.mem_takeWhile_imp)
      stops_dropWhile
  cases probe with
  | peek => exact ⟨_,_,_,takes_peek c,.peek⟩
  | peekAt offset => exact ⟨_,_,_,takes_peekAt c offset,.peekAt⟩
  | symbolNext => exact ⟨_,_,_,takes_symbolNext c,.symbolNext⟩
  | advance =>
    cases h : c.rest with
    | nil => exact ⟨_,_,_,takes_advance_end h,.advance_end⟩
    | cons a u => exact ⟨_,_,_,takes_advance h,.advance⟩
  | expect a =>
    by_cases h : c.peek = some a
    · obtain ⟨u,hu⟩ := List.head?_eq_some_iff.1 h
      exact ⟨_,_,_,takes_expect hu,.expect⟩
    · exact ⟨_,_,_,takes_expect_ne h,.expect_ne⟩
  | advanceIf a =>
    by_cases h : c.peek = some a
    · obtain ⟨u,hu⟩ := List.head?_eq_some_iff.1 h
      exact ⟨_,_,_,takes_advanceIf hu,.advanceIf⟩
    · exact ⟨_,_,_,takes_advanceIf_ne h,.advanceIf_ne⟩
  | skipBlanks =>
    have hblanks : ∀ a ∈ c.rest.takeWhile isBlank, isBlank a := fun a => List.mem_takeWhile_imp
    exact ⟨_,_,_,takes_skipBlanks List.takeWhile_append_dropWhile.symm hblanks stops_dropWhile,
      .skipBlanks hblanks⟩
  | readWhile p => exact ⟨_,_,_,hread p,.readWhile⟩
  | readSymbol =>
    obtain ⟨hunread,hrun,hplace⟩ := hread isSymbolChar
    exact ⟨_,_,_,⟨hunread,hrun,hplace⟩,.readSymbol⟩
  | readDigits radix =>
    obtain ⟨hunread,hrun,hplace⟩ := hread (isDigitOf radix)
    exact ⟨_,_,_,⟨hunread,hrun,hplace⟩,.readDigits⟩
  | readTo a =>
    by_cases ha : a ∈ c.rest
    · obtain ⟨w,u,hc,hw⟩ := List.eq_append_cons_of_mem ha
      exact ⟨_,_,_,takes_readTo hc hw,.readTo⟩
    · exact ⟨_,_,_,takes_readTo_end ha,.readTo_end⟩

/-- The text that a sequence of probes has consumed when it gives a sequence of replies. -/
inductive ConsumesAll : List Probe → List Reply → Text → Prop where
  | nil : ConsumesAll [] [] []
  | cons {probe : Probe} {reply : Reply} {w t : Text} {probes : List Probe} {replies : List Reply} :
      probe.Consumes reply w → ConsumesAll probes replies t →
      ConsumesAll (probe :: probes) (reply :: replies) (w ++ t)

/-- A sequence of probes moves over a text that is unread, and it does the same by byte offset. -/
structure TakesAll (probes : List Probe) (c : Cursor) (w u : Text) : Prop where
  unread : c.rest = w ++ u
  consumes : ConsumesAll probes ((trace probes c).map Prod.fst) w
  after : after probes c = ⟨u,c.pos.past w⟩
  in_place : ∀ t, ByteCursor.after probes (c.behind t) = Cursor.behind (t ++ w) ⟨u,c.pos.past w⟩
  replies : ∀ t, (ByteCursor.trace probes (c.behind t)).map (fun r => (r.1,r.2.cursor)) =
    trace probes c

theorem exists_takesAll (probes : List Probe) (c : Cursor) : ∃ w u, TakesAll probes c w u := by
  induction probes generalizing c with
  | nil =>
    refine ⟨[],c.rest,rfl,.nil,rfl,fun t => ?_,fun t => rfl⟩
    rw [List.append_nil]
    rfl
  | cons probe probes ih =>
    obtain ⟨reply,w,u,htakes,hconsumes⟩ := exists_takes probe c
    obtain ⟨w',u',hrest⟩ := ih ⟨u,c.pos.past w⟩
    have hunread : u = w' ++ u' := hrest.unread
    refine ⟨w ++ w',u',?_,?_,?_,fun t => ?_,fun t => ?_⟩
    · rw [htakes.unread,hunread,List.append_assoc]
    · rw [trace,htakes.run]
      exact .cons hconsumes hrest.consumes
    · change after probes (probe.run c).2 = _
      rw [htakes.run,hrest.after,Position.past_append]
    · change ByteCursor.after probes ((c.behind t).probe probe).2 = _
      rw [htakes.in_place,hrest.in_place,List.append_assoc,Position.past_append]
    · rw [trace,htakes.run,ByteCursor.trace,htakes.in_place,List.map_cons,hrest.replies,
        Cursor.cursor_behind]

/-- The readers of runs are maximal, a probe that fails changes nothing, and over any sequence of
probes the consumed texts make up exactly the part of the source before the cursor. -/
theorem scans_maximal_lossless :
    (∀ (c : Cursor) (p : Char → Bool),
      ∃ w u, LongestRun p w c.rest ∧ (readWhile p).Takes c (.text w) w u) ∧
    (∀ (c : Cursor) (a : Char),
      (∀ w u, c.rest = w ++ a :: u → a ∉ w → (readTo a).Takes c (.text w) (w ++ [a]) u) ∧
      (a ∉ c.rest → (readTo a).Takes c (.text c.rest) c.rest [])) ∧
    (∀ c : Cursor, ∃ b w u, LongestRun isBlank w c.rest ∧ skipBlanks.Takes c (.flag b) w u ∧
      (b = true ↔ c.rest.find? (fun a => !isBlank a) = none ∨
        c.rest.find? (fun a => !isBlank a) = some '\n')) ∧
    (∀ (c : Cursor) (a : Char),
      (∀ u, c.rest = a :: u →
        (expect a).Takes c (.flag true) [a] u ∧ (advanceIf a).Takes c (.flag true) [a] u) ∧
      (c.rest.head? ≠ some a →
        (expect a).Takes c (.failed ⟨.ofMismatch a c.rest.head?,c.pos⟩) [] c.rest ∧
        (advanceIf a).Takes c (.flag false) [] c.rest)) ∧
    ∀ (source : Text) (probes : List Probe), ∃ t,
      ConsumesAll probes ((trace probes (.start source)).map Prod.fst) t ∧
      source = t ++ (after probes (.start source)).rest ∧
      (ByteCursor.after probes (.start source)).consumed = t := by
  have hsplit : ∀ (c : Cursor) (p : Char → Bool),
      c.rest = c.rest.takeWhile p ++ c.rest.dropWhile p :=
    fun c p => List.takeWhile_append_dropWhile.symm
  refine ⟨fun c p => ?_,fun c a => ⟨fun w u hc ha => takes_readTo hc ha,takes_readTo_end⟩,
    fun c => ?_,fun c a => ⟨fun u hc => ⟨takes_expect hc,takes_advanceIf hc⟩,fun ha => ?_⟩,
    fun source probes => ?_⟩
  · exact ⟨_,_,longestRun_takeWhile p c.rest,
      takes_readWhile (hsplit c p) (fun a => List.mem_takeWhile_imp) stops_dropWhile⟩
  · refine ⟨_,_,_,longestRun_takeWhile isBlank c.rest,
      takes_skipBlanks (hsplit c isBlank) (fun a => List.mem_takeWhile_imp) stops_dropWhile,?_⟩
    rw [List.find?_not_eq_head?_dropWhile]
    exact ended_iff
  · exact ⟨takes_expect_ne ha,takes_advanceIf_ne ha⟩
  · obtain ⟨t,u,h⟩ := exists_takesAll probes (.start source)
    have hplace := h.in_place []
    rw [Cursor.behind_nil,List.nil_append] at hplace
    refine ⟨t,h.consumes,?_,?_⟩
    · rw [h.after]
      exact h.unread
    · rw [hplace,Cursor.consumed_behind]

end Probe
end SicXE
