import SicXE.Proofs.BlankLines
import SicXE.Proofs.EmbeddedLines
import SicXE.Proofs.EmittedRecords
import SicXE.Proofs.Lines
import SicXE.Proofs.TruthfulScans

/-! # Reading line by line

A text is read as its lines are read alone. Each line gives the records that it gives on its own,
moved to its place, and the first line with a fault ends the reading with that fault, whatever
follows. The proofs go by induction on the lines; the step is that of one line before a text.
-/
namespace SicXE
open Text

namespace Cursor

/-- Moving on within the line does not change where it ends. -/
theorem dropTo_of_within {c d : Cursor} (h : c.Within d) : d.dropTo '\n' = c.dropTo '\n' := by
  obtain ⟨t,hrest,hpos,ht⟩ := h
  have hp : ∀ a ∈ t, (a != '\n') = true := by
    intro a ha
    simpa using ht a ha
  rw [dropTo,dropTo,dropWhile,dropWhile,hrest,List.takeWhile_append_of_pos hp,
    List.dropWhile_append_of_pos hp,hpos,Position.past_append]

theorem dropTo_line {l u : Text} (hl : '\n' ∉ l) (p : Position) :
    dropTo ⟨l ++ '\n' :: u,p⟩ '\n' = ⟨u,⟨p.line + 1,1⟩⟩ := by
  have h := Scan.Reads.run (Scan.reads_readTo (u := u) hl) p
  rw [Scan.run_readTo,Position.past_line hl,List.append_assoc] at h
  exact (EStateM.Result.ok.inj h).2

/-- A text without a newline is left at its end. -/
theorem rest_dropTo_last {l : Text} (hl : '\n' ∉ l) (p : Position) :
    (dropTo ⟨l,p⟩ '\n').rest = [] := by
  have hd : l.dropWhile (· != '\n') = [] := by
    have h := dropWhile_run (u := []) (bne_of_not_mem hl) stops_nil
    rwa [List.append_nil] at h
  simp [dropTo,dropWhile,advance,hd]

end Cursor

namespace Reading
open Scan

variable {c d : Cursor}

/-- A line ends just beyond the next newline, or with the text. -/
theorem eq_dropTo_of_line {r : Option Record} (h : line.run c = .ok r d) : d = c.dropTo '\n' := by
  obtain ⟨e,he,rfl⟩ := endsLine_line c r d h
  exact Cursor.dropTo_of_within he

theorem records_eq (hne : c.rest ≠ []) (hs : c.atStartOfLine = true) :
    records c = (outcome (line.run c)).bind fun r =>
      (records (c.dropTo '\n')).map (r.toList ++ ·) := by
  have hsync : c.resync = c := if_pos hs
  rw [records_step hne,hsync]
  cases hrun : line.run c with
  | error e d => rfl
  | ok r d =>
    rw [← eq_dropTo_of_line hrun]
    cases r with
    | none => cases hd : records d <;> simp [outcome,hd,Except.bind,Except.map]
    | some r => rfl

/-- A text of one line gives what its line gives. -/
theorem parse_alone {t : Text} (hne : t ≠ []) (hend : ((Cursor.start t).dropTo '\n').rest = []) :
    Program.parse t = (outcome (line.run (.start t))).map Option.toList := by
  rw [Program.parse,records_eq hne rfl]
  simp only [records_ended hend]
  cases outcome (line.run (.start t)) with
  | error e => rfl
  | ok r => simp [Except.bind,Except.map]

/-- A fault on a line that has a newline does not speak of the end of the input. -/
theorem ne_expectedAtInputEnd (hn : '\n' ∈ c.rest) {e : Diagnostic} (h : line.run c = .error e d)
    (wanted : Char) : e.fault ≠ .expectedAtInputEnd wanted := by
  obtain ⟨b,⟨t,hrest,_,ht⟩,_,hholds⟩ := truthful_line c e d h
  intro hfault
  rw [hfault] at hholds
  rw [hrest,hholds.of_expectedAtInputEnd,List.append_nil] at hn
  exact ht '\n' hn rfl

/-- A line gives in a text what it gives alone, but for its number. -/
theorem outcome_line_embed {t u : Text} (hu : u = [] ∨ '\n' ∈ t) (n : Nat) :
    outcome (line.run ⟨t ++ u,⟨n,1⟩⟩) =
      relocate n (Option.map (Record.onLine n)) (outcome (line.run (.start t))) := by
  have hends : (Cursor.start t).EndsBefore u := hu.imp (fun h => .inl (by rw [h]; rfl)) id
  have h := embedsOutcome_line (n := n) (.start t) hends
  refine h.trans ?_
  cases hrun : line.run (.start t) with
  | ok r d => rfl
  | error e d =>
    have hbefore : e.fault.before u = e.fault := by
      rcases hu with rfl | hn
      · exact Fault.before_nil _
      · exact Fault.before_of_ne (ne_expectedAtInputEnd hn hrun) u
    simp only [outcome,embedOutcome,relocate,Diagnostic.embed,hbefore]
    rfl

/-- The step of the induction on the lines: one line before a text. -/
theorem records_place {t u : Text} (hne : t ≠ []) (hend : ((Cursor.start t).dropTo '\n').rest = [])
    (hu : u = [] ∨ '\n' ∈ t) (n : Nat) :
    records ⟨t ++ u,⟨n,1⟩⟩ = (relocate n (List.map (Record.onLine n)) (Program.parse t)).bind
      fun p => (records (Cursor.dropTo ⟨t ++ u,⟨n,1⟩⟩ '\n')).map (p ++ ·) := by
  have hne' : t ++ u ≠ [] := by simp [hne]
  have h : outcome (line.run ⟨t ++ u,⟨n,1⟩⟩) =
      relocate n (Option.map (Record.onLine n)) (outcome (line.run (.start t))) :=
    outcome_line_embed hu n
  rw [records_eq hne' rfl,h,parse_alone hne hend]
  cases outcome (line.run (.start t)) with
  | error e => rfl
  | ok r => cases r <;> rfl

theorem records_line {l : Text} (hl : '\n' ∉ l) (n : Nat) (u : Text) :
    records ⟨l ++ '\n' :: u,⟨n,1⟩⟩ =
      (relocate n (List.map (Record.onLine n)) (Program.parse (l ++ ['\n']))).bind
        fun p => (records ⟨u,⟨n + 1,1⟩⟩).map (p ++ ·) := by
  have hend : ((Cursor.start (l ++ ['\n'])).dropTo '\n').rest = [] :=
    congrArg Cursor.rest (Cursor.dropTo_line hl .start)
  have h := records_place (u := u) (by simp) hend (.inr (by simp)) n
  rwa [List.append_assoc,List.singleton_append,Cursor.dropTo_line hl] at h

theorem records_line_error {l : Text} {e : Diagnostic} (hl : '\n' ∉ l)
    (he : Program.parse (l ++ ['\n']) = .error e) (n : Nat) (u : Text) :
    records ⟨l ++ '\n' :: u,⟨n,1⟩⟩ = .error (e.onLine n) := by
  rw [records_line hl,he]
  rfl

/-- A fault behind an accepted line is the fault of both together. -/
theorem records_line_skip {l u : Text} {n : Nat} {p : Program} {e : Diagnostic} (hl : '\n' ∉ l)
    (hp : Program.parse (l ++ ['\n']) = .ok p) (he : records ⟨u,⟨n + 1,1⟩⟩ = .error e) :
    records ⟨l ++ '\n' :: u,⟨n,1⟩⟩ = .error e := by
  rw [records_line hl,hp]
  simp only [relocate,Except.bind,he,Except.map]

theorem records_line_eq_ok {l u : Text} {n : Nat} {p : Program} (hl : '\n' ∉ l) :
    records ⟨l ++ '\n' :: u,⟨n,1⟩⟩ = .ok p ↔ ∃ q rest, Program.parse (l ++ ['\n']) = .ok q ∧
      records ⟨u,⟨n + 1,1⟩⟩ = .ok rest ∧ p = q.map (Record.onLine n) ++ rest := by
  rw [records_line hl]
  constructor
  · intro h
    cases hq : Program.parse (l ++ ['\n']) with
    | error e =>
      rw [hq] at h
      cases h
    | ok q =>
      cases hrest : records ⟨u,⟨n + 1,1⟩⟩ with
      | error e =>
        rw [hq,hrest] at h
        cases h
      | ok rest =>
        rw [hq,hrest] at h
        cases h
        exact ⟨q,rest,rfl,rfl,rfl⟩
  · rintro ⟨q,rest,hq,hrest,rfl⟩
    simp only [hq,relocate,Except.bind,hrest,Except.map]

theorem records_last {l : Text} (hl : '\n' ∉ l) (n : Nat) :
    records ⟨l,⟨n,1⟩⟩ = relocate n (List.map (Record.onLine n)) (Program.parse l) := by
  by_cases hne : l = []
  · subst hne
    rw [Program.parse,records_ended rfl,records_ended rfl]
    rfl
  · have h := records_place (u := []) hne (Cursor.rest_dropTo_last hl _) (.inl rfl) n
    rw [List.append_nil,records_ended (Cursor.rest_dropTo_last hl _)] at h
    rw [h]
    cases relocate n (List.map (Record.onLine n)) (Program.parse l) with
    | error e => rfl
    | ok p => simp [Except.bind,Except.map]

section Runs
variable {t : Text} {ls : List Text} {ps : List Program}

/-- Lines that are all accepted give their records in order. -/
theorem records_of_lines_ok (h : Splits t ls) (hps : ls.map Program.parse = ps.map .ok) (n : Nat) :
    records ⟨t,⟨n,1⟩⟩ = .ok (ps.mapIdx fun i p => p.map (Record.onLine (n + i))).flatten := by
  induction h generalizing ps n with
  | last hl =>
    cases ps with
    | nil => cases hps
    | cons p ps =>
      obtain ⟨hp,hnil⟩ := List.cons.inj hps
      obtain rfl := List.map_eq_nil_iff.1 hnil.symm
      rw [records_last hl,hp]
      simp [relocate]
  | line hl _ ih =>
    cases ps with
    | nil => cases hps
    | cons p ps =>
      obtain ⟨hp,hps⟩ := List.cons.inj hps
      refine (records_line_eq_ok hl).2 ⟨p,_,hp,ih hps (n + 1),?_⟩
      simp only [List.mapIdx_cons,List.flatten_cons,Nat.add_zero,Nat.add_assoc,Nat.add_comm 1]

/-- The first line with a fault ends the reading, whatever follows that line. -/
theorem records_of_line_error {i : Nat} {l : Text} {e : Diagnostic} (h : Splits t ls)
    (hi : ls[i]? = some l) (he : Program.parse l = .error e)
    (hok : ∀ j < i, ∀ m, ls[j]? = some m → ∃ p, Program.parse m = .ok p) (n : Nat) :
    records ⟨t,⟨n,1⟩⟩ = .error (e.onLine (n + i)) ∧
      (i + 1 < ls.length → ∀ v,
        records ⟨(ls.take (i + 1)).flatten ++ v,⟨n,1⟩⟩ = .error (e.onLine (n + i))) := by
  induction h generalizing i n with
  | last hl =>
    cases i with
    | zero =>
      cases hi
      refine ⟨?_,fun hlt => absurd hlt (Nat.lt_irrefl 1)⟩
      rw [records_last hl,he]
      rfl
    | succ i => cases hi
  | @line l' t ls hl _ ih =>
    cases i with
    | zero =>
      cases hi
      refine ⟨records_line_error hl he n t,fun _ v => ?_⟩
      have hv := records_line_error hl he n v
      simpa using hv
    | succ i =>
      obtain ⟨p,hp⟩ := hok 0 (Nat.succ_pos i) _ rfl
      have hrest : ∀ j < i, ∀ m, ls[j]? = some m → ∃ p, Program.parse m = .ok p := by
        intro j hj m hm
        exact hok (j + 1) (Nat.succ_lt_succ hj) m hm
      obtain ⟨herr,hany⟩ := ih hi hrest (n + 1)
      rw [Nat.add_assoc,Nat.add_comm 1] at herr hany
      refine ⟨records_line_skip hl hp herr,fun hlt v => ?_⟩
      have hv := records_line_skip hl hp (hany (Nat.lt_of_succ_lt_succ hlt) v)
      simpa using hv

/-- A text of at most one line gives one record at its start, unless it is blank. -/
theorem locations_alone {p : Program} (hend : ((Cursor.start t).dropTo '\n').rest = [])
    (h : Program.parse t = .ok p) :
    p.map Record.location =
      if (lineText (.start t)).all isWhitespace then [] else [⟨1,1⟩] := by
  by_cases hne : t = []
  · subst hne
    rw [Program.parse,records_ended rfl] at h
    cases h
    rfl
  · rw [parse_alone hne hend] at h
    cases hrun : line.run (.start t) with
    | error e d =>
      rw [hrun] at h
      cases h
    | ok r d =>
      rw [hrun] at h
      cases h
      have hblank := isNone_of_lineStep (lineStep_of_run hrun)
      rw [← hblank]
      cases r with
      | none => rfl
      | some r =>
        obtain ⟨_,hloc⟩ := wellFormed_line hrun
        simp [hloc,Cursor.start,Position.start]

theorem all_lineText_line {l : Text} (hl : '\n' ∉ l) :
    (lineText (.start (l ++ ['\n']))).all isWhitespace = (l ++ ['\n']).all isWhitespace := by
  have htake : lineText (.start (l ++ ['\n'])) = l :=
    takeWhile_run (bne_of_not_mem hl) (by simp)
  have hn : isWhitespace '\n' = true := by decide
  simp [htake,hn]

theorem all_lineText_last {l : Text} (hl : '\n' ∉ l) :
    (lineText (.start l)).all isWhitespace = l.all isWhitespace := by
  have htake := takeWhile_run (bne_of_not_mem hl) (stops_nil (p := (· != '\n')))
  rw [List.append_nil] at htake
  exact congrArg (List.all · isWhitespace) htake

theorem locations_of_mem_lines (h : Splits t ls) : ∀ m ∈ ls, ∀ p, Program.parse m = .ok p →
    p.map Record.location = if m.all isWhitespace then [] else [⟨1,1⟩] := by
  induction h with
  | last hl =>
    intro m hm p hp
    obtain rfl := List.mem_singleton.1 hm
    rw [locations_alone (Cursor.rest_dropTo_last hl _) hp,all_lineText_last hl]
  | line hl _ ih =>
    intro m hm p hp
    rcases List.mem_cons.1 hm with rfl | hm
    · have hend := congrArg Cursor.rest (Cursor.dropTo_line (u := []) hl .start)
      rw [locations_alone hend hp,all_lineText_line hl]
    · exact ih m hm p hp

theorem locations_onLine (n : Nat) (p : Program) :
    (p.map (Record.onLine n)).map Record.location =
      (p.map Record.location).map (Position.onLine n) := by
  simp only [List.map_map]
  rfl

/-- The records of a text stand at the starts of its lines that are not blank. -/
theorem locations_of_records (h : Splits t ls) (n : Nat) {p : Program}
    (hp : records ⟨t,⟨n,1⟩⟩ = .ok p) :
    p.map Record.location = (filledFrom n ls).map (⟨·,1⟩) := by
  induction h generalizing n p with
  | @last l hl =>
    rw [records_last hl] at hp
    cases hq : Program.parse l with
    | error e =>
      rw [hq] at hp
      cases hp
    | ok q =>
      rw [hq] at hp
      cases hp
      rw [locations_onLine,locations_of_mem_lines (.last hl) l List.mem_cons_self q hq,filledFrom]
      split <;> rfl
  | line hl ht ih =>
    obtain ⟨q,rest,hq,hrest,rfl⟩ := (records_line_eq_ok hl).1 hp
    have hfirst := locations_of_mem_lines (.line hl ht) _ List.mem_cons_self q hq
    rw [List.map_append,locations_onLine,hfirst,ih (n + 1) hrest,filledFrom]
    split <;> rfl

end Runs

end Reading

open Reading

/-- A source text is read as its lines are read alone. Where all of them are accepted, their
records follow one another, each moved to its line. Otherwise the first line with a fault ends the
reading, whatever follows it. A line gives one record unless it is blank. -/
theorem parse_line_by_line (source : Text) :
    (∀ ps : List Program, source.lines.map Program.parse = ps.map .ok →
      Program.parse source = .ok (ps.mapIdx fun i p => p.map (Record.onLine (i + 1))).flatten) ∧
    (∀ (i : Nat) (l : Text) (e : Diagnostic), source.lines[i]? = some l →
      Program.parse l = .error e →
      (∀ j < i, ∀ m, source.lines[j]? = some m → ∃ p, Program.parse m = .ok p) →
      Program.parse source = .error (e.onLine (i + 1)) ∧
      (i + 1 < source.lines.length → ∀ v,
        Program.parse ((source.lines.take (i + 1)).flatten ++ v) = .error (e.onLine (i + 1)))) ∧
    (∀ l ∈ source.lines, ∀ p, Program.parse l = .ok p →
      p.map Record.location = if l.all isWhitespace then [] else [⟨1,1⟩]) ∧
    ∀ p, Program.parse source = .ok p →
      p.map Record.location = (filledFrom 1 source.lines).map (⟨·,1⟩) ∧
      p.length = source.lines.countP (fun l => !l.all isWhitespace) ∧
      (p.map fun r => r.location.line).Pairwise (· < ·) := by
  have hsplit := splits_lines source
  refine ⟨fun ps hps => ?_,fun i l e hi he hok => ?_,locations_of_mem_lines hsplit,fun p hp => ?_⟩
  · have h := records_of_lines_ok hsplit hps 1
    simp only [Nat.add_comm 1] at h
    exact h
  · have h := records_of_line_error hsplit hi he hok 1
    rw [Nat.add_comm 1] at h
    exact h
  · have hloc := locations_of_records hsplit 1 hp
    refine ⟨hloc,?_,?_⟩
    · have hlength := congrArg List.length hloc
      rwa [List.length_map,List.length_map,length_filledFrom] at hlength
    · have hlines : (p.map fun r => r.location.line) = filledFrom 1 source.lines := by
        have h := congrArg (List.map Position.line) hloc
        simpa [Function.comp_def] using h
      rw [hlines]
      exact pairwise_filledFrom 1 source.lines

end SicXE
