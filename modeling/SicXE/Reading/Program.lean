import SicXE.Reading.Line

/-! # Reading a program

A program is read line by line, from the first line that starts at the cursor or after it, and
the first fault ends the reading. Every line consumes something, so the reading ends.
-/
namespace SicXE.Reading
open Scan

theorem shorter_of_line {c d : Cursor} {r : Option Record} (hc : c.rest ≠ [])
    (h : line.run c.resync = .ok r d) : d.rest.length < c.rest.length := by
  have hs : c.resync.rest.length ≤ c.rest.length := Cursor.resync_length_le
  by_cases hr : c.resync.rest = []
  · have hd := endsLine_line.length_le h
    have hpos := List.length_pos_iff.2 hc
    simp only [hr,List.length_nil] at hd
    omega
  · exact Nat.lt_of_lt_of_le (endsLine_line.length_lt h hr) hs

/-- The records from a cursor on. -/
def records (c : Cursor) : Except Diagnostic Program :=
  if c.rest = [] then .ok []
  else
    match _ : line.run c.resync with
    | .ok none d => records d
    | .ok (some r) d => (records d).map (r :: ·)
    | .error e _ => .error e
termination_by c.rest.length
decreasing_by all_goals exact shorter_of_line ‹_› ‹_›

theorem records_ended {c : Cursor} (h : c.rest = []) : records c = .ok [] := by
  rw [records,if_pos h]

theorem records_step {c : Cursor} (h : c.rest ≠ []) :
    records c =
      match line.run c.resync with
      | .ok none d => records d
      | .ok (some r) d => (records d).map (r :: ·)
      | .error e _ => .error e := by
  rw [records,if_neg h]
  split <;> simp only [*]

end SicXE.Reading

namespace SicXE

/-- The program that a source text holds, or the first fault in it. -/
def Program.parse (source : Text) : Except Diagnostic Program :=
  Reading.records (.start source)

end SicXE
