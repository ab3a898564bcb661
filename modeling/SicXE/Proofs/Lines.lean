import SicXE.Text.Basic

/-! # The lines of a text

A text is split at its newlines, and each line keeps the newline that ends it. Inductions on the
lines of a text go by its splitting: a last line without a newline, or a line before another text.
-/
namespace SicXE.Text

/-- Gives every line but the last its newline back. -/
def terminate : List Text → List Text
  | [] => []
  | [l] => [l]
  | l :: rest => (l ++ ['\n']) :: terminate rest

/-- The lines of a text, each with its newline, which the last one does not have. -/
def lines (source : Text) : List Text := terminate (source.splitOn '\n')

/-- The text consists of the given lines. -/
inductive Splits : Text → List Text → Prop where
  | last {l : Text} : '\n' ∉ l → Splits l [l]
  | line {l t : Text} {ls : List Text} : '\n' ∉ l → Splits t ls →
      Splits (l ++ '\n' :: t) ((l ++ ['\n']) :: ls)

theorem terminate_modifyHead (a : Char) (ls : List Text) :
    terminate (ls.modifyHead (a :: ·)) = (terminate ls).modifyHead (a :: ·) := by
  match ls with
  | [] | [_] | _ :: _ :: _ => rfl

theorem terminate_cons {l : Text} {ls : List Text} (h : ls ≠ []) :
    terminate (l :: ls) = (l ++ ['\n']) :: terminate ls := by
  cases ls with
  | nil => exact absurd rfl h
  | cons m ls => rfl

theorem splits_lines (source : Text) : Splits source source.lines := by
  induction source with
  | nil => exact .last List.not_mem_nil
  | cons a t ih =>
    rw [lines,List.splitOn_cons_eq_if_modifyHead]
    by_cases ha : a = '\n'
    · subst ha
      rw [if_pos (beq_self_eq_true _),terminate_cons (List.splitOn_ne_nil _ _)]
      exact .line List.not_mem_nil ih
    · have hn : ∀ {l : Text}, '\n' ∉ l → '\n' ∉ a :: l := by
        intro l hl h
        exact (List.mem_cons.1 h).elim (fun h => ha h.symm) hl
      rw [if_neg (by simpa using ha),terminate_modifyHead]
      -- Only the first line of the rest changes, so its splitting is taken apart once.
      change Splits t (terminate (t.splitOn '\n')) at ih
      generalize terminate (t.splitOn '\n') = ls at ih
      cases ih with
      | last hl => exact .last (hn hl)
      | line hl h => exact .line (l := a :: _) (hn hl) h

example : lines "END\n\n.".toList = ["END\n".toList,"\n".toList,".".toList] := by decide

/-- The numbers of the lines that are not blank, counted from a given number on. -/
def filledFrom (n : Nat) : List Text → List Nat
  | [] => []
  | l :: ls => if l.all isWhitespace then filledFrom (n + 1) ls else n :: filledFrom (n + 1) ls

theorem length_filledFrom (n : Nat) (ls : List Text) :
    (filledFrom n ls).length = ls.countP fun l => !l.all isWhitespace := by
  induction ls generalizing n with
  | nil => rfl
  | cons l ls ih =>
    rw [filledFrom,List.countP_cons]
    cases hl : l.all isWhitespace with
    | true => simpa using ih (n + 1)
    | false => simpa using ih (n + 1)

theorem le_of_mem_filledFrom {n : Nat} {ls : List Text} : ∀ i ∈ filledFrom n ls, n ≤ i := by
  induction ls generalizing n with
  | nil =>
    intro i hi
    cases hi
  | cons l ls ih =>
    intro i hi
    rw [filledFrom] at hi
    split at hi
    · have h := ih i hi
      omega
    · rcases List.mem_cons.1 hi with rfl | hi
      · exact Nat.le_refl i
      · have h := ih i hi
        omega

theorem pairwise_filledFrom (n : Nat) (ls : List Text) :
    (filledFrom n ls).Pairwise (· < ·) := by
  induction ls generalizing n with
  | nil => exact .nil
  | cons l ls ih =>
    rw [filledFrom]
    split
    · exact ih (n + 1)
    · exact .cons (fun i hi => le_of_mem_filledFrom i hi) (ih (n + 1))

end SicXE.Text
