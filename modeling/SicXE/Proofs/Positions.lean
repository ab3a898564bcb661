import SicXE.Source.Position

/-! # Positions of texts

The position behind a text tells how many newlines the text has and how many characters follow
the last one. A longer part of a source leads to a later position, so the places of a source and
their positions are in the same order.
-/
namespace SicXE.Position

theorem past_concat (p : Position) (t : Text) (a : Char) :
    p.past (t ++ [a]) = (p.past t).after a := past_append p t [a]

theorem past_eq_along {t : Text} (ht : ∀ a ∈ t, a ≠ '\n') (p : Position) :
    p.past t = p.along t.length := by
  induction t generalizing p with
  | nil => rfl
  | cons a t ih =>
    rw [past_cons,ih fun b hb => ht b (List.mem_cons_of_mem _ hb)]
    simp [after,ht a List.mem_cons_self,along,Nat.add_assoc,Nat.add_comm 1]

/-- Moving over the end of a line leads to the first column of the next line. -/
theorem past_line {t : Text} (h : '\n' ∉ t) (p : Position) :
    p.past (t ++ ['\n']) = ⟨p.line + 1,1⟩ := by
  rw [past_concat,past_eq_along fun a ha hn => h (hn ▸ ha)]
  rfl

theorem line_past (p : Position) (t : Text) :
    (p.past t).line = p.line + t.count '\n' := by
  induction t generalizing p with
  | nil => rfl
  | cons a t ih =>
    rw [past_cons,ih,List.count_cons,after]
    by_cases ha : a = '\n'
    · simp only [ha,beq_self_eq_true,if_true]
      omega
    · simp [ha]

/-- The column counts what follows the last newline. The induction takes characters off the end. -/
theorem column_past_start (t : Text) :
    (start.past t).column = 1 + (t.reverse.takeWhile (· != '\n')).length := by
  induction h : t.length generalizing t with
  | zero =>
    obtain rfl := List.length_eq_zero_iff.1 h
    rfl
  | succ n ih =>
    rcases t.eq_nil_or_concat with rfl | ⟨t,a,rfl⟩
    · cases h
    · rw [List.concat_eq_append,List.length_append] at h
      rw [List.concat_eq_append,past_concat,List.reverse_append,List.reverse_singleton,
        List.singleton_append,List.takeWhile_cons,after]
      by_cases ha : a = '\n'
      · simp [ha]
      · have hcol := ih t (Nat.succ.inj h)
        simp [ha,hcol,Nat.add_assoc]

theorem one_le_column_past_start (t : Text) : 1 ≤ (start.past t).column := by
  rw [column_past_start]
  exact Nat.le_add_right 1 _

/-- A newline costs at least one character and starts the columns anew. -/
theorem line_add_column_past_le {p : Position} (hp : 1 ≤ p.column) (t : Text) :
    (p.past t).line + (p.past t).column ≤ p.line + p.column + t.length := by
  induction t generalizing p with
  | nil => exact Nat.le_refl _
  | cons a t ih =>
    have hafter : 1 ≤ (p.after a).column ∧
        (p.after a).line + (p.after a).column ≤ p.line + p.column + 1 := by
      unfold after
      split
      · dsimp only
        omega
      · dsimp only
        omega
    have h := ih hafter.1
    rw [past_cons,List.length_cons]
    omega

section Order
variable {p q : Position} {t u : Text}

theorem compare_eq_lt_iff :
    compare p q = .lt ↔ p.line < q.line ∨ p.line = q.line ∧ p.column < q.column := by
  change (compare p.line q.line).then (compare p.column q.column) = .lt ↔ _
  rw [Ordering.then_eq_lt,Nat.compare_eq_lt,Nat.compare_eq_eq,Nat.compare_eq_lt]

theorem not_compare_lt_self (p : Position) : compare p p ≠ .lt := by
  intro h
  rcases compare_eq_lt_iff.1 h with h | h
  · exact Nat.lt_irrefl _ h
  · exact Nat.lt_irrefl _ h.2

theorem ne_of_compare_lt (h : compare p q = .lt) : p ≠ q := by
  rintro rfl
  exact not_compare_lt_self p h

theorem not_compare_lt_of_lt (h : compare p q = .lt) : compare q p ≠ .lt := by
  intro h'
  have hpq := compare_eq_lt_iff.1 h
  have hqp := compare_eq_lt_iff.1 h'
  omega

/-- Every text leads to a later position. -/
theorem compare_past (ht : t ≠ []) (p : Position) : compare p (p.past t) = .lt := by
  rw [compare_eq_lt_iff,line_past]
  by_cases hn : '\n' ∈ t
  · have hpos : 0 < t.count '\n' := List.count_pos_iff.2 hn
    omega
  · have halong : p.past t = p.along t.length := past_eq_along (fun a ha h => hn (h ▸ ha)) p
    have hlen : 0 < t.length := List.length_pos_iff.2 ht
    rw [List.count_eq_zero.2 hn,halong,along]
    exact .inr ⟨rfl,Nat.lt_add_of_pos_right hlen⟩

end Order

end SicXE.Position
