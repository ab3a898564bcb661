import SicXE.Machine.Word
import SicXE.Proofs.Positions
import SicXE.Proofs.ProbeRuns

/-! # Positions of cursors

Whatever probes have led to a cursor, its offset is between two characters of the source, and its
position tells the lines and columns before that offset. Neither of the two counts is ever greater
than the source has characters, so both fit 32 bits. Cursors in one source are in the order of
their offsets as well as in the order of their positions.
-/
namespace SicXE
open Text

namespace ByteCursor

/-- Where a sequence of probes leads from the start of a source. -/
def reach (source : Text) (probes : List Probe) : ByteCursor := after probes (.start source)

/-- The offset is between two characters of the source, and the position is that of the text
before the offset. -/
structure Exact (source : Text) (c : ByteCursor) : Prop where
  body : c.body = .ofList source
  boundary : c.offset.IsValid c.body
  line : c.pos.line = 1 + c.consumed.count '\n'
  column : c.pos.column = 1 + (c.consumed.reverse.takeWhile (· != '\n')).length
  bound : c.pos.line + c.pos.column ≤ c.consumed.length + 2
  fits : source.length ≤ capacity 32 - 2 → c.pos.line < capacity 32 ∧ c.pos.column < capacity 32

variable {source t u v w : Text} {c d : ByteCursor} {probes others : List Probe}

/-- The cursor has moved over the first of two texts that make up the source. -/
structure Between (source t u : Text) (c : ByteCursor) : Prop where
  source : source = t ++ u
  eq : c = Cursor.behind t ⟨u,Position.start.past t⟩

theorem Between.offset (h : Between source t u c) : c.offset.byteIdx = String.utf8Len t := by
  rw [h.eq,Cursor.behind,String.rawEndPos_ofList]

theorem Between.consumed (h : Between source t u c) : c.consumed = t := by
  rw [h.eq,Cursor.consumed_behind]

theorem Between.exact (h : Between source t u c) : c.Exact source := by
  have hpos : c.pos = Position.start.past t := by rw [h.eq]; rfl
  have hbody : c.body = String.ofList t ++ String.ofList u := by
    rw [h.eq,← String.ofList_append]
    rfl
  have hbound : c.pos.line + c.pos.column ≤ t.length + 2 := by
    have hle := Position.line_add_column_past_le (p := .start) (Nat.le_refl 1) t
    rw [hpos]
    simp only [Position.start] at hle ⊢
    omega
  refine ⟨?_,?_,?_,?_,?_,fun hfits => ?_⟩
  · rw [h.source,hbody,String.ofList_append]
  · rw [String.Pos.Raw.isValid_iff_exists_append]
    exact ⟨_,_,hbody,by rw [h.eq]; rfl⟩
  · rw [hpos,h.consumed]
    exact Position.line_past .start t
  · rw [hpos,h.consumed,Position.column_past_start]
  · rw [h.consumed]
    exact hbound
  · have hlen : t.length ≤ source.length := by
      rw [h.source,List.length_append]
      exact Nat.le_add_right _ _
    have hcolumn : 1 ≤ c.pos.column := by
      rw [hpos]
      exact Position.one_le_column_past_start t
    have hline : 1 ≤ c.pos.line := by
      rw [hpos,Position.line_past]
      exact Nat.le_add_right 1 _
    have hcapacity : 2 ≤ capacity 32 := by decide
    omega

theorem between_reach (source : Text) (probes : List Probe) :
    ∃ t u, Between source t u (reach source probes) := by
  obtain ⟨t,u,h⟩ := Probe.exists_takesAll probes (.start source)
  have hplace := h.in_place []
  rw [Cursor.behind_nil,List.nil_append] at hplace
  exact ⟨t,u,h.unread,hplace⟩

/-- More probes lead further on. -/
theorem offset_reach_le (source : Text) (probes more : List Probe) :
    (reach source probes).offset ≤ (reach source (probes ++ more)).offset := by
  obtain ⟨t,u,h⟩ := between_reach source probes
  obtain ⟨w,v,hmore⟩ := Probe.exists_takesAll more ⟨u,Position.start.past t⟩
  have happend : reach source (probes ++ more) = after more (reach source probes) :=
    List.foldl_append
  rw [happend,h.eq,hmore.in_place,Cursor.behind,Cursor.behind,String.rawEndPos_ofList,
    String.rawEndPos_ofList,String.utf8Len_append]
  exact Nat.le_add_right _ _

/-- A cursor behind a longer part of the source has a greater offset and a later position. -/
theorem Between.lt (h : Between source t u c) (k : Between source (t ++ w) v d) (hw : w ≠ []) :
    c.offset < d.offset ∧ compare c.pos d.pos = .lt := by
  constructor
  · have hsize : 0 < String.utf8Len w := Nat.pos_of_ne_zero (mt String.utf8Len_eq_zero.1 hw)
    rw [String.Pos.Raw.lt_iff,h.offset,k.offset,String.utf8Len_append]
    exact Nat.lt_add_of_pos_right hsize
  · rw [h.eq,k.eq]
    change compare (Position.start.past t) (Position.start.past (t ++ w)) = .lt
    rw [Position.past_append]
    exact Position.compare_past hw _

theorem Between.eq_of_source (h : Between source t u c) (k : Between source t v d) : c = d := by
  have huv : u = v := List.append_cancel_left (h.source.symm.trans k.source)
  rw [h.eq,k.eq,huv]

theorem Between.total (h : Between source t u c) (k : Between source v w d) :
    c = d ∨ (c.offset < d.offset ∧ compare c.pos d.pos = .lt) ∨
      (d.offset < c.offset ∧ compare d.pos c.pos = .lt) := by
  have hsplit := h.source.symm.trans k.source
  rcases List.append_eq_append_iff.1 hsplit with ⟨x,rfl,_⟩ | ⟨x,rfl,_⟩
  · by_cases hx : x = []
    · rw [hx,List.append_nil] at k
      exact .inl (h.eq_of_source k)
    · exact .inr (.inl (h.lt k hx))
  · by_cases hx : x = []
    · rw [hx,List.append_nil] at h
      exact .inl (h.eq_of_source k)
    · exact .inr (.inr (k.lt h hx))

/-- Offsets and positions are in the same order. -/
theorem Between.order_iff (h : Between source t u c) (k : Between source v w d) :
    (c.offset < d.offset ↔ compare c.pos d.pos = .lt) ∧ (c.offset = d.offset ↔ c.pos = d.pos) := by
  simp only [String.Pos.Raw.lt_iff,String.Pos.Raw.ext_iff]
  rcases h.total k with rfl | ⟨hlt,hpos⟩ | ⟨hlt,hpos⟩
  · exact ⟨iff_of_false (Nat.lt_irrefl _) (Position.not_compare_lt_self _),iff_of_true rfl rfl⟩
  · rw [String.Pos.Raw.lt_iff] at hlt
    exact ⟨iff_of_true hlt hpos,iff_of_false (Nat.ne_of_lt hlt) (Position.ne_of_compare_lt hpos)⟩
  · rw [String.Pos.Raw.lt_iff] at hlt
    exact ⟨iff_of_false (Nat.lt_asymm hlt) (Position.not_compare_lt_of_lt hpos),
      iff_of_false (Nat.ne_of_gt hlt) (Position.ne_of_compare_lt hpos).symm⟩

end ByteCursor

open ByteCursor

/-- After any probes the position is that of the text before the offset. It fits 32 bits, the
offset has not decreased, and it is in the same order as the position. -/
theorem positions_exact (source : Text) (probes : List Probe) :
    (trace probes (.start source)).map (fun r => (r.1,r.2.cursor)) =
      Probe.trace probes (.start source) ∧
    (reach source probes).cursor = Probe.after probes (.start source) ∧
    (reach source probes).Exact source ∧
    (∀ more, (reach source probes).offset ≤ (reach source (probes ++ more)).offset) ∧
    ∀ others : List Probe,
      ((reach source probes).offset < (reach source others).offset ↔
        compare (reach source probes).pos (reach source others).pos = .lt) ∧
      ((reach source probes).offset = (reach source others).offset ↔
        (reach source probes).pos = (reach source others).pos) := by
  obtain ⟨t,u,h⟩ := between_reach source probes
  obtain ⟨w,v,hall⟩ := Probe.exists_takesAll probes (.start source)
  refine ⟨?_,?_,h.exact,offset_reach_le source probes,fun others => ?_⟩
  · rw [← Cursor.behind_nil]
    exact hall.replies []
  · rw [reach,← Cursor.behind_nil,hall.in_place,Cursor.cursor_behind,hall.after]
  · obtain ⟨_,_,h'⟩ := between_reach source others
    exact h.order_iff h'

end SicXE
