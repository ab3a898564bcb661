import SicXE.Proofs.Grammar
import SicXE.Proofs.Reads

/-! # Scans and grammars

A scan accepts a grammar when it succeeds exactly on the texts of the grammar: it reads each of
them before the text that may follow it, and whatever it gives is written before what it leaves.
Scans in sequence accept the sequence of their grammars.
-/
namespace SicXE.Scan
open Text

variable {α β : Type}

/-- A relation between a text, what it stands for, and the text that follows. -/
abbrev Grammar (α : Type) := Text → α → Text → Prop

structure Accepts (x : Scan α) (G : Grammar α) : Prop where
  reads : ∀ {t a u}, G t a u → Reads x t a u
  gives : ∀ {c a d}, x.run c = .ok a d → ∃ t, c.rest = t ++ d.rest ∧ G t a d.rest

variable {x : Scan α} {f : α → Scan β} {G : Grammar α} {H : α → Grammar β} {K : Grammar β}

theorem Accepts.congr {F : Grammar α} (hx : Accepts x G) (h : ∀ {t a u}, F t a u ↔ G t a u) :
    Accepts x F := by
  refine ⟨fun hF => hx.reads (h.1 hF),fun hrun => ?_⟩
  obtain ⟨t,ht,hG⟩ := hx.gives hrun
  exact ⟨t,ht,h.2 hG⟩

/-- A scan that accepts a grammar succeeds exactly behind the texts of the grammar. -/
theorem Accepts.run_eq_ok_iff (hx : Accepts x G) {c d : Cursor} {a : α} : x.run c = .ok a d ↔
    ∃ t, c.rest = t ++ d.rest ∧ d.pos = c.pos.past t ∧ G t a d.rest := by
  constructor
  · intro h
    obtain ⟨t,ht,hG⟩ := hx.gives h
    have hrun := (hx.reads hG).run c.pos
    rw [← ht,h] at hrun
    obtain ⟨_,hd⟩ := EStateM.Result.ok.inj hrun
    exact ⟨t,ht,congrArg Cursor.pos hd,hG⟩
  · rintro ⟨t,ht,hpos,hG⟩
    have hrun := (hx.reads hG).run c.pos
    rwa [← ht,← hpos] at hrun

theorem Accepts.pure (a : α) : Accepts (pure a) fun t b _ => t = [] ∧ b = a := by
  constructor
  · rintro t b u ⟨rfl,rfl⟩
    exact Reads.pure b u
  · intro c b d h
    cases h
    exact ⟨[],rfl,rfl,rfl⟩

/-- Scans in sequence, where the second one depends on something that the first one ensures. -/
theorem Accepts.bind_of {P : α → Prop} (hx : Accepts x G) (hP : ∀ {t a u}, G t a u → P a)
    (hf : ∀ a, P a → Accepts (f a) (H a))
    (h : ∀ {t b u}, K t b u ↔ ∃ t₁ t₂ a, t = t₁ ++ t₂ ∧ G t₁ a (t₂ ++ u) ∧ H a t₂ b u) :
    Accepts (x >>= f) K := by
  constructor
  · intro t b u hK
    obtain ⟨t₁,t₂,a,rfl,hG,hH⟩ := h.1 hK
    exact (hx.reads hG).bind ((hf a (hP hG)).reads hH)
  · intro c b d hrun
    obtain ⟨a,e,hxrun,hfrun⟩ := run_bind_eq_ok.1 hrun
    obtain ⟨t₁,ht₁,hG⟩ := hx.gives hxrun
    obtain ⟨t₂,ht₂,hH⟩ := (hf a (hP hG)).gives hfrun
    rw [ht₂] at ht₁ hG
    exact ⟨t₁ ++ t₂,by rw [ht₁,List.append_assoc],h.2 ⟨t₁,t₂,a,rfl,hG,hH⟩⟩

theorem Accepts.bind (hx : Accepts x G) (hf : ∀ a, Accepts (f a) (H a))
    (h : ∀ {t b u}, K t b u ↔ ∃ t₁ t₂ a, t = t₁ ++ t₂ ∧ G t₁ a (t₂ ++ u) ∧ H a t₂ b u) :
    Accepts (x >>= f) K := hx.bind_of (fun _ => trivial) (fun a _ => hf a) h

theorem Accepts.map {g : α → β} (hx : Accepts x G) (h : ∀ {t b u}, K t b u ↔ ∃ a, b = g a ∧ G t a u) :
    Accepts (x >>= fun a => Pure.pure (g a)) K := by
  refine hx.bind (fun a => .pure (g a)) fun {t b u} => h.trans ?_
  constructor
  · rintro ⟨a,rfl,hG⟩
    exact ⟨t,[],a,(List.append_nil t).symm,hG,rfl,rfl⟩
  · rintro ⟨t₁,_,a,rfl,hG,rfl,rfl⟩
    rw [List.append_nil]
    exact ⟨a,rfl,hG⟩

/-- A scan that remembers where it started accepts what it accepts from anywhere. -/
theorem Accepts.located {f : Position → Scan α} (h : ∀ p, Accepts (f p) G) :
    Accepts (here >>= f) G :=
  ⟨fun hG => Reads.located fun p => (h p).reads hG,fun {c _ _} hrun => (h c.pos).gives hrun⟩

theorem accepts_readWhile (p : Char → Bool) :
    Accepts (readWhile p) fun t a u => a = t ∧ (∀ b ∈ t, p b) ∧ Stops p u := by
  constructor
  · rintro t _ u ⟨rfl,ht,hu⟩
    exact reads_readWhile ht hu
  · intro c a d h
    rw [run_readWhile] at h
    cases h
    exact ⟨_,List.takeWhile_append_dropWhile.symm,rfl,fun b hb => List.mem_takeWhile_imp hb,
      stops_dropWhile⟩

theorem accepts_skipBlanks :
    Accepts skipBlanks fun t ended u =>
      Gap t u ∧ ended = (u.head? == none || u.head? == some '\n') := by
  constructor
  · rintro t _ u ⟨⟨ht,hu⟩,rfl⟩
    exact reads_skipBlanks ht hu
  · intro c a d h
    cases h
    exact ⟨_,List.takeWhile_append_dropWhile.symm,
      ⟨fun b hb => List.mem_takeWhile_imp hb,stops_dropWhile⟩,rfl⟩

theorem rest_of_peek {c : Cursor} {a : Char} (h : c.peek = some a) :
    c.rest = [a] ++ c.advance.rest := by
  rcases c with ⟨_ | ⟨b,rest⟩,pos⟩
  · cases h
  · cases h
    rfl

theorem accepts_expect (a : Char) : Accepts (expect a) fun t _ _ => t = [a] := by
  constructor
  · rintro t _ u rfl
    exact reads_expect a u
  · intro c b d h
    obtain ⟨found,e,hfound,h⟩ := run_bind_eq_ok.1 h
    rw [run_advanceIf] at hfound
    split at hfound
    case isTrue hp =>
      cases hfound
      cases h
      exact ⟨[a],rest_of_peek hp,rfl⟩
    case isFalse =>
      cases hfound
      obtain ⟨found,e,hfound,h⟩ := run_bind_eq_ok.1 h
      cases found with
      | none => exact (run_fail_ne_ok h).elim
      | some found =>
        dsimp only at h
        split at h
        · exact (run_fail_ne_ok h).elim
        · exact (run_fail_ne_ok h).elim

section Branches
variable {α β : Type} {x y : Scan α} {f : β → Scan α} {G H : Grammar α} {F : β → Grammar α}

/-- A choice by the next character, which is consumed on one side. -/
theorem Accepts.branch {a : Char} (hx : Accepts x G) (hy : Accepts y H) :
    Accepts (do if ← advanceIf a then x else y) fun t b u =>
      (∃ t', t = a :: t' ∧ G t' b u) ∨ ((t ++ u).head? ≠ some a ∧ H t b u) := by
  constructor
  · rintro t b u (⟨t,rfl,hG⟩ | ⟨hne,hH⟩)
    · exact (reads_advanceIf a (t ++ u)).bind (Reads.ite_pos rfl (hx.reads hG))
    · exact (reads_advanceIf_ne hne).look (Reads.ite_neg Bool.false_ne_true (hy.reads hH))
  · intro c b d h
    obtain ⟨found,e,hfound,h⟩ := run_bind_eq_ok.1 h
    rw [run_advanceIf] at hfound
    split at hfound
    case isTrue hp =>
      cases hfound
      obtain ⟨t,ht,hG⟩ := hx.gives h
      exact ⟨a :: t,by rw [rest_of_peek hp,ht]; rfl,.inl ⟨t,rfl,hG⟩⟩
    case isFalse hp =>
      cases hfound
      obtain ⟨t,ht,hH⟩ := hy.gives h
      exact ⟨t,ht,.inr ⟨by rw [← ht]; exact hp,hH⟩⟩

/-- A scan that goes on by what it sees of the text. -/
theorem Accepts.look {x : Scan β} {v : Text → β} (hv : ∀ c : Cursor, x.run c = .ok (v c.rest) c)
    (hf : ∀ b, Accepts (f b) (F b)) :
    Accepts (x >>= f) fun t a u => F (v (t ++ u)) t a u := by
  constructor
  · intro t a u hF
    exact Reads.look (a := v (t ++ u)) (fun p => hv ⟨t ++ u,p⟩) ((hf _).reads hF)
  · intro c a d h
    obtain ⟨b,e,hx,h⟩ := run_bind_eq_ok.1 h
    rw [hv] at hx
    cases hx
    obtain ⟨t,ht,hF⟩ := (hf _).gives h
    rw [ht] at hF
    exact ⟨t,ht,hF⟩

theorem Accepts.ite {p : Prop} [Decidable p] (hx : Accepts x G) (hy : Accepts y H) :
    Accepts (if p then x else y) fun t a u => if p then G t a u else H t a u := by
  split
  · exact hx.congr (by simp [*])
  · exact hy.congr (by simp [*])

theorem accepts_fail (fault : Fault) : Accepts (fail fault : Scan α) fun _ _ _ => False :=
  ⟨fun h => h.elim,fun h => (run_fail_ne_ok h).elim⟩

end Branches

end SicXE.Scan
