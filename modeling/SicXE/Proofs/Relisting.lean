import SicXE.Proofs.EmittedRecords
import SicXE.Proofs.LineRecovery
import SicXE.Reading.Relisting

/-! # Relisting a program

The listing of well-formed records is read back record by record, one for each line. Everything
that is read is well formed, so the listing of an accepted source is accepted, and its program
differs only in the locations. The programs that stay as they are stand on consecutive lines.
-/
namespace SicXE
open Text Reading

variable {source : Text} {p q : Program}

/-- The records of a program on consecutive lines, from a given line on. -/
def Program.stackedFrom (n : Nat) (p : Program) : Program :=
  p.mapIdx fun i r => r.atLine (n + i)

theorem Program.getElem?_stackedFrom (n : Nat) (p : Program) (i : Nat) :
    (stackedFrom n p)[i]? = p[i]?.map (Record.atLine (n + i)) := List.getElem?_mapIdx

@[simp] theorem Program.stackedFrom_nil (n : Nat) : stackedFrom n [] = [] := rfl

@[simp] theorem Program.stackedFrom_cons (n : Nat) (r : Record) (p : Program) :
    stackedFrom n (r :: p) = r.atLine n :: stackedFrom (n + 1) p := by
  simp only [stackedFrom,List.mapIdx_cons,Nat.add_zero,Nat.add_assoc,Nat.add_comm 1]

@[simp] theorem Record.text_atLine (n : Nat) (r : Record) : (r.atLine n).text = r.text := rfl

theorem Program.listing_stackedFrom (n : Nat) (p : Program) :
    listing (stackedFrom n p) = listing p := by
  induction p generalizing n with
  | nil => rfl
  | cons r p ih => rw [stackedFrom_cons,listing_cons,listing_cons,Record.text_atLine,ih]

/-- One step of the induction on the lines of a listing. -/
theorem Reading.records_text {r : Record} (hr : r.WellFormed) (n : Nat) (u : Text) :
    records ⟨r.text ++ '\n' :: u,⟨n,1⟩⟩ = (records ⟨u,⟨n + 1,1⟩⟩).map (r.atLine n :: ·) := by
  rw [records_line hr.one_line,parse_newline hr.one_line,parse_text hr]
  rfl

theorem Reading.records_listing (hp : ∀ r ∈ p, r.WellFormed) (n : Nat) :
    records ⟨Program.listing p,⟨n,1⟩⟩ = .ok (p.stackedFrom n) := by
  induction p generalizing n with
  | nil => exact records_ended rfl
  | cons r p ih =>
    rw [List.forall_mem_cons] at hp
    rw [Program.listing_cons,records_text hp.1,ih hp.2,Program.stackedFrom_cons]
    rfl

theorem parse_listing_of_wellFormed (hp : ∀ r ∈ p, r.WellFormed) :
    Program.parse p.listing = .ok (p.stackedFrom 1) := records_listing hp 1

theorem parse_listing_of_parse (h : Program.parse source = .ok p) :
    Program.parse p.listing = .ok (p.stackedFrom 1) :=
  parse_listing_of_wellFormed fun r hr => (wellFormed_records h r hr).1

/-- Two records with the same parts, wherever they stand. -/
structure Record.SameParts (r s : Record) : Prop where
  label_eq : r.label = s.label
  body_eq : r.body = s.body
  remark_eq : r.remark = s.remark

theorem Record.SameParts.of_atLine {m n : Nat} {r s : Record} (h : r.atLine m = s.atLine n) :
    r.SameParts s :=
  ⟨(Record.mk.inj h).2.1,(Record.mk.inj h).2.2.1,(Record.mk.inj h).2.2.2⟩

/-- Once a program is read back from its own listing, every later round gives the same. -/
theorem Reading.relistFrom_fixed (h : Program.parse p.listing = .ok p) (k : Nat) :
    relistFrom (some p) k p.listing = List.replicate k (.ok ⟨p.listing,some true⟩) := by
  induction k with
  | zero => rfl
  | succ k ih =>
    rw [relistFrom,h]
    simp only [ih,Option.map_some,beq_self_eq_true,List.replicate_succ]

/-- Programs with the same listing have the same records but for their locations. -/
theorem sameParts_of_listing_eq {other : Text} (h : Program.parse source = .ok p)
    (k : Program.parse other = .ok q) (hl : q.listing = p.listing) :
    q.length = p.length ∧
      ∀ (i : Nat) (r s : Record), p[i]? = some r → q[i]? = some s → s.SameParts r := by
  have hread := parse_listing_of_parse k
  rw [hl,parse_listing_of_parse h] at hread
  have hstacked := (Except.ok.inj hread).symm
  constructor
  · simpa [Program.stackedFrom] using congrArg List.length hstacked
  · intro i r s hr hs
    have hi := congrArg (·[i]?) hstacked
    simp only [Program.getElem?_stackedFrom,hr,hs,Option.map_some] at hi
    exact .of_atLine (Option.some.inj hi)

/-- Relisting loses nothing: the listing of an accepted source is accepted, with the same parts
of the records on consecutive lines; it is its own listing, and every later round repeats it. -/
theorem relisting_loses_nothing (h : Program.parse source = .ok p) :
    (∃ p', Program.parse p.listing = .ok p' ∧ p'.length = p.length ∧
      (∀ (i : Nat) (r s : Record), p[i]? = some r → p'[i]? = some s →
        s.SameParts r ∧ s.location = ⟨i + 1,1⟩) ∧
      p'.listing = p.listing ∧ Program.parse p'.listing = .ok p' ∧
      ∀ k, relist (k + 2) source = .ok ⟨p.listing,none⟩ :: .ok ⟨p.listing,some (p == p')⟩ ::
        List.replicate k (.ok ⟨p.listing,some true⟩)) ∧
    ∀ other q, Program.parse other = .ok q → q.listing = p.listing → q.length = p.length ∧
      ∀ (i : Nat) (r s : Record), p[i]? = some r → q[i]? = some s → s.SameParts r := by
  have hread := parse_listing_of_parse h
  have hlisting := Program.listing_stackedFrom 1 p
  have hfixed : Program.parse (p.stackedFrom 1).listing = .ok (p.stackedFrom 1) := by
    rw [hlisting]
    exact hread
  refine ⟨⟨p.stackedFrom 1,hread,List.length_mapIdx,?_,hlisting,hfixed,?_⟩,?_⟩
  · intro i r s hr hs
    rw [Program.getElem?_stackedFrom,hr,Option.map_some,Nat.add_comm] at hs
    obtain rfl := Option.some.inj hs
    exact ⟨⟨rfl,rfl,rfl⟩,rfl⟩
  · intro k
    have hround := relistFrom_fixed hfixed k
    rw [hlisting] at hround
    rw [relist,relistFrom,h]
    simp only [relistFrom,hread,hlisting,hround,Option.map_none,Option.map_some]
  · intro other q hq hl
    exact sameParts_of_listing_eq h hq hl

theorem relisting_loses_nothing_reserve :
    ∃ p p', Program.parse ".a \n\nΔ RESW 0x0A10 ,x\n WORD C'ab'\t\n END".toList = .ok p ∧
      p.listing = ".a\nΔ        RESW    2576  ,x\n         WORD    X'6162'\n         END\n".toList ∧
      Program.parse p.listing = .ok p' ∧ p'.listing = p.listing ∧
      Program.parse p'.listing = .ok p' := by
  have h : (Program.parse ".a \n\nΔ RESW 0x0A10 ,x\n WORD C'ab'\t\n END".toList).toOption.map
      Program.listing = some
        ".a\nΔ        RESW    2576  ,x\n         WORD    X'6162'\n         END\n".toList := by
    decide +kernel
  obtain ⟨p,hp,hl⟩ := Program.exists_of_parse h
  obtain ⟨⟨p',hp',_,_,hlisting,hfixed,_⟩,_⟩ := relisting_loses_nothing hp
  exact ⟨p,p',hp,hl,hp',hlisting,hfixed⟩

end SicXE
