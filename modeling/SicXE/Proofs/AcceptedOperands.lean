import SicXE.Proofs.AcceptedTokens
import SicXE.Reading.Operand

/-! # Operands and their grammars

The operand of each shape is read exactly where the grammar of the shape has one. The alternatives
are told apart by the first character: no value starts like a mark or a literal.
-/
namespace SicXE
open Text Scan

namespace Reading

theorem accepts_addressing : Accepts addressing fun t mode u =>
    t = mode.mark ∧ (mode = .simple → u.head? ≠ some '#' ∧ u.head? ≠ some '@') := by
  refine ((Accepts.pure Addressing.immediate).branch ((Accepts.pure Addressing.indirect).branch
    (.pure Addressing.simple))).congr fun {t mode u} => ?_
  constructor
  · rintro ⟨rfl,h⟩
    cases mode with
    | immediate => exact .inl ⟨[],rfl,rfl,rfl⟩
    | indirect => exact .inr ⟨by simp [Addressing.mark],.inl ⟨[],rfl,rfl,rfl⟩⟩
    | simple => exact .inr ⟨(h rfl).1,.inr ⟨(h rfl).2,rfl,rfl⟩⟩
  · rintro (⟨_,rfl,rfl,rfl⟩ | ⟨hne,⟨_,rfl,rfl,rfl⟩ | ⟨hne',rfl,rfl⟩⟩)
    · exact ⟨rfl,fun h => by cases h⟩
    · exact ⟨rfl,fun h => by cases h⟩
    · exact ⟨rfl,fun _ => ⟨hne,hne'⟩⟩

theorem accepts_target {mode : Addressing} {extended : Bool} :
    Accepts (target mode extended) fun t target u =>
      target.Written mode (memoryLimit mode extended) t u := by
  have hl : memoryLimit mode extended < capacity 32 := by
    unfold memoryLimit
    split <;> decide
  have hvalue : Accepts (do return Target.value (← value (memoryLimit mode extended)))
      fun t target u => ∃ v, target = .value v ∧ v.Written (memoryLimit mode extended) t u :=
    (accepts_value hl).map Iff.rfl
  unfold target
  split
  case isTrue hmode =>
    refine ((accepts_data.map Iff.rfl).branch hvalue).congr fun {t target u} => ?_
    constructor
    · intro h
      cases h with
      | value hv => exact .inr ⟨hv.head_ne rfl (by decide),_,rfl,hv⟩
      | literal _ hb => exact .inl ⟨_,rfl,_,rfl,hb⟩
    · rintro (⟨_,rfl,_,rfl,hb⟩ | ⟨_,_,rfl,hv⟩)
      · exact .literal hmode hb
      · exact .value hv
  case isFalse hmode =>
    refine hvalue.congr fun {t target u} => ?_
    constructor
    · intro h
      cases h with
      | value hv => exact ⟨_,rfl,hv⟩
      | literal hsimple => exact absurd hsimple hmode
    · rintro ⟨_,rfl,hv⟩
      exact .value hv

theorem accepts_memoryOperand (extended : Bool) :
    Accepts (memoryOperand extended) fun t m u => m.Written extended t u := by
  refine accepts_addressing.bind (fun mode => accepts_target.bind (fun target =>
    accepts_indexed.map Iff.rfl) Iff.rfl) fun {t m u} => ?_
  constructor
  · rintro ⟨rfl,body,index,rfl,hbody,hindex⟩
    refine ⟨_,_,m.addressing,rfl,⟨rfl,fun _ => ?_⟩,body,index,m.target,rfl,hbody,m.indexed,rfl,
      hindex⟩
    rw [List.append_assoc]
    exact ⟨hbody.head_ne (by decide) (by decide) (by decide),
      hbody.head_ne (by decide) (by decide) (by decide)⟩
  · rintro ⟨_,_,mode,rfl,⟨rfl,_⟩,body,index,target,rfl,hbody,indexed,rfl,hindex⟩
    exact ⟨rfl,body,index,rfl,hbody,hindex⟩

/-- The operand of a shape is accepted exactly where the grammar of the shape has one. -/
theorem accepts_operand {shape : Shape} (hl : ∀ limit ∈ shape.limit?, limit < capacity 32) :
    Accepts (operand shape) fun t o u => o.Written shape t u := by
  cases shape with
  | directive | format1 | format3 => exact .pure Operand.none
  | directiveOperand limit => exact (accepts_value (hl limit rfl)).map Iff.rfl
  | directiveOptional limit =>
    have hvalue := (accepts_value (hl limit rfl)).map
      (g := fun v => Operand.optionalValue (some v)) Iff.rfl
    refine (Accepts.look (v := fun t => t.head? == none || t.head? == some '\n') (fun _ => rfl)
      fun ended => (Accepts.pure (Operand.optionalValue none)).ite hvalue).congr fun {t o u} => ?_
    constructor
    · rintro (⟨rfl,rfl,hend⟩ | ⟨v,rfl,hv⟩)
      · rw [List.nil_append,if_pos (ended_iff.2 hend)]
        exact ⟨rfl,rfl⟩
      · rw [if_neg fun hend => hv.not_ended (ended_iff.1 hend)]
        exact ⟨v,rfl,hv⟩
    · intro h
      split at h
      case isTrue hend =>
        obtain ⟨rfl,rfl⟩ := h
        exact .inl ⟨rfl,rfl,ended_iff.1 hend⟩
      case isFalse => exact .inr h
  | storageReserve => exact (accepts_number (by decide)).map Iff.rfl
  | storageByte =>
    have hbyte := accepts_byte.map (g := Operand.data) Iff.rfl
    have hdata := accepts_data.map (g := Operand.data) Iff.rfl
    refine (Accepts.look (v := fun t => t.head?.any Char.isDigit) (fun _ => rfl)
      fun digit => hbyte.ite hdata).congr fun {t o u} => ?_
    constructor
    · rintro (⟨bytes,rfl,hb⟩ | ⟨n,rfl,hn⟩)
      · rw [if_neg (ne_true_of_eq_false hb.head_append)]
        exact ⟨bytes,rfl,.literal hb⟩
      · rw [if_pos hn.head_append]
        exact ⟨_,rfl,n,rfl,hn⟩
    · intro h
      split at h
      case isTrue =>
        obtain ⟨_,rfl,n,rfl,hn⟩ := h
        exact .inr ⟨n,rfl,hn⟩
      case isFalse hdigit =>
        obtain ⟨bytes,rfl,hb⟩ := h
        cases hb with
        | literal hb => exact .inl ⟨bytes,rfl,hb⟩
        | word hn => exact absurd hn.head_append hdigit
  | storageWord => exact accepts_data.map Iff.rfl
  | format2Number => exact (accepts_number (by decide)).map Iff.rfl
  | format2Register =>
    refine accepts_register.map fun {t o u} => ?_
    constructor
    · rintro ⟨r,hr,rfl,rfl⟩
      exact ⟨r,rfl,hr,rfl⟩
    · rintro ⟨r,rfl,hr,rfl⟩
      exact ⟨r,hr,rfl,rfl⟩
  | format2RegisterNumber =>
    refine accepts_register.bind (fun r => accepts_comma.bind (fun _ =>
      (accepts_number (by decide)).map Iff.rfl) Iff.rfl) fun {t o u} => ?_
    constructor
    · rintro ⟨r,hr,comma,number,n,rfl,rfl,hcomma,hnumber⟩
      exact ⟨_,_,r,rfl,⟨hr,rfl⟩,comma,number,(),rfl,hcomma,n,rfl,hnumber⟩
    · rintro ⟨_,_,r,rfl,⟨hr,rfl⟩,comma,number,_,rfl,hcomma,n,rfl,hnumber⟩
      exact ⟨r,hr,comma,number,n,rfl,rfl,hcomma,hnumber⟩
  | format2RegisterPair =>
    refine accepts_register.bind (fun r => accepts_comma.bind (fun _ =>
      accepts_register.map Iff.rfl) Iff.rfl) fun {t o u} => ?_
    constructor
    · rintro ⟨first,hfirst,second,hsecond,comma,rfl,rfl,hcomma⟩
      exact ⟨_,_,first,rfl,⟨hfirst,rfl⟩,comma,_,(),rfl,hcomma,second,rfl,hsecond,rfl⟩
    · rintro ⟨_,_,first,rfl,⟨hfirst,rfl⟩,comma,_,_,rfl,hcomma,second,rfl,hsecond,rfl⟩
      exact ⟨first,hfirst,second,hsecond,comma,rfl,rfl,hcomma⟩
  | format3Memory => exact (accepts_memoryOperand false).map Iff.rfl
  | format4Memory => exact (accepts_memoryOperand true).map Iff.rfl

end Reading

/-- The limits of the registry leave no number of 33 bits within their bounds. -/
theorem Registry.limit_lt : ∀ m ∈ all, ∀ limit ∈ m.shape.limit?, limit < capacity 32 := by
  decide +kernel

theorem Mnemonic.Written.limit_lt {t u : Text} {m : Mnemonic} (h : m.Written t u) :
    ∀ limit ∈ m.shape.limit?, limit < capacity 32 :=
  Registry.limit_lt m (Registry.mem_all_of_ofSpelling? h.registered).1

end SicXE
