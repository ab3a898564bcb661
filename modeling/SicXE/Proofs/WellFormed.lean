import SicXE.Assembly.Registry
import SicXE.Assembly.Record
import SicXE.Proofs.Characters

/-! # Well-formed records

What a record has to satisfy to be the record of a line: its parts have the classes, the ranges
and the variants that its mnemonic asks for, and its texts contain nothing that would end a line
or be trimmed. A remark must not be mistaken for a part of the operand before it.
-/
namespace SicXE
open Text

/-- A word of symbol characters whose first one is of the given class. -/
structure Text.IsWord (first : Char → Bool) (t : Text) : Prop where
  head : t.head?.any first
  symbolic : ∀ a ∈ t, isSymbolChar a

instance (first : Char → Bool) (t : Text) : Decidable (IsWord first t) :=
  decidable_of_iff (t.head?.any first ∧ t.all isSymbolChar)
    ⟨fun h => ⟨h.1,List.all_eq_true.1 h.2⟩,fun h => ⟨h.head,List.all_eq_true.2 h.symbolic⟩⟩

theorem Text.isWord_takeWhile {first : Char → Bool} {t : Text} {a : Char} (ha : t.head? = some a)
    (hf : first a) (hs : isSymbolChar a) : IsWord first (t.takeWhile isSymbolChar) := by
  refine ⟨?_,fun b hb => List.mem_takeWhile_imp hb⟩
  rw [List.head?_takeWhile,ha]
  simp [hs,hf]

/-- A text that fits behind an operand: it is not empty, stays in its line, and has no
whitespace at either end. -/
structure Text.Tidy (t : Text) : Prop where
  ne_nil : t ≠ []
  one_line : '\n' ∉ t
  starts : Stops isWhitespace t
  ends : Stops isWhitespace t.reverse

def Value.Fits (limit : Nat) : Value → Prop
  | number n => n ≤ limit
  | symbol s => IsWord isSymbolStart s.name
  | here => True

/-- The greatest number of a memory operand: twelve bits when it is the operand itself and the
instruction is not extended, twenty bits otherwise. -/
def MemoryOperand.numberLimit (m : MemoryOperand) : Nat :=
  if m.addressing = .immediate ∧ m.extended = false then 4095 else 1048575

/-- Literals are addressed simply. -/
def Target.Fits (mode : Addressing) (limit : Nat) : Target → Prop
  | value v => v.Fits limit
  | literal _ => mode = .simple

structure MemoryOperand.Fits (extended : Bool) (m : MemoryOperand) : Prop where
  extended_eq : m.extended = extended
  target_fits : m.target.Fits m.addressing m.numberLimit

/-- The operand is of the variant that the shape fixes, and within its ranges. -/
inductive Operand.Fits : Shape → Operand → Prop where
  | directive : Fits .directive .none
  | directiveOperand {limit : Nat} {v : Value} : v.Fits limit →
      Fits (.directiveOperand limit) (.value v)
  | omitted {limit : Nat} : Fits (.directiveOptional limit) (.optionalValue .none)
  | directiveOptional {limit : Nat} {v : Value} : v.Fits limit →
      Fits (.directiveOptional limit) (.optionalValue (some v))
  | storageReserve {n : Nat} : n ≤ 1048575 → Fits .storageReserve (.count n)
  | storageByte {bytes : List UInt8} : Fits .storageByte (.data bytes)
  | storageWord {bytes : List UInt8} : Fits .storageWord (.data bytes)
  | format1 : Fits .format1 .none
  | format2Number {n : Nat} : n ≤ 15 → Fits .format2Number (.number n)
  | format2Register {r : Register} : r ∈ Register.operands → Fits .format2Register (.register r)
  | format2RegisterNumber {r : Register} {n : Nat} : r ∈ Register.operands → 1 ≤ n → n ≤ 16 →
      Fits .format2RegisterNumber (.registerNumber r n)
  | format2RegisterPair {first second : Register} : first ∈ Register.operands →
      second ∈ Register.operands → Fits .format2RegisterPair (.registerPair first second)
  | format3 : Fits .format3 .none
  | format3Memory {m : MemoryOperand} : m.Fits false → Fits .format3Memory (.memory m)
  | format4Memory {m : MemoryOperand} : m.Fits true → Fits .format4Memory (.memory m)

/-- A text may follow the operand as its remark: nothing follows an omitted operand, and a comma
after a memory operand starts its index. -/
def Operand.Admits (remark : Text) : Operand → Prop
  | optionalValue Option.none => False
  | memory m => m.indexed = false → remark.head? ≠ some ','
  | _ => True

structure Record.IsCommentLine (r : Record) (text : Text) : Prop where
  label_eq : r.label = none
  remark_eq : r.remark = none
  marked : text.head? = some '.'
  one_line : '\n' ∉ text
  ends : Stops isWhitespace text.reverse

structure Record.IsInstructionLine (r : Record) (m : Mnemonic) (o : Operand) : Prop where
  registered : Registry.ofSpelling? m.spelling = some m
  label_word : ∀ s ∈ r.label, IsWord isAlphabetic s.name
  operand_fits : o.Fits m.shape
  remark_tidy : ∀ t ∈ r.remark, Tidy t
  remark_admitted : ∀ t ∈ r.remark, o.Admits t

def Record.WellFormed (r : Record) : Prop :=
  match r.body with
  | .comment text => r.IsCommentLine text
  | .instruction m o => r.IsInstructionLine m o

/-- The same record at the start of another line. -/
def Record.atLine (n : Nat) (r : Record) : Record := { r with location := ⟨n,1⟩ }

end SicXE
