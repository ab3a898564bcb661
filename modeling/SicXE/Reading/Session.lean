import SicXE.Reading.Program

/-! # Reading step by step

A session reads a source text by separate steps, in any order, and remembers where the line
that was read last began. The first step that fails ends it, and so does reading all the
records that are left.
-/
namespace SicXE.Reading
open Scan

structure Session where
  cursor : Cursor
  lineStart : Position
  deriving DecidableEq,Repr

def Session.start (source : Text) : Session := ⟨.start source,.start⟩

inductive Step where
  | label
  | mnemonic
  | symbol
  | register
  | comma
  | indexed
  | number (lo hi : Nat)
  | value (limit : Nat)
  | data
  | byte
  | memory (extended : Bool)
  /-- The operand of a mnemonic that is given rather than read. -/
  | operandOf (m : Mnemonic)
  | line
  | atEndOfLine
  | atDigit
  | lineStart
  deriving DecidableEq,Repr

inductive Step.Answer where
  | label (s : Option Symbol)
  | mnemonic (m : Mnemonic)
  | symbol (s : Symbol)
  | register (r : Register)
  | flag (b : Bool)
  | number (n : Nat)
  | value (v : Value)
  | bytes (bs : List UInt8)
  | operand (o : Operand)
  | record (r : Option Record)
  | position (p : Position)
  deriving DecidableEq,Repr

namespace Step

/-- The scan of a step, in a session whose line began at the given position. -/
def scan (began : Position) : Step → Scan Answer
  | label => return .label (← Reading.label)
  | mnemonic => return .mnemonic (← Reading.mnemonic)
  | symbol => return .symbol (← Reading.symbol)
  | register => return .register (← Reading.register)
  | comma => do
    Reading.comma
    return .flag true
  | indexed => return .flag (← Reading.indexed)
  | number lo hi => return .number (← Reading.number lo hi)
  | value limit => return .value (← Reading.value limit)
  | data => return .bytes (← Reading.data)
  | byte => return .bytes (← Reading.byte)
  | memory extended => return .operand (.memory (← memoryOperand extended))
  | operandOf m => do
    let o ← operand m.shape
    return .record (some ⟨began,none,.instruction m o,none⟩)
  | line => return .record (← Reading.line)
  | atEndOfLine => return .flag (← Scan.atEndOfLine)
  | atDigit => return .flag (← Scan.atDigit)
  | lineStart => return .position began

/-- Only reading a line moves the start of the line. -/
def lineStartAfter (session : Session) : Step → Position
  | line => session.cursor.pos
  | _ => session.lineStart

def run (step : Step) (session : Session) : Except Diagnostic Answer × Session :=
  let start := step.lineStartAfter session
  match (step.scan session.lineStart).run session.cursor with
  | .ok answer d => (.ok answer,⟨d,start⟩)
  | .error e d => (.error e,⟨d,start⟩)

end Step

/-- The answers to a sequence of steps, each with the cursor it leaves, up to the first fault;
and the session at the end, unless there was a fault. -/
def Session.trace : List Step → Session → List (Step.Answer × Cursor) × Except Diagnostic Session
  | [],session => ([],.ok session)
  | step :: rest,session =>
    match step.run session with
    | (.ok answer,next) =>
      let result := trace rest next
      ((answer,next.cursor) :: result.1,result.2)
    | (.error e,_) => ([],.error e)

/-- The records from the cursor of a session on. -/
def Session.program (session : Session) : Except Diagnostic Program := records session.cursor

end SicXE.Reading
