import SicXE.Source.Scan

/-! # Probes

The elementary operations on a cursor as data, so that a sequence of them can be run one after
another. A probe that fails gives its diagnostic as the reply and the sequence goes on.
-/
namespace SicXE

inductive Probe where
  | peek
  | peekAt (offset : Nat)
  | advance
  | expect (wanted : Char)
  | advanceIf (a : Char)
  | skipBlanks
  | readWhile (p : Char → Bool)
  | readSymbol
  | readDigits (radix : Nat)
  | readTo (delimiter : Char)
  /-- Asks whether the next character may be part of a symbol. -/
  | symbolNext

inductive Probe.Reply where
  | char (a : Option Char)
  | flag (b : Bool)
  | symbolNext (b : Option Bool)
  | text (t : Text)
  | failed (d : Diagnostic)
  deriving DecidableEq,Repr

namespace Probe

def scan : Probe → Scan Reply
  | peek => return .char (← Scan.peek)
  | peekAt offset => return .char ((← get).peekAt offset)
  | advance => return .char (← Scan.advance)
  | expect wanted => do
    Scan.expect wanted
    return .flag true
  | advanceIf a => return .flag (← Scan.advanceIf a)
  | skipBlanks => return .flag (← Scan.skipBlanks)
  | readWhile p => return .text (← Scan.readWhile p)
  | readSymbol => return .text (← Scan.readSymbol)
  | readDigits radix => return .text (← Scan.readDigits radix)
  | readTo delimiter => return .text (← Scan.readTo delimiter)
  | symbolNext => return .symbolNext ((← Scan.peek).map Text.isSymbolChar)

def run (probe : Probe) (c : Cursor) : Reply × Cursor :=
  match probe.scan.run c with
  | .ok reply d => (reply,d)
  | .error e d => (.failed e,d)

/-- The replies to a sequence of probes, each with the cursor it leaves. -/
def trace : List Probe → Cursor → List (Reply × Cursor)
  | [],_ => []
  | probe :: rest,c =>
    let result := probe.run c
    result :: trace rest result.2

/-- Where a sequence of probes leaves the cursor. -/
def after (probes : List Probe) (c : Cursor) : Cursor :=
  probes.foldl (fun d probe => (probe.run d).2) c

end Probe
end SicXE
