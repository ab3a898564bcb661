import SicXE.Text.Basic

/-! # Symbols

A symbol names a label or an operand. Case matters, and symbols are ordered by code points.
-/
namespace SicXE

structure Symbol where
  name : Text
  deriving DecidableEq,Repr

namespace Symbol

instance : Ord Symbol := ⟨fun s t => compare s.name t.name⟩

/-- The symbol as it is shown to a programmer, with its name unescaped. -/
def describe (s : Symbol) : Text :=
  "SymbolName \x7b canonical: \"".toList ++ s.name ++ "\" \x7d".toList

end Symbol
end SicXE
