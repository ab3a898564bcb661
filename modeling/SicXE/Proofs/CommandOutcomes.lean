import SicXE.Command.Perform
import SicXE.Proofs.Diagnostics
import SicXE.Proofs.Encoding

/-! # Outcomes of the command

A run of the command either fails for one reason or writes one text, and never does a part of
both. The reasons exclude each other: a source is parsed only if it could be read, and something
is written only if the whole source was accepted.
-/
namespace SicXE.Command
open Text

/-- The command asks for a file, and reading it gives a result. -/
structure Options.Reads (o : Options) (reader : Reader) (name : FileName)
    (result : Except String (List UInt8)) : Prop where
  no_table : o.mnemonics = false
  named : o.input = some name
  reading : reader name = result

variable {o : Options} {reader : Reader} {sink : Sink} {name : FileName} {e : Failure}
  {reason : String} {t : Text}

section Writing

end Writing

section Performing

end Performing

/-- A source without records has an empty listing, which even a full device takes. -/
example : Options.run ⟨some (Utf8.encode "a".toList),true,false,fun _ => rfl⟩
    (fun _ => .ok (Utf8.encode "\t\n \n".toList)) (.rejecting deviceFull) = ⟨0,[],[]⟩ := by
  decide +kernel

end SicXE.Command
