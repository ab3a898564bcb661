import SicXE.Command.Arguments

/-! # Running the command

The arguments are turned into options, which are then performed. Arguments that ask for the version
or the help are answered at once, and the exit status is 2 on wrong usage.
-/
namespace SicXE.Command

def version : Text := "assembler 0.1.0\n".toList

def usage : Text := "Usage: sicasm [OPTIONS] [INPUT]\n".toList

def help : Text :=
  "Parser for SIC/XE assembly language\n\n".toList ++ usage ++
    ("\nArguments:\n" ++
      "  [INPUT]  File from which assembly source is read\n" ++
      "\nOptions:\n" ++
      "      --list       When set, print a normalized listing of the parsed program\n" ++
      "      --mnemonics  Print the table of known mnemonics and exit\n" ++
      "  -h, --help       Print help\n" ++
      "  -V, --version    Print version\n").toList

/-- The version and the help are printed if possible; that they cannot be is no failure. -/
def Stop.outcome (sink : Sink) : Stop → Outcome
  | version => ⟨0,(sink.write Command.version).toOption.getD [],[]⟩
  | help => ⟨0,(sink.write Command.help).toOption.getD [],[]⟩
  | usage => ⟨2,[],Command.usage ++ "\nFor more information, try '--help'.\n".toList⟩

def run (args : List Text) (reader : Reader) (sink : Sink) : Outcome :=
  match Options.parse args with
  | .ok o => o.run reader sink
  | .error stop => stop.outcome sink

end SicXE.Command
