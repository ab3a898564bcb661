import SicXE.Command.Perform

/-! # Arguments of the command

The command takes one input file and the flags `--list` and `--mnemonics`, in any order. After
`--` every argument is a file name, and so is a lone hyphen. Arguments are taken from left to
right, and the first that asks for the version or the help, or is wrong, settles the matter. An
argument is a text, and the name it gives to a file is the bytes of that text.
-/
namespace SicXE.Command

/-- A reason not to go on with the arguments. -/
inductive Stop where
  | version
  | help
  | usage
  deriving DecidableEq,Repr

/-- The arguments taken so far. -/
structure Draft where
  input : Option FileName := none
  list : Bool := false
  mnemonics : Bool := false
  deriving DecidableEq,Repr

namespace Draft

def addInput (d : Draft) (name : Text) : Except Stop Draft :=
  match d.input with
  | none => .ok { d with input := some (Text.Utf8.encode name) }
  | some _ => .error .usage

/-- Adds an option by its full name. A flag can be given once and takes no value. -/
def addOption (d : Draft) (name : Text) : Except Stop Draft :=
  if name = "version".toList then .error .version
  else if name = "help".toList then .error .help
  else if name = "list".toList ∧ d.list = false then .ok { d with list := true }
  else if name = "mnemonics".toList ∧ d.mnemonics = false then .ok { d with mnemonics := true }
  else .error .usage

/-- The first letter of a group of short options decides, as none of them lets the group go on. -/
def shortOption : Char → Stop
  | 'V' => .version
  | 'h' => .help
  | _ => .usage

def add (d : Draft) : Text → Except Stop Draft
  | '-' :: '-' :: name => d.addOption name
  | '-' :: letter :: _ => .error (shortOption letter)
  | name => d.addInput name

def finish (d : Draft) : Except Stop Options :=
  if h : d.mnemonics = false → d.input.isSome then .ok ⟨d.input,d.list,d.mnemonics,h⟩
  else .error .usage

end Draft

/-- Takes the arguments that follow a draft. -/
def Options.parseFrom (d : Draft) : List Text → Except Stop Options
  | [] => d.finish
  | arg :: rest =>
    if arg = ['-','-'] then do (← rest.foldlM Draft.addInput d).finish
    else do parseFrom (← d.add arg) rest

def Options.parse (args : List Text) : Except Stop Options := Options.parseFrom { } args

end SicXE.Command
