import SicXE.Assembly.Listing
import SicXE.Command.Folder
import SicXE.Reading.Program

/-! # What the command does

The command prints the table of mnemonics, or reads a source file and prints its listing if
asked to. Nothing is written before the source has been accepted as a whole. The exit status is
0 on success and 1 on a failure, which is then reported on the error stream.
-/
namespace SicXE.Command

/-- What the command is asked to do. An input is given unless the table is asked for. -/
structure Options where
  input : Option FileName
  list : Bool
  mnemonics : Bool
  input_given : mnemonics = false → input.isSome

/-- A standard output that takes everything, or rejects whatever is not empty. -/
inductive Sink where
  | accepting
  | rejecting (reason : String)
  deriving DecidableEq,Repr

/-- The reason given by a device without space. -/
def deviceFull : String := "No space left on device (os error 28)"

def Sink.write (sink : Sink) (text : Text) : Except Failure Text :=
  match sink with
  | accepting => .ok text
  | rejecting reason => if text.isEmpty then .ok text else .error (.output reason)

/-- What reading a file by its name gives, or the reason of the system. -/
abbrev Reader := FileName → Except String (List UInt8)

def Folder.reader (f : Folder) : Reader := fun file =>
  match f.read file with
  | .ok content => .ok content
  | .error e => .error e.message

/-- The program in a file. -/
def assemble (reader : Reader) (file : FileName) : Except Failure Program :=
  match reader file with
  | .error detail => .error (.input file detail)
  | .ok content =>
    match Text.Utf8.decode? content with
    | none => .error (.input file ReadFault.notUtf8.message)
    | some source => (Program.parse source).mapError Failure.ofDiagnostic

/-- What the command writes on its standard output. -/
def Options.perform (o : Options) (reader : Reader) (sink : Sink) : Except Failure Text :=
  if h : o.mnemonics = false then
    match assemble reader (o.input.get (o.input_given h)) with
    | .error e => .error e
    | .ok program => if o.list then sink.write program.listing else .ok []
  else sink.write Registry.table

structure Outcome where
  status : Nat
  stdout : Text
  stderr : Text
  deriving DecidableEq,Repr

def Options.run (o : Options) (reader : Reader) (sink : Sink) : Outcome :=
  match o.perform reader sink with
  | .ok text => ⟨0,text,[]⟩
  | .error e => ⟨1,[],e.message.toList ++ ['\n']⟩

end SicXE.Command
