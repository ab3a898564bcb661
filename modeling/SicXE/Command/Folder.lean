import SicXE.Command.Failure

/-! # Folders

What reading a file of the working folder gives: its bytes, or the reason of the system for not
reading it. The folder holds at most one entry. A path is followed component by component, and
only a directory has components below it.
-/
namespace SicXE.Command

inductive ReadFault where
  | notFound
  | notDirectory
  | isDirectory
  | nameTooLong
  | nulInName
  | notUtf8
  deriving DecidableEq,Repr

def ReadFault.message : ReadFault → String
  | notFound => "No such file or directory (os error 2)"
  | notDirectory => "Not a directory (os error 20)"
  | isDirectory => "Is a directory (os error 21)"
  | nameTooLong => "File name too long (os error 36)"
  | nulInName => "file name contained an unexpected NUL byte"
  | notUtf8 => "stream did not contain valid UTF-8"

inductive Entry where
  | file (content : List UInt8)
  | directory
  deriving DecidableEq,Repr

/-- A folder, the name of its only entry, and the entry if it exists. -/
structure Folder where
  name : FileName
  entry : Option Entry
  deriving DecidableEq,Repr

/-- What a path leads to: the folder, a directory above it, or its entry. -/
inductive Place where
  | folder
  | above
  | entry (e : Entry)
  deriving DecidableEq,Repr

namespace Place

def isDirectory : Place → Bool
  | entry (.file _) => false
  | _ => true

def parent : Place → Place
  | entry _ => folder
  | _ => above

end Place

namespace Folder

def slash : UInt8 := 47

def dot : UInt8 := 46

/-- The greatest length of one component of a path, in bytes. -/
def componentLimit : Nat := 255

/-- The greatest length of a path, in bytes. -/
def pathLimit : Nat := 4095

/-- The parts of a path between its slashes. -/
def components (path : FileName) : List FileName :=
  path.foldr
    (fun b parts =>
      if b = slash then [] :: parts
      else
        match parts with
        | [] => [[b]]
        | part :: rest => (b :: part) :: rest)
    [[]]

def lookUp (f : Folder) (place : Place) (component : FileName) : Except ReadFault Place :=
  if place.isDirectory = false then .error .notDirectory
  else if component = [] ∨ component = [dot] then .ok place
  else if component = [dot,dot] then .ok place.parent
  else if componentLimit < component.length then .error .nameTooLong
  else
    match place,f.entry with
    | .folder,some e => if component = f.name then .ok (.entry e) else .error .notFound
    | _,_ => .error .notFound

/-- The start of a path: a leading slash leads out of the folder. -/
def origin (path : FileName) : Place := if path.head? = some slash then .above else .folder

def resolve (f : Folder) (path : FileName) : Except ReadFault Place :=
  if path.contains 0 then .error .nulInName
  else if path = [] then .error .notFound
  else if pathLimit < path.length then .error .nameTooLong
  else (components path).foldlM f.lookUp (origin path)

def read (f : Folder) (path : FileName) : Except ReadFault (List UInt8) := do
  match ← f.resolve path with
  | .entry (.file content) => return content
  | _ => throw .isDirectory

end Folder
end SicXE.Command
