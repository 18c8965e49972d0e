import DirectiveQuery.Text.Line
import DirectiveQuery.Text.Position

/-
  Files by their names. A name is walked from the working directory, or from the root if it
  starts with a slash, part by part; a dot stays where it is and two dots lead to the directory
  above. A directory is there when some file is in it; so are the working directory and all
  those above it, of which nothing else is known, and the directories and devices of every
  system.
-/
namespace DirectiveQuery

/-- Why a file cannot be read or written. -/
inductive FileError where
  | notFound
  | permissionDenied
  | notADirectory
  | isADirectory
  | nameTooLong
  /-- The null character stands in the name, so the operating system is not even asked. -/
  | nullInName
deriving DecidableEq, Repr

namespace FileError

/-- The number of the error in the operating system. -/
def code? : FileError → Option Nat
  | notFound => some 2
  | permissionDenied => some 13
  | notADirectory => some 20
  | isADirectory => some 21
  | nameTooLong => some 36
  | nullInName => none

/-- The name of the error, in diagnostics. -/
def kind : FileError → String
  | notFound => "NotFound"
  | permissionDenied => "PermissionDenied"
  | notADirectory => "NotADirectory"
  | isADirectory => "IsADirectory"
  | nameTooLong => "InvalidFilename"
  | nullInName => "InvalidInput"

/-- The words for the error. -/
def message : FileError → String
  | notFound => "No such file or directory"
  | permissionDenied => "Permission denied"
  | notADirectory => "Not a directory"
  | isADirectory => "Is a directory"
  | nameTooLong => "File name too long"
  | nullInName => "file name contained an unexpected NUL byte"

/-- The error as shown to readers. -/
def display (e : FileError) : String :=
  match e.code? with
  | some code => e.message ++ " (os error " ++ toString code ++ ")"
  | none => e.message

/-- The error with its data, for diagnostics. -/
def debug (e : FileError) : String :=
  match e.code? with
  | some code =>
    "Os \x7b code: " ++ toString code ++ ", kind: " ++ e.kind ++ ", message: \"" ++ e.message
      ++ "\" \x7d"
  | none => "Error \x7b kind: " ++ e.kind ++ ", message: \"" ++ e.message ++ "\" \x7d"

end FileError

/-! ## Locations -/

/-- A directory that is there whatever files there are. -/
inductive Base where
  | root
  /-- So many levels above the working directory. -/
  | above (levels : Nat)
deriving DecidableEq, Repr

/-- A location: a base, and the names that lead down from there. -/
structure Location where
  base : Base
  names : List (List Char) := []
deriving DecidableEq, Repr

namespace Location

/-- The location above; the root is above itself. -/
def parent (l : Location) : Location :=
  match l.names, l.base with
  | _ :: _, _ => { l with names := l.names.dropLast }
  | [], .root => l
  | [], .above levels => ⟨.above (levels + 1), []⟩

/-- The location that one part of a name leads to. -/
def follow (l : Location) (part : List Char) : Location :=
  if part = ['.'] then l
  else if part = ['.', '.'] then l.parent
  else { l with names := l.names ++ [part] }

/-- The parts of a name; slashes in a row count as one. -/
def parts (name : String) : List (List Char) :=
  (Text.splitAll '/' name.toList).filter fun part => !part.isEmpty

/-- Where the walk along a name starts. -/
def origin (name : String) : Location := ⟨if name.startsWith "/" then .root else .above 0, []⟩

/-- The location that a name leads to. -/
def ofName (name : String) : Location := (parts name).foldl follow (origin name)

/-- The location is somewhere below another one. -/
def isBelow (l directory : Location) : Bool :=
  l.base == directory.base && directory.names.isPrefixOf l.names && l.names != directory.names

end Location

/-! ## What every system has -/

/-- A file that is always there and keeps nothing. -/
inductive Device where
  | null
  | input
  | output
  | errors
deriving DecidableEq, Repr

namespace Device

/-- All devices. -/
def all : List Device := [null, input, output, errors]

/-- The name of the device. -/
def name : Device → String
  | null => "/dev/null"
  | input => "/dev/stdin"
  | output => "/dev/stdout"
  | errors => "/dev/stderr"

/-- The device at a location. -/
def at? (l : Location) : Option Device := all.find? fun d => Location.ofName d.name == l

end Device

/-- The directories below the root. -/
def systemDirectories : List Location :=
  ["bin", "dev", "etc", "home", "lib", "media", "mnt", "opt", "proc", "root", "run", "sbin",
    "srv", "sys", "tmp", "usr", "var"].map fun name => ⟨.root, [name.toList]⟩

/-! ## Files -/

/-- Files by their names, each with its content. The first entry of a location counts. -/
structure Files where
  entries : List (String × String) := []
deriving DecidableEq, Repr

namespace Files

/-- The content of the file at a location; devices have none. -/
def at? (files : Files) (l : Location) : Option String :=
  if (Device.at? l).isSome then some ""
  else (files.entries.find? fun entry => Location.ofName entry.1 == l).map (·.2)

/-- A directory is at the location. -/
def hasDirectory (files : Files) (l : Location) : Bool :=
  l.names.isEmpty || systemDirectories.contains l
    || files.entries.any fun entry => (Location.ofName entry.1).isBelow l

/-- The longest part of a name, in bytes. -/
def maxPart : Nat := 255

/-- The longest name, in bytes. -/
def maxName : Nat := 4095

/-- The part of a name is too long. -/
def isTooLong (part : List Char) : Bool := maxPart < Text.byteLength part

/-- The directory that one part of a name leads to from another directory. -/
def enter (files : Files) (l : Location) (part : List Char) : Except FileError Location :=
  let next := l.follow part
  if isTooLong part then .error .nameTooLong
  else if files.hasDirectory next then .ok next
  else if (files.at? next).isSome then .error .notADirectory
  else .error .notFound

/-- The directory with the last part of a name in it, and that part; no part for the root. -/
def locate (files : Files) (name : String) : Except FileError (Location × Option (List Char)) :=
  if name.toList.contains (Char.ofNat 0) then .error .nullInName
  else if name.isEmpty then .error .notFound
  else if maxName < Text.byteLength name.toList then .error .nameTooLong
  else do
    let parts := Location.parts name
    let directory ← parts.dropLast.foldlM files.enter (Location.origin name)
    return (directory, parts.getLast?)

/-- The name ends with a slash, and so asks for a directory. -/
def asksDirectory (name : String) : Bool := name.endsWith "/"

/-- The content of a file. -/
def read (files : Files) (name : String) : Except FileError String := do
  let (directory, last) ← files.locate name
  match last with
  | none => .error .isADirectory
  | some part =>
    let l := directory.follow part
    if isTooLong part then .error .nameTooLong
    else if files.hasDirectory l then .error .isADirectory
    else
      match files.at? l with
      | none => .error .notFound
      | some content => if asksDirectory name then .error .notADirectory else .ok content

/-- The files with one of them written, whether it was there before or not. What is written to
a device is not kept. -/
def write (files : Files) (name content : String) : Except FileError Files := do
  let (directory, last) ← files.locate name
  match last with
  | none => .error .isADirectory
  | some part =>
    if asksDirectory name then .error .isADirectory
    else if isTooLong part then .error .nameTooLong
    else
      let l := directory.follow part
      if files.hasDirectory l then .error .isADirectory
      else if (Device.at? l).isSome then .ok files
      else .ok ⟨(name, content) :: files.entries⟩

end Files

end DirectiveQuery
