import MidiScore.MidiFile.Track

/-!
# Directories of files

A directory that holds files and no other directories.  Paths are taken from it and
may lead out of it, into the system around it.  Of that system only the directories
that every system has and the null device are known.
-/

namespace MidiScore.CommandLine

/-- Why a path is refused. -/
inductive Refusal where
  | missing
  | isDirectory
  | notDirectory
  | tooLong
  | notText
  deriving Repr, DecidableEq

/-- The message for a reader. -/
def Refusal.message : Refusal → String
  | .missing => "No such file or directory (os error 2)"
  | .isDirectory => "Is a directory (os error 21)"
  | .notDirectory => "Not a directory (os error 20)"
  | .tooLong => "File name too long (os error 36)"
  | .notText => "stream did not contain valid UTF-8"

/-- A place in the system. -/
inductive Place where
  /-- The directory that paths are taken from. -/
  | home
  /-- The directory that all others are inside of. -/
  | root
  | devices
  /-- Any other directory. -/
  | elsewhere
  /-- A file of the directory that paths are taken from. -/
  | file (name : String)
  /-- The file that is empty and keeps nothing. -/
  | nullDevice
  deriving Repr, DecidableEq

namespace Place

/-- Whether other places may lie inside of a place. -/
def isDirectory : Place → Bool
  | .home | .root | .devices | .elsewhere => true
  | .file _ | .nullDevice => false

/-- The place around a place. -/
def parent : Place → Place
  | .root | .devices => .root
  | _ => .elsewhere

end Place

/-- The directories inside of the root of every system. -/
def systemDirectories : List String :=
  [ "bin", "boot", "dev", "etc", "home", "lib", "media", "mnt", "opt", "proc", "root", "run",
    "sbin", "srv", "sys", "tmp", "usr", "var" ]

/-- Most bytes of a name. -/
def maxNameBytes : Nat := 255

/-- Most bytes of a path. -/
def maxPathBytes : Nat := 4095

/-- The steps of a path.  Slashes in a row count as one. -/
def steps (path : String) : List String :=
  (path.splitOn "/").filter (· != "")

/-- The place that a path starts from. -/
def origin (path : String) : Except Refusal Place :=
  if path.isEmpty then .error .missing
  else if maxPathBytes < path.utf8ByteSize then .error .tooLong
  else .ok (if path.startsWith "/" then .root else .home)

/-- Files by name, the latest content of a name first. -/
structure Directory where
  files : List (String × List UInt8)
  deriving Repr, DecidableEq

namespace Directory

/-- A directory of texts. -/
def ofTexts (texts : List (String × String)) : Directory :=
  ⟨texts.map fun file => (file.1, MidiFile.textBytes file.2)⟩

/-- What has a name inside of a place. -/
def inside? (directory : Directory) (name : String) : Place → Option Place
  | .home => (directory.files.lookup name).map fun _ => .file name
  | .root =>
      if name = "dev" then some .devices
      else if systemDirectories.contains name then some .elsewhere
      else none
  | .devices => if name = "null" then some .nullDevice else none
  | _ => none

/-- Take one step from a place. -/
def enter (directory : Directory) (place : Place) (step : String) : Except Refusal Place :=
  if !place.isDirectory then .error .notDirectory
  else if step = "." then .ok place
  else if step = ".." then .ok place.parent
  else if maxNameBytes < step.utf8ByteSize then .error .tooLong
  else
    match directory.inside? step place with
    | some next => .ok next
    | none => .error .missing

/-- The content of the file at a path.  A path that ends in a slash leads to a
directory. -/
def read (directory : Directory) (path : String) : Except Refusal (List UInt8) := do
  let ending := if path.endsWith "/" then ["."] else []
  match ← (steps path ++ ending).foldlM directory.enter (← origin path) with
  | .file name => return (directory.files.lookup name).getD []
  | .nullDevice => return []
  | _ => throw .isDirectory

/-- The content of the file at a path as text. -/
def readText (directory : Directory) (path : String) : Except Refusal String := do
  let bytes ← directory.read path
  match String.fromUTF8? ⟨bytes.toArray⟩ with
  | some text => return text
  | none => throw .notText

/-- The directory with a file written at a path, which may be a new one.  Files that
are written outside of the directory are not kept. -/
def write (directory : Directory) (path : String) (bytes : List UInt8) :
    Except Refusal Directory := do
  let parent ← (steps path).dropLast.foldlM directory.enter (← origin path)
  if parent.isDirectory && path.endsWith "/" then throw .isDirectory
  let name := (steps path).getLastD "."
  let kept : Directory := ⟨(name, bytes) :: directory.files⟩
  match directory.enter parent name with
  | .ok (.file _) => return kept
  | .ok .nullDevice => return directory
  | .ok _ => throw .isDirectory
  | .error .missing => return if parent = .home then kept else directory
  | .error refusal => throw refusal

end Directory

end MidiScore.CommandLine
