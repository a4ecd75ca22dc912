import Std.Data.ExtTreeSet
import ReplicatedTable.Error

/-!
# Directories

Directories and files below a working directory, and how a path leads to them. Of what lies outside little is
known: there, every path leads to a directory, except for those to devices, and for those into the directory
of processes, where nothing new can be made.
-/
namespace ReplicatedTable.Node
open Std Text

/-- A path as it is written: its parts between slashes, from the root if it starts with a slash. -/
structure Path where
  absolute : Bool := false
  parts : List String
  deriving DecidableEq, Repr

namespace Path

def ofText (s : String) : Path :=
  ⟨s.startsWith "/", (splitAt '/' s).filter (· ≠ "")⟩

/-- The names of a path: a point stands for nothing, except at the start. -/
def names (p : Path) : List String :=
  match p.absolute, p.parts with
  | false, "." :: rest => "." :: rest.filter (· ≠ ".")
  | _, parts => parts.filter (· ≠ ".")

/-- The paths above a path, the longest first. -/
def above (p : Path) : List Path :=
  let lengths := (List.range p.names.length).reverse
  (lengths.filter fun n => p.absolute || n ≠ 0).map fun n => ⟨p.absolute, p.names.take n⟩

end Path

/-- Where a path leads. -/
inductive Location where
  /-- Below the working directory. -/
  | below (names : List String)
  /-- In another place, by the names from the root. -/
  | outside (names : List String)
  /-- Above the working directory, or behind a way that leads there. -/
  | higher
  deriving DecidableEq, Repr

inductive Kind where
  | file
  | directory
  deriving DecidableEq, Repr

structure FileTree where
  directories : ExtTreeSet String := ∅
  files : ExtTreeSet String := ∅

namespace Location

/-- The path of a place below the working directory. -/
def pathOf (names : List String) : String := "/".intercalate names

def parent : Location → Location
  | .below [] | .higher => .higher
  | .below names => .below names.dropLast
  | .outside names => .outside names.dropLast

def child (name : String) : Location → Location
  | .below names => .below (names ++ [name])
  | .outside names => .outside (names ++ [name])
  | .higher => .higher

end Location

namespace FileTree
open Location

/-- How many bytes a name may have. -/
def longestName : Nat := 255

/-- How many bytes a path may have. -/
def longestPath : Nat := 4095

def devices : List (List String) :=
  ["null", "zero", "full", "random", "urandom", "tty"].map fun name => ["dev", name]

/-- What is at a location. -/
def kind? (t : FileTree) : Location → Option Kind
  | .below [] | .higher => some .directory
  | .below names =>
    if t.files.contains (pathOf names) then some .file
    else if t.directories.contains (pathOf names) then some .directory
    else none
  | .outside ("proc" :: _ :: _) => none
  | .outside names => some (if names ∈ devices then .file else .directory)

/-- Follows the parts of a path. Only directories lead on, and what is missing leads nowhere. -/
def follow (t : FileTree) (l : Location) : (parts : List String) → Except IoFault Location
  | [] => .ok l
  | part :: parts =>
    if t.kind? l = some .file then .error .notDirectory
    else if part = "." then follow t l parts
    else if part = ".." then follow t l.parent parts
    else if longestName < part.utf8ByteSize then .error .nameTooLong
    else if (t.kind? (l.child part)).isSome then follow t (l.child part) parts
    else .error .notFound

def start (p : Path) : Location := if p.absolute then .outside [] else .below []

/-- Where a path leads, if there is something. -/
def locate (t : FileTree) (p : Path) : Except IoFault Location := t.follow (start p) p.parts

def isDirectory (t : FileTree) (p : Path) : Bool :=
  match t.locate p with
  | .ok l => t.kind? l = some .directory
  | .error _ => false

/-- The path below the working directory of the file that a path leads to. -/
def file? (t : FileTree) (path : String) : Option String :=
  match t.locate (.ofText path) with
  | .ok (.below names) => if t.kind? (.below names) = some .file then some (pathOf names) else none
  | _ => none

/-- Makes a new directory at a location. -/
def add (t : FileTree) : Location → FileTree × Except IoFault Unit
  | .below names => ({ t with directories := t.directories.insert (pathOf names) }, .ok ())
  | _ => (t, .error .notFound)

/-- Makes the directory that the last part of a path names. -/
def makeDirectory (t : FileTree) (p : Path) : FileTree × Except IoFault Unit :=
  match p.parts.getLast? with
  | none => (t, .error (if p.absolute then .fileExists else .notFound))
  | some name =>
    match t.locate { p with parts := p.parts.dropLast } with
    | .error fault => (t, .error fault)
    | .ok l =>
      if t.kind? l = some .file then (t, .error .notDirectory)
      else if name = "." ∨ name = ".." then (t, .error .fileExists)
      else if longestName < name.utf8ByteSize then (t, .error .nameTooLong)
      else if (t.kind? (l.child name)).isSome then (t, .error .fileExists)
      else t.add (l.child name)

/-- Makes the first directory of a list. If the directory above it is missing, it is made after the others. -/
def makeFirst (t : FileTree) : List Path → FileTree × Except IoFault Unit
  | [] => (t, .ok ())
  | p :: others =>
    match t.makeDirectory p with
    | (t, .error .notFound) =>
      match t.makeFirst others with
      | (t, .error fault) => (t, .error fault)
      | (t, .ok ()) => reached (t.makeDirectory p) p
    | made => reached made p
where
  /-- It is as good if the directory is there already. -/
  reached (made : FileTree × Except IoFault Unit) (p : Path) : FileTree × Except IoFault Unit :=
    match made with
    | (t, .ok ()) => (t, .ok ())
    | (t, .error fault) => (t, if t.isDirectory p then .ok () else .error fault)

/-- Makes a directory and all that are missing above it. -/
def createDirectories (t : FileTree) (path : String) : FileTree × Except IoFault Unit :=
  if path = "" then (t, .ok ())
  else if path.toList.contains '\x00' then (t, .error .nulInName)
  else if longestPath < path.utf8ByteSize then (t, .error .nameTooLong)
  else t.makeFirst (.ofText path :: (Path.ofText path).above)

/-- Makes one directory after the other until one cannot be made. -/
def createAll (t : FileTree) : List String → FileTree × Except IoFault Unit
  | [] => (t, .ok ())
  | path :: rest =>
    match t.createDirectories path with
    | (t, .ok ()) => t.createAll rest
    | (t, .error fault) => (t, .error fault)

end FileTree

end ReplicatedTable.Node
