import Unravel.Files.Encoding
import Unravel.Files.Path

/-!
Contract: files and directories as a value.

A disk maps places to directories and files. A path is followed name by name:
every name before the last has to be a directory, also one that double dots
lead out of again.

`store` replaces a file as a whole: the old file is gone at once, and whoever
still has it open writes into nothing. The new content is first written under a
longer name next to the old one, so the names it can be stored under are
shorter than those of other files. `openFresh` empties the file that is there,
or makes one, and hands out a handle that writes from the start on.

A file's serial tells it from an earlier file of the same place.
-/

namespace Unravel

inductive Entry where
  | directory
  | file (serial : Nat) (content : ByteArray)

structure Disk where
  entries : List (Place × Entry)
  next : Nat

/-- Why a path leads nowhere, or a file cannot be written. -/
inductive DiskFault where
  | missing
  | nameTooLong
  | zeroCharacter
  | alreadyExists
  | notDirectory
  | isDirectory
  | inUse
  | unencodable
deriving DecidableEq, Repr

def DiskFault.message : DiskFault → String
  | .missing => "No such file or directory"
  | .nameTooLong => "File name too long"
  | .zeroCharacter => "embedded null byte"
  | .alreadyExists => "File exists"
  | .notDirectory => "Not a directory"
  | .isDirectory => "Is a directory"
  | .inUse => "Device or resource busy"
  | .unencodable => "character without bytes in the encoding"

/-- An open file and how far it has been written. -/
structure Handle where
  place : Place
  serial : Nat
  position : Nat
deriving DecidableEq, Repr

abbrev DiskM := EStateM DiskFault Disk

namespace Disk

def empty : Disk := ⟨[], 0⟩

def find? (disk : Disk) (place : Place) : Option Entry :=
  if place.isBase then some .directory else disk.entries.lookup place

/-- Writes an entry where there is one of its place, or as the last one. -/
def putEntry (place : Place) (entry : Entry) : List (Place × Entry) → List (Place × Entry)
  | [] => [(place, entry)]
  | (other, old) :: rest =>
    if other = place then (place, entry) :: rest else (other, old) :: putEntry place entry rest

def put (disk : Disk) (place : Place) (entry : Entry) : Disk :=
  { disk with entries := putEntry place entry disk.entries }

def remove (disk : Disk) (place : Place) : Disk :=
  { disk with entries := disk.entries.filter fun entry => entry.1 != place }

def content? (disk : Disk) (place : Place) : Option ByteArray :=
  match disk.find? place with
  | some (.file _ content) => some content
  | _ => none

/-! ## Following paths -/

def longestName : Nat := 255

def longestPath : Nat := 4095

/-- Goes on from a place, which has to be a directory, by one name. -/
def follow (disk : Disk) (place : Place) (name : String) : Except DiskFault Place :=
  match disk.find? place with
  | none => .error .missing
  | some (.file _ _) => .error .notDirectory
  | some .directory =>
    if name = ".." then .ok place.above
    else if longestName < name.utf8ByteSize then .error .nameTooLong
    else .ok (place ++ [name])

/-- The place that a path leads to, whether there is anything or not. -/
def locate (disk : Disk) (path : Path) : Except DiskFault Place :=
  if path.toText.toList.contains '\x00' then .error .zeroCharacter
  else if longestPath < path.toText.utf8ByteSize then .error .nameTooLong
  else path.parts.foldlM disk.follow path.start

def lookup (disk : Disk) (path : Path) : Except DiskFault Entry := do
  match disk.find? (← disk.locate path) with
  | some entry => return entry
  | none => .error .missing

def isDirectory (disk : Disk) (path : Path) : Bool :=
  match disk.lookup path with
  | .ok .directory => true
  | _ => false

/-- All files below the working directory, in ascending order of their places. -/
def files (disk : Disk) : List (String × ByteArray) :=
  let found := disk.entries.filterMap fun entry =>
    match entry.2 with
    | .file _ content => if entry.1.isWithin then some (entry.1.toText, content) else none
    | .directory => none
  found.mergeSort fun left right => left.1 ≤ right.1

/-! ## Writing -/

def makeDirectory (path : Path) : DiskM Unit := do
  match (← get).locate path with
  | .error fault => throw fault
  | .ok place =>
    if ((← get).find? place).isSome then throw .alreadyExists
    else modify fun disk => disk.put place .directory

/-- Makes a directory, unless it is there. -/
def haveDirectory (path : Path) : DiskM Unit := do
  match (makeDirectory path).run (← get) with
  | .ok _ disk => set disk
  | .error fault _ => if (← get).isDirectory path then pure () else throw fault

/-- Makes a directory and those on the way to it, unless they are there. The
names of its path are given in reverse. -/
def haveDirectories (root : String) : List String → DiskM Unit
  | [] => haveDirectory ⟨root, []⟩
  | name :: above => do
      let path : Path := ⟨root, (name :: above).reverse⟩
      match (makeDirectory path).run (← get) with
      | .error .missing _ =>
        haveDirectories root above
        haveDirectory path
      | _ => haveDirectory path

def makeWay (path : Path) : DiskM Unit :=
  haveDirectories path.root path.parent.parts.reverse

def addFile (disk : Disk) (place : Place) (content : ByteArray) : Disk :=
  { disk.put place (.file disk.next content) with next := disk.next + 1 }

/-- Puts a new file in a place; the result is its serial. -/
def create (place : Place) (content : ByteArray) : DiskM Nat :=
  modifyGet fun disk => (disk.next, disk.addFile place content)

def find (path : Path) : DiskM Place := do
  match (← get).locate path with
  | .ok place => return place
  | .error fault => throw fault

/-- Puts a file in a place, instead of the file that is there. -/
def replace (place : Place) (content : ByteArray) : DiskM Unit := do
  match (← get).find? place with
  | some .directory => throw .isDirectory
  | _ =>
    let _ ← create place content

/-- The name that content is first written under: a dot and the name, another
dot and eight characters. -/
def draftPath (path : Path) : Path :=
  ⟨path.root, path.parent.parts ++ ["." ++ path.name ++ ".12345678"]⟩

/-- Replaces a file by a text, as a whole, with the directories it needs. -/
def store (path : Path) (encoding : Encoding) (text : String) : DiskM Unit := do
  makeWay path
  let _ ← find (draftPath path)
  match encoding.encode text with
  | none => throw .unencodable
  | some content =>
    if path.name = "" || path.name = ".." then throw .inUse
    else replace (← find path) content

/-- Opens a file for writing from its start, emptied, with the directories it
needs. -/
def openFresh (path : Path) : DiskM Handle := do
  makeWay path
  let place ← find path
  match (← get).find? place with
  | some .directory => throw .isDirectory
  | some (.file serial _) =>
    modify fun disk => disk.put place (.file serial .empty)
    return ⟨place, serial, 0⟩
  | none => return ⟨place, ← create place .empty, 0⟩

/-- Puts a file where a path leads, with the directories it needs. -/
def install (path : Path) (content : ByteArray) : DiskM Unit := do
  makeWay path
  replace (← find path) content

/-- Bytes written over others from a position on; a gap is filled with zeros. -/
def overwrite (content : ByteArray) (position : Nat) (bytes : ByteArray) : ByteArray :=
  let gap := ⟨Array.replicate (position - content.size) 0⟩
  content.extract 0 position ++ gap ++ bytes ++
    content.extract (position + bytes.size) content.size

/-- Writes through a handle, into nothing when its file is gone. -/
def write (disk : Disk) (handle : Handle) (bytes : ByteArray) : Disk × Handle :=
  let moved := { handle with position := handle.position + bytes.size }
  match disk.find? handle.place with
  | some (.file serial content) =>
    if serial = handle.serial then
      (disk.put handle.place (.file serial (overwrite content handle.position bytes)), moved)
    else (disk, moved)
  | _ => (disk, moved)

end Disk

end Unravel
