/-
Source files: paths, and what can go wrong when one is read.

A path is its components, without empty ones and single dots; components of
two dots are kept, because what they lead to depends on the folders there
are. A disk is a working folder with files and folders in it, as a table. A
file is read as bytes, and its bytes are source text if they are UTF-8, with
every line end brought to a line feed.
-/
import Lox.Text.Lines
import Lox.Text.Quoted

namespace Lox

-- ================================================================== paths

/-- A path: what it starts with (nothing if it is relative) and its
components. -/
structure Path where
  root : String := ""
  parts : List String
deriving DecidableEq, Repr

namespace Path

/-- The components of a path text: cut at slashes, empty ones left out. -/
def pieces : List Char → List (List Char)
  | [] => [[]]
  | c :: rest =>
      if c = '/' then [] :: pieces rest
      else match pieces rest with
        | [] => [[c]]
        | piece :: more => (c :: piece) :: more

/-- What a path text starts with: nothing, a slash, or exactly two. -/
def rootOf (cs : List Char) : String :=
  match (cs.takeWhile (· == '/')).length with
  | 0 => ""
  | 2 => "//"
  | _ => "/"

def ofText (s : String) : Path :=
  { root := rootOf s.toList,
    parts := ((pieces s.toList).map String.ofList).filter fun part => part != "" && part != "." }

/-- The text of a path; a relative path without components is a dot. -/
def text (p : Path) : String :=
  if p.root.isEmpty && p.parts.isEmpty then "."
  else p.root ++ String.intercalate "/" p.parts

end Path

-- ================================================================== faults

/-- Why a file cannot be read. -/
inductive ReadFault where
  | missing
  | denied
  | notFolder
  | isFolder
  /-- A component, or the whole path, is longer than the system allows. -/
  | nameTooLong
deriving DecidableEq, Repr

/-- The system's number and words for a fault. -/
def ReadFault.text : ReadFault → String
  | .missing => "[Errno 2] No such file or directory"
  | .denied => "[Errno 13] Permission denied"
  | .notFolder => "[Errno 20] Not a directory"
  | .isFolder => "[Errno 21] Is a directory"
  | .nameTooLong => "[Errno 36] File name too long"

/-- The message for a path that cannot be read. -/
def ReadFault.message (fault : ReadFault) (path : Path) : String :=
  fault.text ++ ": " ++ Text.quoted path.text

/-- How many bytes a component may have. -/
def maxPartBytes : Nat := 255

/-- How many bytes a path may have. -/
def maxPathBytes : Nat := 4095

-- =================================================================== disks

inductive DiskEntry where
  | file (bytes : ByteArray)
  | folder

/-- Files and folders by the components of their paths, relative to the
working folder. -/
structure Disk where
  entries : List (List String × DiskEntry) := []

namespace Disk

/-- What stands at a place below the working folder. A folder need not be in
the table if something in it is. -/
def find? (d : Disk) (place : List String) : Option DiskEntry :=
  match d.entries.find? (·.1 == place) with
  | some (_, entry) => some entry
  | none =>
      if place.isEmpty || d.entries.any (fun e => place.isPrefixOf e.1) then some .folder
      else none

/-- Follow components from a place, or from outside of the working folder,
where nothing is known but that folders lead up and down. -/
def walk (d : Disk) : Option (List String) → List String → Except ReadFault (Option DiskEntry)
  | none, [] => .ok none
  | some place, [] =>
      match d.find? place with
      | some entry => .ok (some entry)
      | none => .error .missing
  | none, part :: rest =>
      if part = ".." then d.walk none rest
      else if maxPartBytes < part.utf8ByteSize then .error .nameTooLong
      else .error .missing
  | some place, part :: rest =>
      match d.find? place with
      | none => .error .missing
      | some (.file _) => .error .notFolder
      | some .folder =>
          if part = ".." then
            d.walk (if place.isEmpty then none else some place.dropLast) rest
          else if maxPartBytes < part.utf8ByteSize then .error .nameTooLong
          else d.walk (some (place ++ [part])) rest

/-- The bytes of the file at a path. -/
def read (d : Disk) (path : Path) : Except ReadFault ByteArray :=
  if maxPathBytes < path.text.utf8ByteSize then .error .nameTooLong
  else
    match d.walk (if path.root.isEmpty then some [] else none) path.parts with
    | .error fault => .error fault
    | .ok (some (.file bytes)) => .ok bytes
    | .ok _ => .error .isFolder

end Disk

-- ============================================================ source text

/-- The source text of some bytes: strict UTF-8, line ends unified. -/
def sourceText? (bytes : ByteArray) : Option String :=
  (String.fromUTF8? bytes).map fun s => String.ofList (Text.unifyLineEnds s.toList)

end Lox
