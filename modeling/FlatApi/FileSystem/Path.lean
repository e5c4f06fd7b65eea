import FlatApi.FileSystem.Fault

/-!
# Paths

A path is written as names between slashes.  It says how to get to a file from the root or from
the working directory.  Not every text is a path, and not every path can lead anywhere: paths and
names are limited in length, which is counted in octets.

A path says all there is to say about the way: no name stands for another path, as a symbolic link
would.
-/

namespace FlatApi

/-- A path that was taken apart. -/
structure FilePath where
  absolute : Bool
  /-- The names, with single and double dots. -/
  names : List String
  /-- A slash at the end: only a directory can be meant. -/
  asDirectory : Bool
  deriving DecidableEq

namespace FilePath

/-- A path is shorter than this. -/
def lengthLimit : Nat := 4096

/-- A name is at most this long. -/
def nameLimit : Nat := 255

/-- The names between slashes; `begun` is the name before the text, in reverse.  Slashes with
nothing between them count as one. -/
def namesIn (begun : List Char) : List Char → List String
  | [] => name
  | c :: text => if c == '/' then name ++ namesIn [] text else namesIn (c :: begun) text
where
  name : List String := if begun.isEmpty then [] else [String.ofList begun.reverse]

/-- The parts of a path, as they are written. -/
def split (s : String) : FilePath :=
  { absolute := s.startsWith "/"
    names := namesIn [] s.toList
    asDirectory := s.endsWith "/" }

def ofString (s : String) : Except IoFault FilePath :=
  if s.toList.contains '\x00' then .error .zeroInPath
  else if lengthLimit ≤ s.utf8ByteSize then .error .nameTooLong
  else .ok (split s)

/-- Nothing is written, so nothing can be meant. -/
def isEmpty (p : FilePath) : Bool := !p.absolute && p.names.isEmpty

/-- The last name is that of an entry.  The root has none, and dots are none. -/
def namesEntry (p : FilePath) : Bool := p.names.getLast?.any fun n => n != "." && n != ".."

/-- The last name is the name of an entry, not a way to a directory. -/
def endsInName (p : FilePath) : Bool := !p.asDirectory && p.namesEntry

/-- The names without single dots, which lead nowhere. -/
def steps (p : FilePath) : List String := p.names.filter (· != ".")

/-- The path without its last step. -/
def parent (p : FilePath) : FilePath :=
  { absolute := p.absolute, names := p.steps.dropLast, asDirectory := false }

/-- The directory that the last step is in.  If nothing leads to it, that is the working
directory. -/
def directory (p : FilePath) : FilePath :=
  if p.steps.isEmpty || p.parent.isEmpty then
    { absolute := false, names := ["."], asDirectory := false }
  else p.parent

/-- The path as it is written, with single slashes. -/
def text (p : FilePath) : String :=
  let names := "/".intercalate p.names
  (if p.absolute then "/" else "") ++ names
    ++ (if p.asDirectory && !p.names.isEmpty then "/" else "")

end FilePath

end FlatApi
