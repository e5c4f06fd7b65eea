import FlatApi.Storage

/-!
# File systems as values

A file system is a list of entries by location, with a working directory.  A temporary file is an
entry with a name that no other entry has; it gets its place by being renamed.

There are no symbolic links.  An entry is a file or a directory, one chain of names leads to it
from the root, and two dots go back along that chain.
-/

namespace FlatApi

inductive Item where
  | file (bytes : ByteArray)
  | directory

namespace Item

/-- Two files are one item if their octets agree. -/
def decEq : DecidableEq Item
  | .file a, .file b =>
    match ByteArray.instDecidableEq a b with
    | isTrue h => isTrue (h ▸ rfl)
    | isFalse h => isFalse fun e => h (Item.file.inj e)
  | .directory, .directory => isTrue rfl
  | .file _, .directory => isFalse fun e => Item.noConfusion e
  | .directory, .file _ => isFalse fun e => Item.noConfusion e

instance : DecidableEq Item := decEq

end Item

/-- The names that lead to an entry from the root, the last one first. -/
abbrev Location := List String

/-- What is done with an entry. -/
inductive FileAction where
  /-- Going on from a directory. -/
  | search
  | read
  | create
  | write
  /-- Putting another file there. -/
  | replace
  deriving DecidableEq

structure FileSystem where
  /-- All entries but the root. -/
  entries : List (Location × Item) := []
  workingDirectory : Location := []
  /-- What fails although the entries allow it, such as for missing rights or space. -/
  refuses : FileAction → Location → Option IoFault := fun _ _ => none

namespace FileSystem

def permit (fs : FileSystem) (a : FileAction) (loc : Location) : Except IoFault Unit :=
  match fs.refuses a loc with
  | none => .ok ()
  | some fault => .error fault

def get? (fs : FileSystem) : Location → Option Item
  | [] => some .directory
  | loc => fs.entries.lookup loc

def insert (fs : FileSystem) (loc : Location) (i : Item) : FileSystem :=
  { fs with entries := (loc, i) :: fs.entries.filter (·.1 != loc) }

def erase (fs : FileSystem) (loc : Location) : FileSystem :=
  { fs with entries := fs.entries.filter (·.1 != loc) }

/-! ## Finding an entry -/

/-- Where a name leads in a directory. -/
def follow (loc : Location) (n : String) : Location :=
  if n == "." then loc else if n == ".." then loc.tail else n :: loc

/-- Goes on from a location; each name needs a directory to stand in, and must not be too long. -/
def walk (fs : FileSystem) (loc : Location) : List String → Except IoFault Location
  | [] => .ok loc
  | n :: names =>
    match fs.get? loc with
    | none => .error .notFound
    | some (.file _) => .error .notDirectory
    | some .directory => do
      fs.permit .search loc
      if FilePath.nameLimit < n.utf8ByteSize then .error .nameTooLong
      else fs.walk (follow loc n) names

def start (fs : FileSystem) (p : FilePath) : Location :=
  if p.absolute then [] else fs.workingDirectory

/-- Where a path leads.  There need not be an entry yet. -/
def locate (fs : FileSystem) (p : FilePath) : Except IoFault Location :=
  if p.isEmpty then .error .notFound else fs.walk (fs.start p) p.names

/-- The entry that a path leads to. -/
def find (fs : FileSystem) (p : FilePath) : Except IoFault Item := do
  match fs.get? (← fs.locate p) with
  | none => .error .notFound
  | some (.file bytes) => if p.asDirectory then .error .notDirectory else .ok (.file bytes)
  | some .directory => .ok .directory

def isDirectory (fs : FileSystem) (p : FilePath) : Bool :=
  match fs.find p with
  | .ok .directory => true
  | _ => false

/-! ## Reading -/

def readText (fs : FileSystem) (p : FilePath) : Except IoFault String := do
  match ← fs.find p with
  | .directory => .error .isDirectory
  | .file bytes =>
    fs.permit .read (← fs.locate p)
    match String.fromUTF8? bytes with
    | some text => return text
    | none => throw .notText

/-! ## Making directories -/

/-- A new directory at a location where nothing is yet. -/
def makeDirectory (fs : FileSystem) (p : FilePath) : Except IoFault FileSystem := do
  let loc ← fs.locate p
  if (fs.get? loc).isSome then throw .exists
  fs.permit .create loc
  return fs.insert loc .directory

/-! ## Writing -/

/-- A name that no entry has, since it is longer than all names. -/
def unusedName (fs : FileSystem) : String :=
  let longest := fs.entries.foldl (fun n (loc, _) => max n (loc.head?.elim 0 String.length)) 0
  String.ofList (List.replicate (longest + 1) 't')

/-- An empty file with a new name in a directory. -/
def createTemporary (fs : FileSystem) (dir : FilePath) :
    Except IoFault (Location × FileSystem) := do
  let loc ← fs.locate dir
  match fs.get? loc with
  | none => .error .notFound
  | some (.file _) => .error .notDirectory
  | some .directory =>
    let temporary := fs.unusedName :: loc
    fs.permit .create temporary
    return (temporary, fs.insert temporary (.file .empty))

/-- Fills a file. -/
def write (fs : FileSystem) (loc : Location) (bytes : ByteArray) : Except IoFault FileSystem := do
  fs.permit .write loc
  return fs.insert loc (.file bytes)

/-- Gives a file a new location, where it replaces any other file. -/
def rename (fs : FileSystem) (source : Location) (target : FilePath) :
    Except IoFault FileSystem := do
  let loc ← fs.locate target
  match fs.get? source with
  | none => .error .notFound
  | some i =>
    if !target.namesEntry then .error .busy
    else if target.asDirectory then .error .notDirectory
    else if fs.get? loc = some .directory then .error .isDirectory
    else do
      fs.permit .replace loc
      return (fs.erase source).insert loc i

/-! ## As a storage -/

/-- A change that may be refused, in which case nothing changes. -/
def change (act : FileSystem → Except IoFault FileSystem) :
    StateM FileSystem (Except IoFault Unit) :=
  modifyGet fun fs =>
    match act fs with
    | .ok fs => (.ok (), fs)
    | .error fault => (.error fault, fs)

instance temporaries : Temporaries (StateM FileSystem) where
  Temporary := Location
  create dir := modifyGet fun fs =>
    match fs.createTemporary dir with
    | .ok (temporary, fs) => (.ok temporary, fs)
    | .error fault => (.error fault, fs)
  fill temporary text := change (·.write temporary text.toUTF8)
  persist temporary p := change (·.rename temporary p)
  remove temporary := modify (·.erase temporary)

instance : Storage (StateM FileSystem) where
  readText p := do return (← get).readText p
  makeDirectory p := change (·.makeDirectory p)
  isDirectory p := do return (← get).isDirectory p

end FileSystem

end FlatApi
