import FlatApi.FileSystem.Path

/-!
# Storage

What the program needs of the place where its files are.  A storage makes one directory at a
time; `Storage.makeDirectories` makes all that lead to one.  A file is never written where it is:
`Storage.replaceText` fills a temporary file beside it first, so that the old file is there until
the new one takes its place.
-/

namespace FlatApi

/-- Files that are there until they get a place of their own or are removed. -/
class Temporaries (m : Type → Type) where
  Temporary : Type
  /-- Makes a new, empty file in a directory that is there already. -/
  create : FilePath → m (Except IoFault Temporary)
  /-- Puts a text into a new file. -/
  fill : Temporary → String → m (Except IoFault Unit)
  /-- Gives a file its place in one step, replacing any other file there. -/
  persist : Temporary → FilePath → m (Except IoFault Unit)
  remove : Temporary → m Unit

/-- Each action is told where, and may be refused. -/
class Storage (m : Type → Type) extends Temporaries m where
  readText : FilePath → m (Except IoFault String)
  /-- Makes one directory, in a directory that is there already. -/
  makeDirectory : FilePath → m (Except IoFault Unit)
  isDirectory : FilePath → m Bool

namespace Storage

section Paths

variable {m : Type → Type} [Monad m]

/-- Does something at a place that is given as a text. -/
def onPath {α : Type} (path : String) (act : FilePath → m (Except IoFault α)) :
    m (Except IoFault α) :=
  match FilePath.ofString path with
  | .error fault => return .error fault
  | .ok p => act p

end Paths

/-! ## Replacing files -/

section Replacing

variable {m : Type → Type} [Monad m] [Temporaries m]

/-- Fills a new file and gives it its place. -/
def settle (t : Temporaries.Temporary m) (p : FilePath) (text : String) :
    m (Except IoFault Unit) := do
  match ← Temporaries.fill t text with
  | .ok () => Temporaries.persist t p
  | .error fault => return .error fault

/-- Puts a text into a file, replacing what was there, by way of a temporary file beside it. -/
def replaceText (p : FilePath) (text : String) : m (Except IoFault Unit) := do
  match ← Temporaries.create (m := m) p.directory with
  | .error fault => return .error fault
  | .ok t => match ← settle t p text with
    | .ok () => return .ok ()
    | .error fault =>
      Temporaries.remove t
      return .error fault

end Replacing

/-! ## Making directories -/

section Making

variable {m : Type → Type} [Monad m] [Storage m]

/-- A directory that could not be made is no failure if it is there already. -/
def madeOr (p : FilePath) (fault : IoFault) : m (Except IoFault Unit) := do
  if ← isDirectory p then return .ok () else return .error fault

/-- Makes a directory.  If something that leads to it is missing, `before` makes that first. -/
def makeAfter (before : m (Except IoFault Unit)) (p : FilePath) : m (Except IoFault Unit) := do
  match ← makeDirectory p with
  | .ok () => return .ok ()
  | .error .notFound => match ← before with
    | .error fault => return .error fault
    | .ok () => match ← makeDirectory p with
      | .ok () => return .ok ()
      | .error fault => madeOr p fault
  | .error fault => madeOr p fault

/-- Makes the directory that these steps lead to, the last one first, and those on the way. -/
def makeSteps (absolute : Bool) : List String → m (Except IoFault Unit)
  | [] => return .ok ()
  | n :: before =>
    makeAfter (makeSteps absolute before)
      { absolute, names := (n :: before).reverse, asDirectory := false }

/-- Makes a directory and those that lead to it, where they are missing.  The ones made before a
failure stay. -/
def makeDirectories (p : FilePath) : m (Except IoFault Unit) :=
  if p.isEmpty then return .ok ()
  else makeAfter (makeSteps p.absolute p.parent.names.reverse) p

end Making

end Storage

end FlatApi
