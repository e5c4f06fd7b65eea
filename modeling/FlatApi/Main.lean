import FlatApi.Command.Help

/-!
# The program

The command line over the files of the machine.
-/

namespace FlatApi

namespace IoFault

/-- The fault that the machine reports. -/
def ofError (e : IO.Error) : IoFault :=
  match e with
  | .noFileOrDirectory .. | .noSuchThing .. => .notFound
  | .alreadyExists .. => .exists
  | .resourceBusy .. => .busy
  | .inappropriateType _ code text => ofCode code (.other text)
  | .invalidArgument _ code _ => ofCode code (.other (toString e))
  | _ => .other (toString e)
where
  /-- Some calls report the number of a fault with a minus sign. -/
  ofCode (code : UInt32) (fault : IoFault) : IoFault :=
    match min code (0 - code) with
    | 20 => .notDirectory
    | 21 => .isDirectory
    | 36 => .nameTooLong
    | _ => fault

end IoFault

/-- Runs an action of the machine; what it throws is a fault. -/
def attempt {α : Type} (act : IO α) : IO (Except IoFault α) := do
  match ← act.toBaseIO with
  | .ok a => return .ok a
  | .error e => return .error (.ofError e)

/-- A file that was made under a name of its own, and is open. -/
structure OpenFile where
  path : String
  handle : IO.FS.Handle

/-- Makes a new file in a directory. -/
def OpenFile.create (dir : FilePath) : IO OpenFile := do
  let mark ← IO.rand 0 0xFFFFFFFF
  let path := dir.text ++ "/.tmp" ++ toString mark
  return { path, handle := ← IO.FS.Handle.mk path .writeNew }

/-- Fills a file up to its end. -/
def OpenFile.fill (f : OpenFile) (text : String) : IO Unit := do
  f.handle.putStr text
  f.handle.flush

instance : Temporaries IO where
  Temporary := OpenFile
  create dir := attempt (OpenFile.create dir)
  fill f text := attempt (f.fill text)
  persist f p := attempt (IO.FS.rename f.path p.text)
  -- a file that cannot be removed stays
  remove f := discard (attempt (IO.FS.removeFile f.path))

instance : Storage IO where
  readText p := do
    match ← attempt (IO.FS.readBinFile p.text) with
    | .error fault => return .error fault
    | .ok bytes => match String.fromUTF8? bytes with
      | some text => return .ok text
      | none => return .error .notText
  makeDirectory p := attempt (IO.FS.createDir p.text)
  -- only behind a directory can a path go on
  isDirectory p := do return (← attempt (IO.FS.realPath (p.text ++ "/."))).toBool

end FlatApi

open FlatApi in
def main (args : List String) : IO UInt32 := do
  let outcome ← Outcome.ofArguments (m := IO) args
  match outcome with
  | .done output => IO.print output
  | .failed f => f.lines.forM IO.eprintln
  | .misused e => IO.eprintln s!"error: {e.message}"
  return UInt32.ofNat outcome.exitCode
