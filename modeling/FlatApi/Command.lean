import FlatApi.Input
import FlatApi.Manifest

/-!
# The commands

`codegen` writes the artifact for a file of entities; `analyze` lists its symbols and writes
nothing.  Both load the entities, then the type mappings, then the options, and stop at the first
thing that goes wrong.
-/

namespace FlatApi

/-- The files that a command loads. -/
structure InputPaths where
  entities : String
  typeMap : Option String := none
  config : Option String := none
  deriving DecidableEq

inductive ManifestFormat where
  | text
  | json
  deriving DecidableEq

inductive Command where
  /-- The artifact goes where the options say, unless another place is given. -/
  | codegen (inputs : InputPaths) (outputDir outputFile : Option String)
  | analyze (inputs : InputPaths) (format : ManifestFormat)
  deriving DecidableEq

/-! ## Failures -/

/-- What went wrong. -/
inductive FailureCause where
  | load (path : String) (fault : LoadFault)
  | makeDirectory (fault : IoFault)
  | refusal (r : Refusal)
  | write (path : String) (fault : IoFault)
  deriving DecidableEq

namespace FailureCause

/-- The cause in words, followed by its own cause if it has one. -/
def chain : FailureCause → List String
  | .load path (.unreadable fault) => [s!"failed to read {path}: {fault.message}", fault.message]
  | .load path (.invalid reason) => [s!"failed to parse {path}: {reason.message}", reason.message]
  | .makeDirectory fault => [fault.message]
  | .refusal r => [r.message]
  | .write path fault => [s!"failed saving {path}: {fault.message}", fault.message]

end FailureCause

/-- What went wrong, and what was being done. -/
structure Failure where
  doing : String
  cause : FailureCause
  deriving DecidableEq

namespace Failure

/-- The text of one cause behind its mark; further lines of the text are indented as far. -/
def markedLines (mark : String) (text : String) : List String :=
  let margin := String.ofList (List.replicate mark.length ' ')
  match text.splitOn "\n" with
  | [] => []
  | first :: more => (mark ++ first) :: more.map (margin ++ ·)

/-- The causes, numbered if there are several. -/
def causeLines (chain : List String) : List String :=
  match chain with
  | [text] => markedLines "    " text
  | chain =>
    (chain.mapIdx fun i text =>
      markedLines (String.ofList ((toString i).toList.leftpad 5 ' ') ++ ": ") text).flatten

/-- The report on a failure. -/
def lines (f : Failure) : List String :=
  ("Error: " ++ f.doing).splitOn "\n" ++ ["", "Caused by:"] ++ causeLines f.cause.chain

end Failure

/-! ## Writing -/

namespace Output

variable {m : Type → Type} [Monad m] [Temporaries m]

/-- Puts the source into the file with this path. -/
def commitTo (o : Output) (path : String) : ExceptT FailureCause m Unit := do
  match ← Storage.onPath (m := m) path (Storage.replaceText · o.source) with
  | .ok () => return ()
  | .error fault => throw (.write path fault)

/-- Writes the artifact. -/
def commit (o : Output) : ExceptT FailureCause m Unit := o.commitTo o.artifactPath

end Output

/-! ## Running -/

namespace Command

variable {m : Type → Type} [Monad m] [Storage m]

/-- Loads a file, and says what for if that fails. -/
def load {α : Type} (what : String) (ofText : String → Except Yaml.Invalid α) (path : String) :
    ExceptT Failure m α := do
  match ← loadFile (m := m) ofText path with
  | .ok v => return v
  | .error fault => throw { doing := s!"loading {what} from {path}", cause := .load path fault }

/-- Without a file of type mappings only the builtin types have a C type. -/
def loadTypes : Option String → ExceptT Failure m TypeTable
  | none => return .builtins
  | some path => .ofFile <$> load "type map" TypeFile.ofText path

def loadOptions : Option String → ExceptT Failure m Options
  | none => return {}
  | some path => load "options" Options.ofText path

/-- Loads what a command works on. -/
def loadInputs (paths : InputPaths) : ExceptT Failure m (SourceUnit × Setting) := do
  let file ← load "entities" EntityFile.ofText paths.entities
  let types ← loadTypes paths.typeMap
  let options ← loadOptions paths.config
  let forest := Forest.ofEntities file.entities
  return (file.unit, { forest, types := types.lookup, options })

/-- The options with another place for the artifact. -/
def overrideOutput (dir file : Option String) (o : Options) : Options :=
  { o with outputDir := dir.getD o.outputDir, outputFile := file.getD o.outputFile }

/-- Writes the artifact. -/
def runCodegen (paths : InputPaths) (outputDir outputFile : Option String) :
    ExceptT Failure m Unit := do
  let (unit, setting) ← loadInputs paths
  let options := overrideOutput outputDir outputFile setting.options
  match ← Storage.onPath (m := m) options.outputDir Storage.makeDirectories with
  | .ok () => pure ()
  | .error fault =>
    throw
      { doing := s!"creating output directory {options.outputDir}", cause := .makeDirectory fault }
  let doing := s!"generating C API for {unit.source}"
  match generate { setting with options } with
  | .error r => throw { doing, cause := .refusal r }
  | .ok output => output.commit.adapt fun cause => { doing, cause }

/-- Lists the symbols. -/
def runAnalyze (paths : InputPaths) (format : ManifestFormat) : ExceptT Failure m String := do
  let (unit, setting) ← loadInputs paths
  match generate setting with
  | .error r => throw { doing := s!"analyzing {unit.source}", cause := .refusal r }
  | .ok output => match format with
    | .text => return output.manifestText
    | .json => return output.manifestJson ++ "\n"

/-- Runs a command.  The answer is the text for standard output. -/
def run : Command → m (Except Failure String)
  | .codegen paths outputDir outputFile => do
    match ← (runCodegen paths outputDir outputFile).run with
    | .ok () => return .ok ""
    | .error f => return .error f
  | .analyze paths format => (runAnalyze paths format).run

end Command

end FlatApi
