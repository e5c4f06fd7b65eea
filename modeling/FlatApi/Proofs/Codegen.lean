import FlatApi.Command.Help
import FlatApi.Proofs.Commit
import FlatApi.Proofs.Directories
import FlatApi.Proofs.Jobs

/-!
# What a run of `codegen` does to the files

A run has stages: it loads the entities, the type mappings and the options, makes the output
directory, generates the source and writes it.  Whether the directory can be made and the source be
written is told by the file system alone (`FileSystem.CanMake`, `FileSystem.CanPut`).

* A run reports the first stage that fails (`runFrom_runCodegen_of_fails`).  It leaves all files as
  they were; what it may leave behind are directories on the way to the output directory.
* A run in which no stage fails puts the generated source into the artifact
  (`runFrom_runCodegen_of_succeeds`), and all other files are as they were.

`codegen_run` is about every command line that asks for such a run.
-/

namespace FlatApi

/-! ## Loading -/

/-- What is loaded for a run. -/
structure Inputs where
  file : EntityFile
  types : TypeTable
  options : Options

namespace FileSystem

/-- What is loaded from a file. -/
def load {α : Type} (fs : FileSystem) (ofText : String → Except Yaml.Invalid α)
    (path : String) : Except LoadFault α := do
  let text ← (FilePath.ofString path >>= fs.readText).mapError .unreadable
  (ofText text).mapError .invalid

/-- Without a file of type mappings only the builtin types have a C type. -/
def loadTypes (fs : FileSystem) : Option String → Except LoadFault TypeTable
  | none => .ok .builtins
  | some path => .ofFile <$> fs.load TypeFile.ofText path

def loadOptions (fs : FileSystem) : Option String → Except LoadFault Options
  | none => .ok {}
  | some path => fs.load Options.ofText path

/-- All input files can be loaded, and this is what they hold. -/
structure Holds (fs : FileSystem) (paths : InputPaths) (i : Inputs) : Prop where
  file : fs.load EntityFile.ofText paths.entities = .ok i.file
  types : fs.loadTypes paths.typeMap = .ok i.types
  options : fs.loadOptions paths.config = .ok i.options

end FileSystem

/-- The report on a file that cannot be loaded. -/
def Failure.loading (what path : String) (fault : LoadFault) : Failure :=
  { doing := s!"loading {what} from {path}", cause := .load path fault }

/-- Why loading fails: for the first file that cannot be loaded. -/
inductive LoadFails (fs : FileSystem) (paths : InputPaths) : Failure → Prop where
  | entities {fault : LoadFault} :
      fs.load EntityFile.ofText paths.entities = .error fault →
      LoadFails fs paths (.loading "entities" paths.entities fault)
  | types {file : EntityFile} {path : String} {fault : LoadFault} :
      fs.load EntityFile.ofText paths.entities = .ok file →
      paths.typeMap = some path → fs.load TypeFile.ofText path = .error fault →
      LoadFails fs paths (.loading "type map" path fault)
  | options {file : EntityFile} {types : TypeTable} {path : String} {fault : LoadFault} :
      fs.load EntityFile.ofText paths.entities = .ok file →
      fs.loadTypes paths.typeMap = .ok types →
      paths.config = some path → fs.load Options.ofText path = .error fault →
      LoadFails fs paths (.loading "options" path fault)

section Loading

variable {fs : FileSystem} {paths : InputPaths} {α : Type}

/-- Loading a file reads it and changes nothing. -/
theorem run_loadFile (fs : FileSystem) (ofText : String → Except Yaml.Invalid α) (path : String) :
    (loadFile ofText path : StateM FileSystem (Except LoadFault α)).run fs =
      (fs.load ofText path, fs) := by
  have hread : (Storage.onPath path Storage.readText : StateM FileSystem _).run fs =
      (FilePath.ofString path >>= fs.readText, fs) := by
    rw [Storage.onPath]
    cases FilePath.ofString path <;> rfl
  rw [loadFile, run_bind, hread, FileSystem.load]
  cases FilePath.ofString path >>= fs.readText with
  | error fault => rfl
  | ok text =>
    dsimp only [Except.mapError, bind, Except.bind]
    cases ofText text <;> rfl

/-- A file that cannot be loaded is reported with what it should have held. -/
theorem runFrom_load (fs : FileSystem) (what : String)
    (ofText : String → Except Yaml.Invalid α) (path : String) :
    runFrom fs (Command.load what ofText path : ExceptT Failure (StateM FileSystem) α) =
      (match fs.load ofText path with
       | .ok v => (.ok v, fs)
       | .error fault => (.error (.loading what path fault), fs)) := by
  rw [Command.load, runFrom_bind, runFrom_lift, run_loadFile]
  cases fs.load ofText path <;> rfl

theorem runFrom_loadTypes_of_ok {path? : Option String} {types : TypeTable}
    (h : fs.loadTypes path? = .ok types) :
    runFrom fs (Command.loadTypes path? : ExceptT Failure (StateM FileSystem) TypeTable) =
      (.ok types, fs) := by
  cases path? with
  | none =>
    cases h
    rfl
  | some path =>
    obtain ⟨v, hload, rfl⟩ := map_eq_ok.mp h
    rw [Command.loadTypes, map_eq_pure_bind, runFrom_bind, runFrom_load, hload]
    rfl

theorem runFrom_loadOptions_of_ok {path? : Option String} {options : Options}
    (h : fs.loadOptions path? = .ok options) :
    runFrom fs (Command.loadOptions path? : ExceptT Failure (StateM FileSystem) Options) =
      (.ok options, fs) := by
  cases path? with
  | none =>
    cases h
    rfl
  | some path =>
    have hload : fs.load Options.ofText path = .ok options := h
    rw [Command.loadOptions, runFrom_load, hload]

/-- What all input files hold is what a run works on. -/
theorem runFrom_loadInputs_of_holds {i : Inputs} (h : fs.Holds paths i) :
    runFrom fs (Command.loadInputs paths : ExceptT Failure (StateM FileSystem) _) =
      (.ok (i.file.unit, .ofEntities i.file.entities i.types.lookup i.options), fs) := by
  have hfile : runFrom fs (Command.load "entities" EntityFile.ofText paths.entities) =
      (.ok i.file, fs) := by
    rw [runFrom_load, h.file]
  rw [Command.loadInputs, runFrom_bind_of_ok hfile,
    runFrom_bind_of_ok (runFrom_loadTypes_of_ok h.types),
    runFrom_bind_of_ok (runFrom_loadOptions_of_ok h.options)]
  rfl

/-- The report is on the first input that cannot be loaded, and nothing has changed by then. -/
theorem runFrom_loadInputs_of_fails {f : Failure} (h : LoadFails fs paths f) :
    runFrom fs (Command.loadInputs paths : ExceptT Failure (StateM FileSystem) _) =
      (.error f, fs) := by
  rw [Command.loadInputs]
  cases h with
  | entities hfile => exact runFrom_bind_of_error (by rw [runFrom_load, hfile])
  | types hfile hpath htypes =>
    rw [runFrom_bind_of_ok (by rw [runFrom_load, hfile])]
    apply runFrom_bind_of_error
    rw [hpath, Command.loadTypes, map_eq_pure_bind]
    exact runFrom_bind_of_error (by rw [runFrom_load, htypes])
  | options hfile htypes hpath hoptions =>
    rw [runFrom_bind_of_ok (by rw [runFrom_load, hfile]),
      runFrom_bind_of_ok (runFrom_loadTypes_of_ok htypes)]
    apply runFrom_bind_of_error
    rw [hpath, Command.loadOptions, runFrom_load, hoptions]

/-- Either all input files can be loaded or there is a first one that cannot. -/
theorem holds_or_loadFails (fs : FileSystem) (paths : InputPaths) :
    (∃ i, fs.Holds paths i) ∨ ∃ f, LoadFails fs paths f := by
  cases hfile : fs.load EntityFile.ofText paths.entities with
  | error fault => exact Or.inr ⟨_, .entities hfile⟩
  | ok file =>
    cases htypes : fs.loadTypes paths.typeMap with
    | error fault =>
      cases hpath : paths.typeMap with
      | none =>
        rw [hpath] at htypes
        cases htypes
      | some path =>
        rw [hpath] at htypes
        exact Or.inr ⟨_, .types hfile hpath (map_eq_error.mp htypes)⟩
    | ok types =>
      cases hoptions : fs.loadOptions paths.config with
      | error fault =>
        cases hpath : paths.config with
        | none =>
          rw [hpath] at hoptions
          cases hoptions
        | some path =>
          rw [hpath] at hoptions
          exact Or.inr ⟨_, .options hfile htypes hpath hoptions⟩
      | ok options => exact Or.inl ⟨⟨file, types, options⟩, hfile, htypes, hoptions⟩

end Loading

/-! ## Writing -/

namespace FileSystem

variable {fs fs' : FileSystem}

/-- Makes a directory and those that lead to it.  The answer comes with what is there then. -/
def makeOutput (fs : FileSystem) (path : String) : Except IoFault Unit × FileSystem :=
  (Storage.onPath path Storage.makeDirectories : StateM FileSystem _).run fs

/-- Where a leading part of the path leads. -/
def LeadsTo (fs : FileSystem) (path : String) (loc : Location) : Prop :=
  ∃ p, FilePath.ofString path = .ok p ∧ fs.Leading p loc

/-- Making the output directory adds directories on the way to it and nothing else, also when it
fails. -/
theorem grownBy_makeOutput (fs : FileSystem) (path : String) :
    GrownBy (fs.LeadsTo path) fs (fs.makeOutput path).2 := by
  rw [makeOutput, Storage.onPath]
  cases hp : FilePath.ofString path with
  | error fault => exact .refl _ fs
  | ok p => exact (grows_makeDirectories p fs).mono fun loc hloc => ⟨p, hp, hloc⟩

/-- The directory can be made.  An empty path leads to none and needs none. -/
def CanMake (fs : FileSystem) (path : String) : Prop :=
  ∃ p, FilePath.ofString path = .ok p ∧ (p.isEmpty = true ∨ fs.Makeable p)

/-- The directories that the path needs are there. -/
def withOutput (fs : FileSystem) (path : String) : FileSystem :=
  match FilePath.ofString path with
  | .error _ => fs
  | .ok p => fs.withDirectories (fs.places p)

/-- The output directory is made if it can be, and what is there then is known. -/
theorem makeOutput_eq_ok_iff {path : String} :
    fs.makeOutput path = (.ok (), fs') ↔ fs.CanMake path ∧ fs' = fs.withOutput path := by
  rw [CanMake, makeOutput, withOutput, Storage.onPath]
  cases FilePath.ofString path with
  | error fault =>
    refine iff_of_false error_ne_ok ?_
    rintro ⟨⟨p, ⟨⟩, -⟩, -⟩
  | ok p =>
    refine (run_makeDirectories_eq_ok p fs fs').trans (and_congr_left fun _ => ?_)
    simp only [Except.ok.injEq, exists_eq_left']

/-- An output directory that can be made is made. -/
theorem makeOutput_of_canMake {path : String} (h : fs.CanMake path) :
    fs.makeOutput path = (.ok (), fs.withOutput path) :=
  makeOutput_eq_ok_iff.mpr ⟨h, rfl⟩

/-- What is added leads to the output directory. -/
theorem grownBy_withOutput {path : String} (h : fs.CanMake path) :
    GrownBy (fs.LeadsTo path) fs (fs.withOutput path) := by
  have hgrown := grownBy_makeOutput fs path
  rwa [makeOutput_of_canMake h] at hgrown

/-- One that cannot be made is reported. -/
theorem exists_fault_of_not_canMake {path : String} (h : ¬ fs.CanMake path) :
    ∃ fault, (fs.makeOutput path).1 = .error fault := by
  rcases hmade : fs.makeOutput path with ⟨fault | _, fs'⟩
  · exact ⟨fault, rfl⟩
  · exact absurd (makeOutput_eq_ok_iff.mp hmade).1 h

/-- A text can be put into the file with this path. -/
def CanPut (fs : FileSystem) (path : String) : Prop :=
  ∃ p, FilePath.ofString path = .ok p ∧ fs.Writable p

/-- Puts a text into a file. -/
def put (fs : FileSystem) (path text : String) : Except IoFault Unit × FileSystem :=
  (Storage.onPath path (Storage.replaceText · text) : StateM FileSystem _).run fs

/-- A text that can be put into a file is put there, and nothing else changes. -/
theorem put_of_canPut {path : String} (h : fs.CanPut path) (text : String) :
    ∃ p loc, FilePath.ofString path = .ok p ∧ fs.locate p = .ok loc ∧
      fs.get? loc ≠ some .directory ∧ p.endsInName = true ∧
      fs.put path text = (.ok (), fs.insert loc (.file text.toUTF8)) := by
  obtain ⟨p, hp, hwritable⟩ := h
  rcases replaceText_cases fs p text with ⟨-, loc, hloc, hold, hrun⟩ | ⟨hnot, -⟩
  · refine ⟨p, loc, hp, hloc, hold, hwritable.endsInName, ?_⟩
    rw [put, Storage.onPath, hp]
    exact hrun
  · exact absurd hwritable hnot

/-- Where a text cannot be put nothing changes. -/
theorem put_of_not_canPut {path : String} (h : ¬ fs.CanPut path) (text : String) :
    ∃ fault, fs.put path text = (.error fault, fs) := by
  rw [put, Storage.onPath]
  cases hp : FilePath.ofString path with
  | error fault => exact ⟨fault, rfl⟩
  | ok p =>
    rcases replaceText_cases fs p text with ⟨hwritable, -⟩ | ⟨-, fault, hrun⟩
    · exact absurd ⟨p, hp, hwritable⟩ h
    · exact ⟨fault, hrun⟩

theorem put_of_error {path text : String} {fault : IoFault}
    (h : (fs.put path text).1 = .error fault) : fs.put path text = (.error fault, fs) := by
  by_cases hput : fs.CanPut path
  · obtain ⟨p, loc, -, -, -, -, hrun⟩ := put_of_canPut hput text
    rw [hrun] at h
    cases h
  · obtain ⟨fault', hrun⟩ := put_of_not_canPut hput text
    rw [hrun] at h ⊢
    rw [Except.error.inj h]

end FileSystem

/-! ## Running -/

namespace Inputs

/-- The output directory that is given, or else the one that the options name. -/
def outputDir (i : Inputs) (dir : Option String) : String := dir.getD i.options.outputDir

/-- Where the artifact goes. -/
def artifactPath (i : Inputs) (dir file : Option String) : String :=
  joinPath (i.outputDir dir) (file.getD i.options.outputFile)

/-- What the source is generated for. -/
def setting (i : Inputs) (dir file : Option String) : Setting :=
  .ofEntities i.file.entities i.types.lookup (Command.overrideOutput dir file i.options)

end Inputs

section Running

variable {fs : FileSystem} {paths : InputPaths} {dir file : Option String} {i : Inputs}

/-- The artifact is meant for the path that the command line and the options give. -/
theorem artifactPath_of_generate {out : Output} (h : generate (i.setting dir file) = .ok out) :
    out.artifactPath = i.artifactPath dir file := by
  rw [Inputs.setting, generate_eq_jobs] at h
  obtain ⟨jobs, -, rfl⟩ := map_eq_ok.mp h
  rfl

theorem runFrom_makeOutput (fs : FileSystem) (path : String) :
    runFrom fs (liftM (Storage.onPath path Storage.makeDirectories : StateM FileSystem _) :
      ExceptT Failure (StateM FileSystem) (Except IoFault Unit)) =
        (.ok (fs.makeOutput path).1, (fs.makeOutput path).2) := rfl

/-- Writing an artifact puts its source into the file with its path. -/
theorem runFrom_commit (fs : FileSystem) (o : Output) :
    runFrom fs (o.commit : ExceptT FailureCause (StateM FileSystem) Unit) =
      ((fs.put o.artifactPath o.source).1.mapError (.write o.artifactPath),
        (fs.put o.artifactPath o.source).2) :=
  runFrom_commitTo fs o o.artifactPath

/-- The stages behind loading, one after the other. -/
theorem runFrom_runCodegen_of_holds (h : fs.Holds paths i) (dir file : Option String) :
    runFrom fs (Command.runCodegen paths dir file : ExceptT Failure (StateM FileSystem) Unit) =
      (match fs.makeOutput (i.outputDir dir) with
       | (.error fault, made) =>
         (.error
           { doing := s!"creating output directory {i.outputDir dir}"
             cause := .makeDirectory fault }, made)
       | (.ok (), made) =>
         let doing := s!"generating C API for {i.file.unit.source}"
         match generate (i.setting dir file) with
         | .error r => (.error { doing, cause := .refusal r }, made)
         | .ok out =>
           match made.put out.artifactPath out.source with
           | (.ok (), fs') => (.ok (), fs')
           | (.error fault, fs') =>
             (.error { doing, cause := .write out.artifactPath fault }, fs')) := by
  rw [Command.runCodegen, runFrom_bind_of_ok (runFrom_loadInputs_of_holds h)]
  show runFrom fs (liftM (Storage.onPath (i.outputDir dir) Storage.makeDirectories :
    StateM FileSystem _) >>= _) = _
  rw [runFrom_bind, runFrom_makeOutput]
  rcases fs.makeOutput (i.outputDir dir) with ⟨_ | _, made⟩
  · rfl
  · show runFrom made (match generate (i.setting dir file) with
      | .error r => _
      | .ok out => _) = _
    cases generate (i.setting dir file) with
    | error r => rfl
    | ok out =>
      dsimp only
      rw [runFrom_adapt, runFrom_commit]
      rcases made.put out.artifactPath out.source with ⟨_ | _, fs'⟩ <;> rfl

/-- The stages behind the output directory. -/
theorem runFrom_runCodegen_of_canMake (h : fs.Holds paths i) (hmade : fs.CanMake (i.outputDir dir))
    (file : Option String) :
    runFrom fs (Command.runCodegen paths dir file : ExceptT Failure (StateM FileSystem) Unit) =
      let made := fs.withOutput (i.outputDir dir)
      let doing := s!"generating C API for {i.file.unit.source}"
      match generate (i.setting dir file) with
      | .error r => (.error { doing, cause := .refusal r }, made)
      | .ok out =>
        match made.put out.artifactPath out.source with
        | (.ok (), fs') => (.ok (), fs')
        | (.error fault, fs') =>
          (.error { doing, cause := .write out.artifactPath fault }, fs') := by
  rw [runFrom_runCodegen_of_holds h, FileSystem.makeOutput_of_canMake hmade]

/-- All stages pass. -/
structure CodegenSucceeds (fs : FileSystem) (paths : InputPaths) (dir file : Option String)
    (i : Inputs) (out : Output) : Prop where
  holds : fs.Holds paths i
  canMake : fs.CanMake (i.outputDir dir)
  generated : generate (i.setting dir file) = .ok out
  canPut : (fs.withOutput (i.outputDir dir)).CanPut (i.artifactPath dir file)

/-- What is reported when a stage fails and those before it pass. -/
inductive CodegenFails (fs : FileSystem) (paths : InputPaths) (dir file : Option String) :
    Failure → Prop where
  | inputs {f : Failure} : LoadFails fs paths f → CodegenFails fs paths dir file f
  | directory {i : Inputs} {fault : IoFault} : fs.Holds paths i →
      ¬ fs.CanMake (i.outputDir dir) → (fs.makeOutput (i.outputDir dir)).1 = .error fault →
      CodegenFails fs paths dir file
        { doing := s!"creating output directory {i.outputDir dir}"
          cause := .makeDirectory fault }
  | generation {i : Inputs} {r : Refusal} : fs.Holds paths i →
      fs.CanMake (i.outputDir dir) → generate (i.setting dir file) = .error r →
      CodegenFails fs paths dir file
        { doing := s!"generating C API for {i.file.unit.source}", cause := .refusal r }
  | writing {i : Inputs} {out : Output} {path : String} {fault : IoFault} : fs.Holds paths i →
      fs.CanMake (i.outputDir dir) → generate (i.setting dir file) = .ok out →
      path = i.artifactPath dir file → ¬ (fs.withOutput (i.outputDir dir)).CanPut path →
      ((fs.withOutput (i.outputDir dir)).put path out.source).1 = .error fault →
      CodegenFails fs paths dir file
        { doing := s!"generating C API for {i.file.unit.source}", cause := .write path fault }

/-- Either all stages pass, or there is a first one that does not. -/
theorem succeeds_or_fails (fs : FileSystem) (paths : InputPaths) (dir file : Option String) :
    (∃ i out, CodegenSucceeds fs paths dir file i out) ∨
      ∃ f, CodegenFails fs paths dir file f := by
  rcases holds_or_loadFails fs paths with ⟨i, hi⟩ | ⟨f, hf⟩
  · by_cases hmade : fs.CanMake (i.outputDir dir)
    · cases hgenerate : generate (i.setting dir file) with
      | error r => exact Or.inr ⟨_, .generation hi hmade hgenerate⟩
      | ok out =>
        by_cases hput : (fs.withOutput (i.outputDir dir)).CanPut (i.artifactPath dir file)
        · exact Or.inl ⟨i, out, hi, hmade, hgenerate, hput⟩
        · obtain ⟨fault, hfault⟩ := FileSystem.put_of_not_canPut hput out.source
          exact Or.inr ⟨_, .writing hi hmade hgenerate rfl hput (by rw [hfault])⟩
    · obtain ⟨fault, hfault⟩ := FileSystem.exists_fault_of_not_canMake hmade
      exact Or.inr ⟨_, .directory hi hmade hfault⟩
  · exact Or.inr ⟨f, .inputs hf⟩

/-- A run in which all stages pass puts the source into the artifact after making directories. -/
theorem runFrom_runCodegen_of_succeeds {out : Output}
    (h : CodegenSucceeds fs paths dir file i out) :
    ∃ p loc, FilePath.ofString (i.artifactPath dir file) = .ok p ∧
      (fs.withOutput (i.outputDir dir)).locate p = .ok loc ∧
      (fs.withOutput (i.outputDir dir)).get? loc ≠ some .directory ∧
      p.endsInName = true ∧
      runFrom fs (Command.runCodegen paths dir file) =
        (.ok (), (fs.withOutput (i.outputDir dir)).insert loc
          (.file out.source.toUTF8)) := by
  obtain ⟨p, loc, hp, hloc, hold, hname, hput⟩ := FileSystem.put_of_canPut h.canPut out.source
  refine ⟨p, loc, hp, hloc, hold, hname, ?_⟩
  rw [runFrom_runCodegen_of_canMake h.holds h.canMake, h.generated]
  dsimp only
  rw [artifactPath_of_generate h.generated, hput]

/-- A run reports the first stage that fails.  Without inputs it has done nothing by then, and
otherwise it has made directories. -/
theorem runFrom_runCodegen_of_fails {f : Failure} (h : CodegenFails fs paths dir file f) :
    ∃ fs', runFrom fs (Command.runCodegen paths dir file) = (.error f, fs') ∧
      ((¬ ∃ i, fs.Holds paths i) ∧ fs' = fs ∨
        ∃ i, fs.Holds paths i ∧ fs' = (fs.makeOutput (i.outputDir dir)).2) := by
  cases h with
  | inputs hload =>
    have hrun := runFrom_loadInputs_of_fails hload
    refine ⟨fs, runFrom_bind_of_error hrun, Or.inl ⟨?_, rfl⟩⟩
    rintro ⟨i, hi⟩
    rw [runFrom_loadInputs_of_holds hi] at hrun
    cases hrun
  | @directory i fault hi _ hfault =>
    refine ⟨_, ?_, Or.inr ⟨i, hi, rfl⟩⟩
    rw [runFrom_runCodegen_of_holds hi]
    rcases hdirs : fs.makeOutput (i.outputDir dir) with ⟨answer, made⟩
    rw [hdirs] at hfault
    subst hfault
    rfl
  | @generation i r hi hmade hgenerate =>
    refine ⟨_, ?_, Or.inr ⟨i, hi, by rw [FileSystem.makeOutput_of_canMake hmade]⟩⟩
    rw [runFrom_runCodegen_of_canMake hi hmade, hgenerate]
  | @writing i out path fault hi hmade hgenerate hpath _ hfault =>
    refine ⟨_, ?_, Or.inr ⟨i, hi, by rw [FileSystem.makeOutput_of_canMake hmade]⟩⟩
    rw [runFrom_runCodegen_of_canMake hi hmade, hgenerate]
    dsimp only
    rw [artifactPath_of_generate hgenerate, ← hpath, FileSystem.put_of_error hfault]

/-- A command line that asks for a run of `codegen` has its outcome. -/
theorem run_ofArguments {args : List String}
    (hargs : Request.ofArguments args = .ok (.run (.codegen paths dir file))) (fs : FileSystem) :
    (Outcome.ofArguments args : StateM FileSystem Outcome).run fs =
      (match runFrom fs (Command.runCodegen paths dir file) with
       | (.ok (), fs') => (.done "", fs')
       | (.error f, fs') => (.failed f, fs')) := by
  have hrun : (Command.run (.codegen paths dir file) : StateM FileSystem _).run fs =
      (match runFrom fs (Command.runCodegen paths dir file) with
       | (.ok (), fs') => (.ok "", fs')
       | (.error f, fs') => (.error f, fs')) := by
    rw [Command.run, run_bind, run_run]
    rcases runFrom fs (Command.runCodegen paths dir file) with ⟨_ | _, fs'⟩ <;> rfl
  rw [Outcome.ofArguments, hargs]
  dsimp only
  rw [run_bind, hrun]
  rcases runFrom fs (Command.runCodegen paths dir file) with ⟨_ | _, fs'⟩ <;> rfl

end Running

/-- How a run of `codegen` ends and what it leaves behind. -/
structure CodegenRun (fs : FileSystem) (paths : InputPaths) (dir file : Option String)
    (outcome : Outcome) (fs' : FileSystem) : Prop where
  exit_code : outcome.exitCode = 0 ∨ outcome.exitCode = 1
  exit_zero_iff : outcome.exitCode = 0 ↔ ∃ i out, CodegenSucceeds fs paths dir file i out
  /-- The report is on the first stage that fails. -/
  failed_iff : ∀ f, outcome = .failed f ↔ CodegenFails fs paths dir file f
  unloaded : (¬ ∃ i, fs.Holds paths i) → fs' = fs
  /-- No file is created, removed or altered, and all new directories lead to the output
  directory. -/
  failed : outcome.exitCode = 1 → FileSystem.GrownBy
    (fun loc => ∃ i, fs.Holds paths i ∧ fs.LeadsTo (i.outputDir dir) loc) fs fs'
  /-- The artifact is a file that holds the source, and elsewhere the same is true. -/
  written : ∀ i out, CodegenSucceeds fs paths dir file i out → ∃ p loc,
    FilePath.ofString (i.artifactPath dir file) = .ok p ∧
    fs'.locate p = .ok loc ∧ fs'.find p = .ok (.file out.source.toUTF8) ∧
    fs.get? loc ≠ some .directory ∧
    ∀ other, other ≠ loc → fs'.get? other = fs.get? other ∨
      fs.get? other = none ∧ fs'.get? other = some .directory ∧
        fs.LeadsTo (i.outputDir dir) other

section Runs

variable {fs : FileSystem} {paths : InputPaths} {dir file : Option String} {i : Inputs}

/-- A run in which a stage fails is none in which all pass. -/
theorem not_succeeds_of_fails {f : Failure} (h : CodegenFails fs paths dir file f) :
    ¬ ∃ i out, CodegenSucceeds fs paths dir file i out := by
  rintro ⟨i, out, hsucceeds⟩
  obtain ⟨fs', herror, -⟩ := runFrom_runCodegen_of_fails h
  obtain ⟨p, loc, -, -, -, -, hok⟩ := runFrom_runCodegen_of_succeeds hsucceeds
  rw [herror] at hok
  cases hok

/-- Only one stage is the first that fails. -/
theorem eq_of_fails {f f' : Failure} (h : CodegenFails fs paths dir file f)
    (h' : CodegenFails fs paths dir file f') : f = f' := by
  obtain ⟨fs', hrun, -⟩ := runFrom_runCodegen_of_fails h
  obtain ⟨fs'', hrun', -⟩ := runFrom_runCodegen_of_fails h'
  rw [hrun] at hrun'
  cases hrun'
  rfl

/-- A run that fails reports the first failing stage and leaves all files as they were. -/
theorem codegenRun_of_fails {f : Failure} (h : CodegenFails fs paths dir file f) :
    ∃ fs', runFrom fs (Command.runCodegen paths dir file) = (.error f, fs') ∧
      CodegenRun fs paths dir file (.failed f) fs' := by
  have hnot := not_succeeds_of_fails h
  obtain ⟨fs', hrun, hends⟩ := runFrom_runCodegen_of_fails h
  refine ⟨fs', hrun,
    { exit_code := .inr rfl
      exit_zero_iff := iff_of_false nofun hnot
      failed_iff := ?_
      unloaded := ?_
      failed := ?_
      written := fun i out hs => absurd ⟨i, out, hs⟩ hnot }⟩
  · intro f'
    constructor
    · rintro ⟨⟩
      exact h
    · exact fun h' => congrArg Outcome.failed (eq_of_fails h h')
  · intro hnone
    rcases hends with ⟨-, hsame⟩ | ⟨i, hi, -⟩
    · exact hsame
    · exact absurd ⟨i, hi⟩ hnone
  · intro _
    rcases hends with ⟨-, rfl⟩ | ⟨i, hi, rfl⟩
    · exact .refl _ _
    · exact (FileSystem.grownBy_makeOutput fs _).mono fun loc hloc => ⟨i, hi, hloc⟩

/-- The file system behind a run without failure: directories were made, then the file was put. -/
theorem written_of_succeeds {out : Output} (h : CodegenSucceeds fs paths dir file i out)
    {fs' : FileSystem} (hrun : runFrom fs (Command.runCodegen paths dir file) = (.ok (), fs')) :
    ∃ p loc, FilePath.ofString (i.artifactPath dir file) = .ok p ∧
      fs'.locate p = .ok loc ∧ fs'.find p = .ok (.file out.source.toUTF8) ∧
      fs.get? loc ≠ some .directory ∧
      ∀ other, other ≠ loc → fs'.get? other = fs.get? other ∨
        fs.get? other = none ∧ fs'.get? other = some .directory ∧
          fs.LeadsTo (i.outputDir dir) other := by
  obtain ⟨p, loc, hp, hloc, hold, hname, hok⟩ := runFrom_runCodegen_of_succeeds h
  rw [hrun] at hok
  cases hok
  have hgrown := FileSystem.grownBy_withOutput h.canMake
  refine ⟨p, loc, hp, (FileSystem.sameWays_insert_file _ hold).locate hloc,
    FileSystem.find_insert_file hloc hold hname _, ?_, ?_⟩
  · exact fun hdir => hold (hgrown.sameWays.directory loc hdir)
  · intro other hother
    rw [FileSystem.get?_insert_of_ne hother]
    exact hgrown.get? other

/-- A run in which all stages pass ends well and leaves the artifact behind. -/
theorem codegenRun_of_succeeds {out : Output} (h : CodegenSucceeds fs paths dir file i out) :
    ∃ fs', runFrom fs (Command.runCodegen paths dir file) = (.ok (), fs') ∧
      CodegenRun fs paths dir file (.done "") fs' := by
  obtain ⟨p, loc, -, -, -, -, hrun⟩ := runFrom_runCodegen_of_succeeds h
  exact ⟨_, hrun,
    { exit_code := .inl rfl
      exit_zero_iff := iff_of_true rfl ⟨i, out, h⟩
      failed_iff := fun f => iff_of_false nofun fun hf => not_succeeds_of_fails hf ⟨i, out, h⟩
      unloaded := fun hnone => absurd ⟨i, h.holds⟩ hnone
      failed := nofun
      written := fun _ _ h' => written_of_succeeds h' hrun }⟩

end Runs

/-- **A run of `codegen`** ends well if all its stages pass, in which case the artifact is written,
and otherwise leaves all files as they were. -/
theorem codegen_run (fs : FileSystem) {args : List String} {paths : InputPaths}
    {dir file : Option String}
    (hargs : Request.ofArguments args = .ok (.run (.codegen paths dir file))) :
    let ended := (Outcome.ofArguments args : StateM FileSystem Outcome).run fs
    CodegenRun fs paths dir file ended.1 ended.2 := by
  rw [run_ofArguments hargs]
  rcases succeeds_or_fails fs paths dir file with ⟨i, out, h⟩ | ⟨f, h⟩
  · obtain ⟨fs', hrun, hends⟩ := codegenRun_of_succeeds h
    rw [hrun]
    exact hends
  · obtain ⟨fs', hrun, hends⟩ := codegenRun_of_fails h
    rw [hrun]
    exact hends

/-! ### One file in three file systems -/

namespace FileSystem

/-- A file with one function. -/
def box : FileSystem :=
  { entries := [(["box.yaml"], .file
    "unit: \x7bsource: box.h\x7d\nentities: [\x7bname: Fill, kind: free-function\x7d]\n".toUTF8)] }

/-- A file is where the output directory should be. -/
def barredBox : FileSystem := box.insert ["generated"] (.file .empty)

/-- Nothing can be written any more. -/
def fullBox : FileSystem :=
  { box with refuses := fun a _ => if a = .write then some (.other "full") else none }

/-- A run for the file. -/
def runBox (fs : FileSystem) : Outcome × FileSystem :=
  (Outcome.ofArguments ["codegen", "-e", "box.yaml"] : StateM FileSystem Outcome).run fs

/-- The output directory is new, and so is the artifact in it. -/
theorem runBox_box : box.runBox.1 = .done "" ∧ box.runBox.2.entries =
    (["CApi.cpp", "generated"], .file
      "extern \"C\"\n\x7b\n\nvoid Fill()\n\x7b\n    Fill();\n\x7d\n\n\x7d\n".toUTF8) ::
    (["generated"], .directory) :: box.entries := by
  decide +kernel

/-- The file that is in the way of the output directory stays, and nothing is added. -/
theorem runBox_barredBox : barredBox.runBox.1 = .failed
      { doing := "creating output directory generated", cause := .makeDirectory .exists } ∧
    barredBox.runBox.2.entries = barredBox.entries := by
  decide +kernel

/-- The temporary file is gone again, while the directory that was made stays. -/
theorem runBox_fullBox : fullBox.runBox.1 = .failed
      { doing := "generating C API for box.h"
        cause := .write "generated/CApi.cpp" (.other "full") } ∧
    fullBox.runBox.2.entries = (["generated"], .directory) :: box.entries := by
  decide +kernel

end FileSystem

open FileSystem in
theorem codegen_run_of_box :
    let paths : InputPaths := { entities := "box.yaml" }
    Request.ofArguments ["codegen", "-e", "box.yaml"] = .ok (.run (.codegen paths none none)) ∧
    (CodegenRun box paths none none box.runBox.1 box.runBox.2 ∧
      box.runBox.1 = .done "" ∧
      box.runBox.2.entries =
        (["CApi.cpp", "generated"], .file
          "extern \"C\"\n\x7b\n\nvoid Fill()\n\x7b\n    Fill();\n\x7d\n\n\x7d\n".toUTF8) ::
        (["generated"], .directory) :: box.entries) ∧
    (CodegenRun barredBox paths none none barredBox.runBox.1 barredBox.runBox.2 ∧
      barredBox.runBox.1 = .failed
        { doing := "creating output directory generated", cause := .makeDirectory .exists } ∧
      barredBox.runBox.2.entries = barredBox.entries) ∧
    (CodegenRun fullBox paths none none fullBox.runBox.1 fullBox.runBox.2 ∧
      fullBox.runBox.1 = .failed
        { doing := "generating C API for box.h"
          cause := .write "generated/CApi.cpp" (.other "full") } ∧
      fullBox.runBox.2.entries = (["generated"], .directory) :: box.entries) := by
  intro paths
  have hargs : Request.ofArguments ["codegen", "-e", "box.yaml"] =
    .ok (.run (.codegen paths none none)) := rfl
  exact ⟨hargs, ⟨codegen_run box hargs, runBox_box⟩,
    ⟨codegen_run barredBox hargs, runBox_barredBox⟩, codegen_run fullBox hargs, runBox_fullBox⟩

end FlatApi
