import FlatApi.Command
import FlatApi.Proofs.FileSystem

/-!
# Writing a source as a whole or not at all

A source is written by way of a temporary file.  What a library for such files has to promise is
`Temporaries.Lawful`: a temporary file is made in a directory that is there, filling it touches
nothing else, it gets its place in one step or not at all, and what is removed is gone.

* With any such library a file is replaced as a whole, or nothing changes
  (`Lawful.replaceText_ok`, `Lawful.replaceText_error`).
* So a source is in the file that it was committed to, or nothing has changed and the path is
  reported (`Committed`).
* The temporary files of file systems that are values keep the promise
  (`FileSystem.lawful_temporaries`).
-/

namespace FlatApi

/-! ## Answers -/

section Answers

variable {σ : Type} {s : σ} {ε ε' α : Type}

theorem runFrom_adapt (f : ε → ε') (a : ExceptT ε (StateM σ) α) :
    runFrom s (a.adapt f) = ((runFrom s a).1.mapError f, (runFrom s a).2) := rfl

/-- A source that cannot be put into a file is reported with the path. -/
theorem runFrom_commitTo [Temporaries (StateM σ)] (s : σ) (o : Output) (path : String) :
    runFrom s (o.commitTo path) =
      let put := (Storage.onPath path (Storage.replaceText · o.source) : StateM σ _).run s
      (put.1.mapError (.write path), put.2) := by
  rw [Output.commitTo, runFrom_bind, runFrom_lift]
  rcases (Storage.onPath path (Storage.replaceText · o.source) : StateM σ _).run s with
    ⟨_ | _, s'⟩ <;> rfl

end Answers

/-! ## Changes at some locations -/

namespace FileSystem

variable {fs fs' fs'' : FileSystem} {changed changed' : Location → Prop}

/-- The two file systems are the same but for what is found at these locations. -/
structure SameBut (changed : Location → Prop) (fs fs' : FileSystem) : Prop where
  workingDirectory : fs'.workingDirectory = fs.workingDirectory
  refuses : fs'.refuses = fs.refuses
  get? : ∀ loc, ¬ changed loc → fs'.get? loc = fs.get? loc

/-- The two file systems are the same. -/
abbrev Same (fs fs' : FileSystem) : Prop := SameBut (fun _ => False) fs fs'

namespace SameBut

theorem refl (changed : Location → Prop) (fs : FileSystem) : SameBut changed fs fs where
  workingDirectory := rfl
  refuses := rfl
  get? _ _ := rfl

theorem symm (h : SameBut changed fs fs') : SameBut changed fs' fs where
  workingDirectory := h.workingDirectory.symm
  refuses := h.refuses.symm
  get? loc hloc := (h.get? loc hloc).symm

/-- Changes one after the other are at the locations of either. -/
theorem trans (h : SameBut changed fs fs') (h' : SameBut changed' fs' fs'') :
    SameBut (fun loc => changed loc ∨ changed' loc) fs fs'' where
  workingDirectory := h'.workingDirectory.trans h.workingDirectory
  refuses := h'.refuses.trans h.refuses
  get? loc hloc := (h'.get? loc (hloc ∘ .inr)).trans (h.get? loc (hloc ∘ .inl))

/-- A location where the same is found again does not count. -/
theorem narrow (h : SameBut changed fs fs')
    (hback : ∀ loc, changed loc → changed' loc ∨ fs'.get? loc = fs.get? loc) :
    SameBut changed' fs fs' where
  workingDirectory := h.workingDirectory
  refuses := h.refuses
  get? loc hloc := by
    by_cases hchanged : changed loc
    · exact (hback loc hchanged).resolve_left hloc
    · exact h.get? loc hchanged

/-- All directories are where they were if none of them was changed. -/
theorem sameWays (h : SameBut changed fs fs')
    (hdirs : ∀ loc, changed loc → fs.get? loc ≠ some .directory) : SameWays fs fs' where
  workingDirectory := h.workingDirectory
  refuses := h.refuses
  directory loc hloc := by
    rw [h.get? loc fun hchanged => hdirs loc hchanged hloc, hloc]

end SameBut

/-- Nothing was added but a file at a location where nothing was. -/
structure Adds (loc : Location) (bytes : ByteArray) (fs fs' : FileSystem) : Prop where
  none : fs.get? loc = none
  file : fs'.get? loc = some (.file bytes)
  same : SameBut (· = loc) fs fs'

namespace Adds

variable {loc : Location} {bytes : ByteArray}

/-- A file is no way to anything, so adding one leaves all ways. -/
theorem sameWays (h : Adds loc bytes fs fs') : SameWays fs fs' :=
  h.same.sameWays fun other hother => by
    rw [hother, h.none]
    exact nofun

theorem sameWays_symm (h : Adds loc bytes fs fs') : SameWays fs' fs :=
  h.same.symm.sameWays fun other hother => by
    rw [hother, h.file]
    exact nofun

theorem of_same (h : Adds loc bytes fs fs') (hsame : Same fs' fs'') :
    Adds loc bytes fs fs'' where
  none := h.none
  file := (hsame.get? loc id).trans h.file
  same := (h.same.trans hsame).narrow fun _ hother => .inl (hother.resolve_right id)

end Adds

end FileSystem

/-! ## Libraries for temporary files -/

open FileSystem (SameBut Same Adds)

namespace Temporaries

/-- What a library for temporary files promises.  Each file has a place of its own. -/
structure Lawful (t : Temporaries (StateM FileSystem)) (place : t.Temporary → Location) :
    Prop where
  /-- A temporary file is new and empty, and in the directory, which is there. -/
  create_ok : ∀ {fs fs' : FileSystem} {dir : FilePath} {x : t.Temporary},
    (t.create dir).run fs = (.ok x, fs') →
      (∃ loc n, fs.locate dir = .ok loc ∧ fs.get? loc = some .directory ∧ place x = n :: loc) ∧
      fs.get? (place x) = none ∧ fs'.get? (place x) = some (.file .empty) ∧
      SameBut (· = place x) fs fs'
  create_error : ∀ {fs fs' : FileSystem} {dir : FilePath} {fault : IoFault},
    (t.create dir).run fs = (.error fault, fs') → Same fs fs'
  /-- An empty file is filled with the text, or with anything if that fails. -/
  fill : ∀ {fs fs' : FileSystem} {x : t.Temporary} {text : String} {answer : Except IoFault Unit},
    fs.get? (place x) = some (.file .empty) → (t.fill x text).run fs = (answer, fs') →
      (∃ bytes, fs'.get? (place x) = some (.file bytes) ∧
        (answer = .ok () → bytes = text.toUTF8)) ∧
      SameBut (· = place x) fs fs'
  /-- A file is moved to where the path leads, which is not to a directory. -/
  persist_ok : ∀ {fs fs' : FileSystem} {x : t.Temporary} {p : FilePath} {bytes : ByteArray},
    fs.get? (place x) = some (.file bytes) → (t.persist x p).run fs = (.ok (), fs') →
      ∃ loc, fs.locate p = .ok loc ∧ p.endsInName = true ∧ fs.get? loc ≠ some .directory ∧
        fs'.get? loc = some (.file bytes) ∧ (place x ≠ loc → fs'.get? (place x) = none) ∧
        SameBut (fun other => other = place x ∨ other = loc) fs fs'
  persist_error : ∀ {fs fs' : FileSystem} {x : t.Temporary} {p : FilePath} {fault : IoFault},
    (t.persist x p).run fs = (.error fault, fs') → Same fs fs'
  remove : ∀ {fs fs' : FileSystem} {x : t.Temporary} {bytes : ByteArray},
    fs.get? (place x) = some (.file bytes) → (t.remove x).run fs = ((), fs') →
      fs'.get? (place x) = none ∧ SameBut (· = place x) fs fs'

/-- How replacing a file can go. -/
inductive ReplaceRun (t : Temporaries (StateM FileSystem)) (fs : FileSystem) (p : FilePath)
    (text : String) : Except IoFault Unit × FileSystem → Prop where
  | uncreated {fault : IoFault} {fs' : FileSystem}
      (create : (t.create p.directory).run fs = (.error fault, fs')) :
      ReplaceRun t fs p text (.error fault, fs')
  | unfilled {x : t.Temporary} {fault : IoFault} {fs₁ fs₂ fs' : FileSystem}
      (create : (t.create p.directory).run fs = (.ok x, fs₁))
      (fill : (t.fill x text).run fs₁ = (.error fault, fs₂))
      (remove : (t.remove x).run fs₂ = ((), fs')) :
      ReplaceRun t fs p text (.error fault, fs')
  | unplaced {x : t.Temporary} {fault : IoFault} {fs₁ fs₂ fs₃ fs' : FileSystem}
      (create : (t.create p.directory).run fs = (.ok x, fs₁))
      (fill : (t.fill x text).run fs₁ = (.ok (), fs₂))
      (persist : (t.persist x p).run fs₂ = (.error fault, fs₃))
      (remove : (t.remove x).run fs₃ = ((), fs')) :
      ReplaceRun t fs p text (.error fault, fs')
  | placed {x : t.Temporary} {fs₁ fs₂ fs' : FileSystem}
      (create : (t.create p.directory).run fs = (.ok x, fs₁))
      (fill : (t.fill x text).run fs₁ = (.ok (), fs₂))
      (persist : (t.persist x p).run fs₂ = (.ok (), fs')) :
      ReplaceRun t fs p text (.ok (), fs')

/-- All steps of replacing a file succeed. -/
def Replaces (t : Temporaries (StateM FileSystem)) (fs : FileSystem) (p : FilePath)
    (text : String) : Prop :=
  ∃ x fs₁ fs₂ fs', (t.create p.directory).run fs = (.ok x, fs₁) ∧
    (t.fill x text).run fs₁ = (.ok (), fs₂) ∧ (t.persist x p).run fs₂ = (.ok (), fs')

section Running

variable [t : Temporaries (StateM FileSystem)] {place : t.Temporary → Location}
  {fs fs₁ fs₂ fs' : FileSystem} {x : t.Temporary} {p : FilePath} {text : String}
  {loc : Location} {bytes : ByteArray} {answer : Except IoFault Unit}

/-- Every run of replacing a file stops at the first step that fails, or at the end. -/
theorem replaceRun (fs : FileSystem) (p : FilePath) (text : String) :
    ReplaceRun t fs p text
      ((Storage.replaceText p text : StateM FileSystem (Except IoFault Unit)).run fs) := by
  rw [Storage.replaceText, run_bind]
  rcases hcreate : (t.create p.directory).run fs with ⟨fault | x, fs₁⟩
  · exact .uncreated hcreate
  · dsimp only
    rw [run_bind, Storage.settle, run_bind]
    rcases hfill : (t.fill x text).run fs₁ with ⟨fault | _, fs₂⟩
    · exact .unfilled hcreate hfill rfl
    · dsimp only
      rcases hpersist : (t.persist x p).run fs₂ with ⟨fault | _, fs₃⟩
      · exact .unplaced hcreate hfill hpersist rfl
      · exact .placed hcreate hfill hpersist

/-- A run ends well if each of its steps does. -/
theorem ReplaceRun.ok_iff (h : ReplaceRun t fs p text (answer, fs')) :
    answer = .ok () ↔ t.Replaces fs p text := by
  cases h with
  | uncreated hcreate =>
    refine iff_of_false nofun ?_
    rintro ⟨x, fs₁, fs₂, fs₃, hcreate', -, -⟩
    cases hcreate.symm.trans hcreate'
  | unfilled hcreate hfill =>
    refine iff_of_false nofun ?_
    rintro ⟨x, fs₁, fs₂, fs₃, hcreate', hfill', -⟩
    cases hcreate.symm.trans hcreate'
    cases hfill.symm.trans hfill'
  | unplaced hcreate hfill hpersist =>
    refine iff_of_false nofun ?_
    rintro ⟨x, fs₁, fs₂, fs₃, hcreate', hfill', hpersist'⟩
    cases hcreate.symm.trans hcreate'
    cases hfill.symm.trans hfill'
    cases hpersist.symm.trans hpersist'
  | placed hcreate hfill hpersist => exact iff_of_true rfl ⟨_, _, _, _, hcreate, hfill, hpersist⟩

namespace Lawful

/-- A new file that was filled is all that was added, with the text in it if filling it went well.
-/
theorem adds_of_fill (h : t.Lawful place) (hcreate : (t.create p.directory).run fs = (.ok x, fs₁))
    (hfill : (t.fill x text).run fs₁ = (answer, fs₂)) :
    ∃ bytes, Adds (place x) bytes fs fs₂ ∧ (answer = .ok () → bytes = text.toUTF8) := by
  obtain ⟨-, hnone, hempty, hcreated⟩ := h.create_ok hcreate
  obtain ⟨⟨bytes, hfile, hbytes⟩, hfilled⟩ := h.fill hempty hfill
  exact ⟨bytes, ⟨hnone, hfile, (hcreated.trans hfilled).narrow fun _ hother => .inl
    (hother.elim id id)⟩, hbytes⟩

/-- Once the temporary file is removed, nothing has changed. -/
theorem same_of_remove (h : t.Lawful place) (hadds : Adds (place x) bytes fs fs₁)
    (hremove : (t.remove x).run fs₁ = ((), fs')) : Same fs fs' := by
  obtain ⟨hgone, hremoved⟩ := h.remove hadds.file hremove
  refine (hadds.same.trans hremoved).narrow fun other hother => .inr ?_
  obtain rfl : other = place x := hother.elim id id
  rw [hgone, hadds.none]

/-- A file that is not replaced is as it was, like everything else. -/
theorem replaceText_error (h : t.Lawful place) {fault : IoFault}
    (hrun : ReplaceRun t fs p text (.error fault, fs')) : Same fs fs' := by
  cases hrun with
  | uncreated hcreate => exact h.create_error hcreate
  | unfilled hcreate hfill hremove =>
    obtain ⟨bytes, hadds, -⟩ := h.adds_of_fill hcreate hfill
    exact h.same_of_remove hadds hremove
  | unplaced hcreate hfill hpersist hremove =>
    obtain ⟨bytes, hadds, -⟩ := h.adds_of_fill hcreate hfill
    exact h.same_of_remove (hadds.of_same (h.persist_error hpersist)) hremove

/-- A file that is replaced has the text, and everything else is as it was. -/
theorem replaceText_ok (h : t.Lawful place) (hrun : ReplaceRun t fs p text (.ok (), fs')) :
    (∃ dir, fs.locate p.directory = .ok dir ∧ fs.get? dir = some .directory) ∧
    ∃ loc, fs.locate p = .ok loc ∧ p.endsInName = true ∧ fs.get? loc ≠ some .directory ∧
      fs'.get? loc = some (.file text.toUTF8) ∧ SameBut (· = loc) fs fs' := by
  cases hrun with
  | @placed x fs₁ fs₂ _ hcreate hfill hpersist =>
    obtain ⟨bytes, hadds, hbytes⟩ := h.adds_of_fill hcreate hfill
    obtain rfl := hbytes rfl
    obtain ⟨loc, hloc, hname, hdir, hfile, hmoved, hplaced⟩ := h.persist_ok hadds.file hpersist
    obtain ⟨⟨dir, -, hdirectory, hisdir, -⟩, -⟩ := h.create_ok hcreate
    refine ⟨⟨dir, hdirectory, hisdir⟩, loc, hadds.sameWays_symm.locate hloc, hname, ?_, hfile, ?_⟩
    · exact fun hold => hdir (hadds.sameWays.directory loc hold)
    · refine (hadds.same.trans hplaced).narrow fun other hother => ?_
      by_cases heq : other = loc
      · exact .inl heq
      · obtain rfl : other = place x := hother.elim id fun hother => hother.resolve_right heq
        rw [hmoved heq, hadds.none]
        exact .inr rfl

end Lawful

end Running

end Temporaries

/-! ## Temporary files of values -/

namespace FileSystem

section Values

variable {fs fs' : FileSystem} {loc other : Location} {i : Item}

/-- An entry changes nothing at other locations. -/
theorem sameBut_insert (fs : FileSystem) (loc : Location) (i : Item) :
    SameBut (· = loc) fs (fs.insert loc i) where
  workingDirectory := rfl
  refuses := rfl
  get? _ hother := get?_insert_of_ne hother

theorem get?_erase_of_ne (h : other ≠ loc) : (fs.erase loc).get? other = fs.get? other := by
  cases other with
  | nil => rfl
  | cons n other => exact lookup_filter_ne h fs.entries

theorem get?_erase_self (h : loc ≠ []) : (fs.erase loc).get? loc = none := by
  cases loc with
  | nil => exact absurd rfl h
  | cons n loc =>
    rw [get?_cons, List.lookup_eq_none_iff]
    intro e he
    have hkey := (List.mem_filter.mp he).2
    rw [bne_iff_ne] at hkey ⊢
    exact hkey.symm

/-- Removing an entry changes nothing at other locations. -/
theorem sameBut_erase (fs : FileSystem) (loc : Location) :
    SameBut (· = loc) fs (fs.erase loc) where
  workingDirectory := rfl
  refuses := rfl
  get? _ hother := get?_erase_of_ne hother

theorem ne_nil_of_file {bytes : ByteArray} (h : fs.get? loc = some (.file bytes)) : loc ≠ [] :=
  ne_nil_of_get? (by rw [h]; exact nofun)

/-- A change happens as a whole or not at all. -/
theorem cases_of_change {act : FileSystem → Except IoFault FileSystem}
    {answer : Except IoFault Unit} (h : (change act).run fs = (answer, fs')) :
    answer = .ok () ∧ act fs = .ok fs' ∨ (∃ fault, answer = .error fault) ∧ fs' = fs := by
  rw [run_change] at h
  cases hact : act fs with
  | error fault =>
    rw [hact] at h
    cases h
    exact .inr ⟨⟨fault, rfl⟩, rfl⟩
  | ok made =>
    rw [hact] at h
    cases h
    exact .inl ⟨rfl, rfl⟩

/-- The temporary files of file systems that are values do what is promised. -/
theorem lawful_temporaries : temporaries.Lawful fun loc : Location => loc := by
  constructor
  case create_ok =>
    intro fs fs' dir temporary h
    rw [run_create] at h
    rcases hcreate : fs.createTemporary dir with fault | ⟨made, created⟩
    · rw [hcreate] at h
      cases h
    · rw [hcreate] at h
      cases h
      obtain ⟨loc, hloc, hdir, -, rfl, rfl⟩ := createTemporary_eq_ok.mp hcreate
      exact ⟨⟨loc, _, hloc, hdir, rfl⟩, fs.get?_unusedName loc,
        get?_insert_self (List.cons_ne_nil _ _), sameBut_insert fs _ _⟩
  case create_error =>
    intro fs fs' dir fault h
    rw [run_create] at h
    rcases hcreate : fs.createTemporary dir with fault' | ⟨made, created⟩
    · rw [hcreate] at h
      cases h
      exact .refl _ _
    · rw [hcreate] at h
      cases h
  case fill =>
    intro fs fs' temporary text answer hempty h
    rcases cases_of_change h with ⟨rfl, hwrite⟩ | ⟨⟨fault, rfl⟩, rfl⟩
    · obtain ⟨-, rfl⟩ := write_eq_ok.mp hwrite
      exact ⟨⟨_, get?_insert_self (ne_nil_of_file hempty), fun _ => rfl⟩, sameBut_insert _ _ _⟩
    · exact ⟨⟨_, hempty, nofun⟩, .refl _ _⟩
  case persist_ok =>
    intro fs fs' temporary p bytes hfile h
    rcases cases_of_change h with ⟨-, hrename⟩ | ⟨⟨fault, hfault⟩, -⟩
    · obtain ⟨loc, i, hloc, hi, hold, hname, -, rfl⟩ := rename_eq_ok.mp hrename
      obtain rfl := Option.some.inj (hfile.symm.trans hi)
      refine ⟨loc, hloc, hname, hold, get?_insert_self (ne_nil_of_get? hold), ?_, ?_⟩
      · intro hne
        rw [get?_insert_of_ne hne, get?_erase_self (ne_nil_of_file hfile)]
      · exact (sameBut_erase fs temporary).trans (sameBut_insert _ loc _)
    · cases hfault
  case persist_error =>
    intro fs fs' temporary p fault h
    rcases cases_of_change h with ⟨hok, -⟩ | ⟨-, rfl⟩
    · cases hok
    · exact .refl _ _
  case remove =>
    intro fs fs' temporary bytes hfile h
    have hgone : fs' = fs.erase temporary := (congrArg Prod.snd h).symm
    subst hgone
    exact ⟨get?_erase_self (ne_nil_of_file hfile), sameBut_erase fs temporary⟩

end Values

end FileSystem

/-! ## Committing -/

/-- How committing a source ends, and what it leaves behind. -/
structure Committed (t : Temporaries (StateM FileSystem)) (o : Output) (path : String)
    (fs : FileSystem) (answer : Except FailureCause Unit) (fs' : FileSystem) : Prop where
  ok_iff : answer = .ok () ↔ ∃ p, FilePath.ofString path = .ok p ∧ t.Replaces fs p o.source
  /-- The path leads to a file that holds the source, in a directory that was there before, and
  nothing else differs. -/
  written : answer = .ok () → ∃ p dir loc, FilePath.ofString path = .ok p ∧
    fs.locate p.directory = .ok dir ∧ fs.get? dir = some .directory ∧
    fs.locate p = .ok loc ∧ fs.get? loc ≠ some .directory ∧
    fs'.locate p = .ok loc ∧ fs'.find p = .ok (.file o.source.toUTF8) ∧
    SameBut (· = loc) fs fs'
  /-- The path is reported, and nothing differs. -/
  unwritten : ∀ cause, answer = .error cause →
    (∃ fault, cause = .write path fault) ∧ Same fs fs'
  directories : ∀ loc, fs'.get? loc = some .directory ↔ fs.get? loc = some .directory

section Committing

variable [t : Temporaries (StateM FileSystem)] {place : t.Temporary → Location} {o : Output}
  {path : String} {fs fs' : FileSystem} {p : FilePath}

/-- A failure to replace the file is reported with its path, and everything is as before. -/
theorem committed_of_error {fault : IoFault} (h : t.Lawful place)
    (hp : FilePath.ofString path = .ok p)
    (hrun : t.ReplaceRun fs p o.source (.error fault, fs')) :
    Committed t o path fs (.error (.write path fault)) fs' where
  ok_iff := by
    have hnot := hrun.ok_iff.not.mp nofun
    refine iff_of_false nofun ?_
    rintro ⟨q, hq, hreplaces⟩
    cases hp.symm.trans hq
    exact hnot hreplaces
  written := nofun
  unwritten _ hcause := ⟨⟨fault, (Except.error.inj hcause).symm⟩, h.replaceText_error hrun⟩
  directories loc := by rw [(h.replaceText_error hrun).get? loc id]

/-- Once the file is replaced it holds the source, and everything else is as before. -/
theorem committed_of_ok (h : t.Lawful place) (hp : FilePath.ofString path = .ok p)
    (hrun : t.ReplaceRun fs p o.source (.ok (), fs')) : Committed t o path fs (.ok ()) fs' := by
  obtain ⟨⟨dir, hdir, hisdir⟩, loc, hloc, hname, hold, hnew, hsame⟩ := h.replaceText_ok hrun
  have hways := hsame.sameWays fun other hother => by rwa [hother]
  have hfind : fs'.find p = .ok (.file o.source.toUTF8) := by
    rw [FileSystem.find_of_locate (hways.locate hloc), hnew]
    simp [(FileSystem.endsInName_iff.mp hname).1]
  refine
    { ok_iff := iff_of_true rfl ⟨p, hp, hrun.ok_iff.mp rfl⟩
      written := fun _ =>
        ⟨p, dir, loc, hp, hdir, hisdir, hloc, hold, hways.locate hloc, hfind, hsame⟩
      unwritten := nofun
      directories := fun other => ?_ }
  by_cases hother : other = loc
  · subst hother
    exact iff_of_false (by rw [hnew]; exact nofun) hold
  · rw [hsame.get? other hother]

/-- What is no path is reported before anything is tried. -/
theorem committed_of_no_path {fault : IoFault} (hp : FilePath.ofString path = .error fault) :
    Committed t o path fs (.error (.write path fault)) fs where
  ok_iff := by
    refine iff_of_false nofun ?_
    rintro ⟨p, hp', -⟩
    cases hp.symm.trans hp'
  written := nofun
  unwritten _ hcause := ⟨⟨fault, (Except.error.inj hcause).symm⟩, .refl _ fs⟩
  directories _ := Iff.rfl

/-- **Committing a source** with any lawful library for temporary files puts it into the file that
the path leads to, or reports the path and changes nothing. -/
theorem committed (h : t.Lawful place) (o : Output) (path : String) (fs : FileSystem) :
    let run := runFrom fs (o.commitTo path : ExceptT FailureCause (StateM FileSystem) Unit)
    Committed t o path fs run.1 run.2 := by
  rw [runFrom_commitTo, Storage.onPath]
  cases hp : FilePath.ofString path with
  | error fault => exact committed_of_no_path hp
  | ok p =>
    have hrun := Temporaries.replaceRun fs p o.source
    dsimp only
    rcases hput : (Storage.replaceText p o.source :
        StateM FileSystem (Except IoFault Unit)).run fs with ⟨fault | _, fs'⟩
    · rw [hput] at hrun
      exact committed_of_error h hp hrun
    · rw [hput] at hrun
      exact committed_of_ok h hp hrun

end Committing

/-- A place where an older artifact is. -/
def outdated : FileSystem := { entries := [(["C"], .file "old".toUTF8)] }

theorem committed_outdated :
    let o : Output := { source := "new", exports := [], records := {}, artifactPath := "C" }
    let run (path : String) :=
      runFrom outdated (o.commitTo path : ExceptT FailureCause (StateM FileSystem) Unit)
    (FileSystem.temporaries.Lawful fun loc => loc) ∧
      (run "C").1 = .ok () ∧
      Committed FileSystem.temporaries o "C" outdated (run "C").1 (run "C").2 ∧
      (run "C/").1 = .error (.write "C/" .notDirectory) ∧
      Committed FileSystem.temporaries o "C/" outdated (run "C/").1 (run "C/").2 := by
  intro o run
  have h := FileSystem.lawful_temporaries
  have hfile : FilePath.ofString "C" =
      .ok { absolute := false, names := ["C"], asDirectory := false } := by decide +kernel
  have hdirectory : FilePath.ofString "C/" =
      .ok { absolute := false, names := ["C"], asDirectory := true } := by decide +kernel
  refine ⟨h, ?_, committed h o "C" outdated, ?_, committed h o "C/" outdated⟩
  · show (runFrom outdated (o.commitTo "C")).1 = _
    rw [runFrom_commitTo, Storage.onPath, hfile]
    rfl
  · show (runFrom outdated (o.commitTo "C/")).1 = _
    rw [runFrom_commitTo, Storage.onPath, hdirectory]
    rfl

end FlatApi
