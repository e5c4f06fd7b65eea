import FlatApi.Proofs.FileSystem
import Mathlib.Data.List.Induction

/-!
# Making directories

A directory is made by trying it first and going back to those that lead to it.  What comes of
that is said here of the file system alone.

* Directories are added on the way to the path, and nothing else is changed, whether or not the
  directory is made (`grows_makeDirectories`).
* A directory can be made if the way starts at a directory, there is leave to make those that are
  missing, and with them the path leads to a directory (`Makeable`).
* Then it is made, and the file system has gained the missing ones
  (`run_makeDirectories_eq_ok`).
-/

namespace FlatApi

namespace FileSystem

variable {fs fs' fs₁ : FileSystem} {loc other : Location} {p : FilePath}

/-! ## What making directories changes -/

section Growing

variable {p : FilePath} {α β : Type}

/-- Nothing is removed or altered, and what is new are directories at such locations. -/
structure GrownBy (new : Location → Prop) (fs fs' : FileSystem) : Prop where
  workingDirectory : fs'.workingDirectory = fs.workingDirectory
  refuses : fs'.refuses = fs.refuses
  get? : ∀ loc, fs'.get? loc = fs.get? loc ∨
    fs.get? loc = none ∧ fs'.get? loc = some .directory ∧ new loc

theorem GrownBy.refl (new : Location → Prop) (fs : FileSystem) : GrownBy new fs fs where
  workingDirectory := rfl
  refuses := rfl
  get? _ := .inl rfl

theorem GrownBy.trans {new : Location → Prop} {fs₁ fs₂ : FileSystem} (h : GrownBy new fs fs₁)
    (h' : GrownBy new fs₁ fs₂) : GrownBy new fs fs₂ where
  workingDirectory := h'.workingDirectory.trans h.workingDirectory
  refuses := h'.refuses.trans h.refuses
  get? loc := by
    rcases h'.get? loc with hsame | ⟨hnone, hdir, hnew⟩
    · rw [hsame]
      exact h.get? loc
    · refine Or.inr ⟨?_, hdir, hnew⟩
      rcases h.get? loc with hsame | ⟨hnone', -, -⟩
      · rw [← hsame, hnone]
      · exact hnone'

theorem GrownBy.mono {new new' : Location → Prop} (h : GrownBy new fs fs')
    (himp : ∀ loc, new loc → new' loc) : GrownBy new' fs fs' where
  workingDirectory := h.workingDirectory
  refuses := h.refuses
  get? loc := (h.get? loc).imp_right fun ⟨hnone, hdir, hnew⟩ => ⟨hnone, hdir, himp loc hnew⟩

/-- Ways that were there before are there still. -/
theorem GrownBy.sameWays {new : Location → Prop} (h : GrownBy new fs fs') : SameWays fs fs' where
  workingDirectory := h.workingDirectory
  refuses := h.refuses
  directory loc hdir := by
    rcases h.get? loc with hsame | ⟨hnone, -, -⟩
    · rw [hsame, hdir]
    · rw [hdir] at hnone
      cases hnone

/-- What is there already stays as it is. -/
theorem GrownBy.get?_of_ne_none {new : Location → Prop} (h : GrownBy new fs fs')
    (hne : fs.get? loc ≠ none) : fs'.get? loc = fs.get? loc := by
  rcases h.get? loc with hsame | ⟨hnone, -, -⟩
  · exact hsame
  · exact absurd hnone hne

/-- Where a leading part of a path leads. -/
def Leading (fs : FileSystem) (p : FilePath) (loc : Location) : Prop :=
  ∃ part, part ≠ [] ∧ part <+: p.names ∧ loc = lead (fs.start p) part

/-- Where a path leads does not depend on what was added. -/
theorem GrownBy.leading {new : Location → Prop} (h : GrownBy new fs fs') :
    fs'.Leading p = fs.Leading p := by
  funext loc
  rw [Leading, Leading, h.sameWays.start]

/-- Whatever the action finds, it leaves a file system that is grown by parts of the path. -/
def Grows (p : FilePath) (act : StateM FileSystem α) : Prop :=
  ∀ fs : FileSystem, GrownBy (fs.Leading p) fs (act.run fs).2

theorem grows_pure (p : FilePath) (a : α) : Grows p (pure a) := fun fs => .refl _ fs

/-- Two actions that grow a file system by parts of one path do so one after the other. -/
theorem Grows.bind {act : StateM FileSystem α} {next : α → StateM FileSystem β} (h : Grows p act)
    (hnext : ∀ a, Grows p (next a)) : Grows p (act >>= next) := by
  intro fs
  have hfirst := h fs
  have hsecond := hnext (act.run fs).1 (act.run fs).2
  rw [hfirst.leading] at hsecond
  exact hfirst.trans hsecond

theorem Grows.mono {q : FilePath} {act : StateM FileSystem α} (h : Grows q act)
    (himp : ∀ (fs : FileSystem) (loc : Location), fs.Leading q loc → fs.Leading p loc) :
    Grows p act :=
  fun fs => (h fs).mono (himp fs)

/-- One directory is made where nothing is, if there is leave to make it. -/
theorem makeDirectory_eq_ok : fs.makeDirectory p = .ok fs' ↔
    ∃ loc, fs.locate p = .ok loc ∧ fs.get? loc = none ∧ fs.refuses .create loc = none ∧
      fs' = fs.insert loc .directory := by
  rw [makeDirectory, bind_eq_ok]
  refine exists_congr fun loc => and_congr_right fun _ => ?_
  cases fs.get? loc with
  | none => simpa using permit_pure_eq_ok
  | some i => simp [bind, Except.bind, throw, throwThe, MonadExceptOf.throw]

/-- What is made is at the end of the path, which is a leading part of itself. -/
theorem grownBy_makeDirectory (h : fs.makeDirectory p = .ok fs') :
    GrownBy (fs.Leading p) fs fs' := by
  obtain ⟨loc, hloc, hnone, -, rfl⟩ := makeDirectory_eq_ok.mp h
  have hnil := ne_nil_of_get?_eq_none hnone
  refine ⟨rfl, rfl, fun other => ?_⟩
  by_cases hother : other = loc
  · subst hother
    refine Or.inr ⟨hnone, get?_insert_self hnil, p.names, ?_, List.prefix_refl _,
      locate_eq_lead hloc⟩
    intro hnames
    -- nothing is made at the root
    rw [locate_of_no_names (locate_eq_ok.mp hloc).1 hnames, Except.ok.injEq] at hloc
    exact hnil hloc.symm
  · exact Or.inl (get?_insert_of_ne hother)

theorem run_makeDirectory (p : FilePath) (fs : FileSystem) :
    (Storage.makeDirectory p : StateM FileSystem (Except IoFault Unit)).run fs =
      (match fs.makeDirectory p with
       | .ok fs => (.ok (), fs)
       | .error fault => (.error fault, fs)) := rfl

theorem grows_makeDirectory (p : FilePath) :
    Grows p (Storage.makeDirectory p : StateM FileSystem (Except IoFault Unit)) := by
  intro fs
  rw [run_makeDirectory]
  cases h : fs.makeDirectory p with
  | error fault => exact .refl _ fs
  | ok fs' => exact grownBy_makeDirectory h

/-- Looking for a directory changes nothing. -/
theorem run_madeOr (p : FilePath) (fault : IoFault) (fs : FileSystem) :
    (Storage.madeOr p fault : StateM FileSystem (Except IoFault Unit)).run fs =
      (if fs.isDirectory p then .ok () else .error fault, fs) := by
  show ((if fs.isDirectory p then pure (.ok ()) else pure (.error fault) :
    StateM FileSystem (Except IoFault Unit)).run fs) = _
  cases fs.isDirectory p <;> rfl

theorem grows_madeOr (p q : FilePath) (fault : IoFault) :
    Grows p (Storage.madeOr q fault : StateM FileSystem (Except IoFault Unit)) := by
  intro fs
  rw [run_madeOr]
  exact .refl _ fs

/-- Making one directory after those before it grows the file system by what the two actions make.
-/
theorem grows_makeAfter {before : StateM FileSystem (Except IoFault Unit)} (h : Grows p before) :
    Grows p (Storage.makeAfter before p) := by
  refine (grows_makeDirectory p).bind fun made => ?_
  split
  · exact grows_pure p _
  · refine h.bind fun ready => ?_
    cases ready with
    | error fault => exact grows_pure p _
    | ok =>
      refine (grows_makeDirectory p).bind fun made => ?_
      cases made with
      | error fault => exact grows_madeOr p p fault
      | ok => exact grows_pure p _
  · exact grows_madeOr p p _

/-- Leading parts of a part are leading parts of the whole. -/
theorem Leading.of_prefix {q : FilePath} (habsolute : q.absolute = p.absolute)
    (hnames : q.names <+: p.names) (fs : FileSystem) (loc : Location) (h : fs.Leading q loc) :
    fs.Leading p loc := by
  obtain ⟨part, hpart, hbegins, rfl⟩ := h
  refine ⟨part, hpart, hbegins.trans hnames, ?_⟩
  rw [start, start, habsolute]

/-- Each directory on the way is a leading part of the path. -/
theorem grows_makeSteps (absolute : Bool) (names : List String) :
    Grows { absolute, names := names.reverse, asDirectory := false }
      (Storage.makeSteps absolute names : StateM FileSystem (Except IoFault Unit)) := by
  induction names with
  | nil => exact grows_pure _ _
  | cons n before ih =>
    rw [Storage.makeSteps]
    refine grows_makeAfter (ih.mono (Leading.of_prefix rfl ?_))
    rw [List.reverse_cons]
    exact List.prefix_append _ _

/-- Leading parts of the parent, which has no single dots, lead where leading parts of the path do.
-/
theorem leading_of_parent (fs : FileSystem) (loc : Location) (h : fs.Leading p.parent loc) :
    fs.Leading p loc := by
  obtain ⟨part, hpart, hbegins, rfl⟩ := h
  obtain ⟨whole, hwhole, rfl⟩ :=
    List.prefix_filter_iff.mp (hbegins.trans (List.dropLast_prefix p.steps))
  refine ⟨whole, ?_, hwhole, lead_filter_dots whole _⟩
  rintro rfl
  exact hpart rfl

/-- Making a directory and those that lead to it adds directories on the way and nothing else,
also when it fails. -/
theorem grows_makeDirectories (p : FilePath) :
    Grows p (Storage.makeDirectories p : StateM FileSystem (Except IoFault Unit)) := by
  rw [Storage.makeDirectories]
  by_cases hempty : p.isEmpty = true
  · rw [if_pos hempty]
    exact grows_pure p _
  · rw [if_neg hempty]
    refine grows_makeAfter ((grows_makeSteps p.absolute p.parent.names.reverse).mono ?_)
    rw [List.reverse_reverse]
    exact leading_of_parent

end Growing

/-! ## Directories at given places -/

section Adding

/-- A directory, where nothing was. -/
def addDirectory (fs : FileSystem) (loc : Location) : FileSystem :=
  if fs.get? loc = none then fs.insert loc .directory else fs

/-- Directories at all these places, where nothing was. -/
def withDirectories (fs : FileSystem) (locs : List Location) : FileSystem :=
  locs.foldl addDirectory fs

theorem addDirectory_of_none (h : fs.get? loc = none) :
    fs.addDirectory loc = fs.insert loc .directory := if_pos h

theorem addDirectory_of_ne_none (h : fs.get? loc ≠ none) : fs.addDirectory loc = fs := if_neg h

theorem addDirectory_of_directory (h : fs.get? loc = some .directory) : fs.addDirectory loc = fs :=
  addDirectory_of_ne_none (by rw [h]; exact Option.some_ne_none _)

/-- The last place comes last. -/
theorem withDirectories_concat (fs : FileSystem) (locs : List Location) (loc : Location) :
    fs.withDirectories (locs ++ [loc]) = (fs.withDirectories locs).addDirectory loc := by
  rw [withDirectories, List.foldl_append]
  rfl

/-- Where something is already, nothing has to be added. -/
theorem withDirectories_eq_self {locs : List Location} (h : ∀ loc ∈ locs, fs.get? loc ≠ none) :
    fs.withDirectories locs = fs := by
  induction locs with
  | nil => rfl
  | cons loc locs ih =>
    have hrest := ih fun other hother => h other (List.mem_cons_of_mem loc hother)
    rw [withDirectories, List.foldl_cons, addDirectory_of_ne_none (h loc List.mem_cons_self)]
    exact hrest

/-- Adding a directory changes nothing elsewhere. -/
theorem grownBy_addDirectory (fs : FileSystem) (loc : Location) :
    GrownBy (· = loc) fs (fs.addDirectory loc) := by
  by_cases hnone : fs.get? loc = none
  · rw [addDirectory_of_none hnone]
    refine ⟨rfl, rfl, fun other => ?_⟩
    by_cases hother : other = loc
    · subst hother
      exact Or.inr ⟨hnone, get?_insert_self (ne_nil_of_get?_eq_none hnone), rfl⟩
    · exact Or.inl (get?_insert_of_ne hother)
  · rw [addDirectory_of_ne_none hnone]
    exact .refl _ fs

/-- Adding directories changes nothing but at the places where nothing was. -/
theorem grownBy_withDirectories (fs : FileSystem) (locs : List Location) :
    GrownBy (· ∈ locs) fs (fs.withDirectories locs) := by
  induction locs using List.reverseRecOn with
  | nil => exact .refl _ fs
  | append_singleton locs loc ih =>
    rw [withDirectories_concat]
    refine (ih.mono fun other hother => List.mem_append_left _ hother).trans
      ((grownBy_addDirectory _ loc).mono fun other hother => ?_)
    rw [hother]
    exact List.mem_append_right _ List.mem_cons_self

/-- Behind it a directory is there, unless a file was. -/
theorem get?_addDirectory_self (h : fs.get? loc = none ∨ fs.get? loc = some .directory) :
    (fs.addDirectory loc).get? loc = some .directory := by
  rcases h with hnone | hdir
  · rw [addDirectory_of_none hnone, get?_insert_self (ne_nil_of_get?_eq_none hnone)]
  · rw [addDirectory_of_directory hdir, hdir]

/-- Behind them, something is at each of the places. -/
theorem get?_withDirectories_ne_none {locs : List Location} (h : loc ∈ locs) :
    (fs.withDirectories locs).get? loc ≠ none := by
  induction locs using List.reverseRecOn with
  | nil => cases h
  | append_singleton locs last ih =>
    rw [withDirectories_concat]
    have hgrown := grownBy_addDirectory (fs.withDirectories locs) last
    by_cases hloc : (fs.withDirectories locs).get? loc = none
    · rcases List.mem_append.mp h with hlocs | hlast
      · exact absurd hloc (ih hlocs)
      · obtain rfl := List.mem_singleton.mp hlast
        rw [get?_addDirectory_self (.inl hloc)]
        exact Option.some_ne_none _
    · rwa [hgrown.get?_of_ne_none hloc]

/-- Behind them, directories are at those of the places where nothing was. -/
theorem get?_withDirectories (fs : FileSystem) (locs : List Location) (loc : Location) :
    (fs.withDirectories locs).get? loc =
      if fs.get? loc = none ∧ loc ∈ locs then some .directory else fs.get? loc := by
  by_cases h : fs.get? loc = none ∧ loc ∈ locs
  · rw [if_pos h]
    rcases (grownBy_withDirectories fs locs).get? loc with hsame | ⟨-, hdir, -⟩
    · rw [h.1] at hsame
      exact absurd hsame (get?_withDirectories_ne_none h.2)
    · exact hdir
  · rw [if_neg h]
    rcases (grownBy_withDirectories fs locs).get? loc with hsame | ⟨hnone, -, hmem⟩
    · exact hsame
    · exact absurd ⟨hnone, hmem⟩ h

end Adding

/-! ## When a directory can be made -/

section Along

/-- Where names lead, one after the other. -/
def along (loc : Location) : List String → List Location
  | [] => []
  | n :: names => follow loc n :: along (follow loc n) names

/-- Names that follow others go on from where those lead. -/
theorem along_append (names more : List String) : ∀ loc : Location,
    along loc (names ++ more) = along loc names ++ along (lead loc names) more := by
  induction names with
  | nil => exact fun loc => rfl
  | cons n names ih =>
    intro loc
    rw [List.cons_append, along, along, ih, List.cons_append]
    rfl

/-- The places on the way are those that a leading part of the names leads to. -/
theorem mem_along {names : List String} : ∀ {loc : Location},
    other ∈ along loc names ↔ ∃ part, part ≠ [] ∧ part <+: names ∧ other = lead loc part := by
  induction names with
  | nil =>
    intro loc
    simp [along]
  | cons n names ih =>
    intro loc
    rw [along, List.mem_cons, ih]
    constructor
    · rintro (rfl | ⟨part, -, hpart, rfl⟩)
      · exact ⟨[n], List.cons_ne_nil _ _, List.cons_prefix_cons.mpr ⟨rfl, List.nil_prefix⟩, rfl⟩
      · exact ⟨n :: part, List.cons_ne_nil _ _, List.cons_prefix_cons.mpr ⟨rfl, hpart⟩, rfl⟩
    · rintro ⟨part, hnil, hpart, rfl⟩
      cases part with
      | nil => exact absurd rfl hnil
      | cons m part =>
        obtain ⟨rfl, hmore⟩ := List.cons_prefix_cons.mp hpart
        by_cases hrest : part = []
        · subst hrest
          exact Or.inl rfl
        · exact Or.inr ⟨part, hrest, hmore, rfl⟩

end Along

end FileSystem

namespace FilePath

/-- The last name is a step, not a dot. -/
def endsInStep (p : FilePath) : Bool := p.names.getLast?.any (· != ".")

/-- The steps behind which a directory is made.  From a step with a dot behind it the path goes
on, so there has to be a directory already. -/
def made (p : FilePath) : List String :=
  let steps := p.names.filter (· != ".")
  if p.endsInStep then steps else steps.dropLast

variable {p : FilePath}

theorem exists_names_of_endsInStep (h : p.endsInStep = true) :
    ∃ before n, p.names = before ++ [n] ∧ n ≠ "." := by
  rw [endsInStep] at h
  cases hlast : p.names.getLast? with
  | none => simp [hlast] at h
  | some n =>
    refine ⟨p.names.dropLast, n, (List.dropLast_append_getLast? n hlast).symm, ?_⟩
    simpa [hlast] using h

/-- A path that does not end in a step has no names, or ends in a single dot. -/
theorem names_of_not_endsInStep (h : p.endsInStep = false) :
    p.names = [] ∨ ∃ before, p.names = before ++ ["."] := by
  rcases List.eq_nil_or_concat' p.names with hnil | ⟨before, n, hnames⟩
  · exact Or.inl hnil
  · have hdot : n = "." := by simpa [endsInStep, hnames] using h
    exact Or.inr ⟨before, hdot ▸ hnames⟩

theorem names_of_isEmpty (h : p.isEmpty = true) : p.names = [] := by
  rw [isEmpty, Bool.and_eq_true, List.isEmpty_iff] at h
  exact h.2

theorem names_ne_nil_of_parent (h : p.parent.names ≠ []) : p.names ≠ [] := by
  intro hnil
  refine h ?_
  rw [parent, steps, hnil]
  rfl

/-- The parent is made of steps, so there is no single dot in it. -/
theorem dot_notMem_parent (p : FilePath) : "." ∉ p.parent.names := by
  intro h
  have hstep : "." ∈ p.steps := (List.dropLast_subset p.steps) h
  simp [steps] at hstep

theorem made_eq_steps (p : FilePath) :
    p.made = if p.endsInStep then p.steps else p.steps.dropLast := rfl

/-- Without dots all names are steps. -/
theorem steps_of_dotless (h : "." ∉ p.names) : p.steps = p.names :=
  List.filter_eq_self.mpr fun n hn => by
    rw [bne_iff_ne]
    rintro rfl
    exact h hn

/-- Without dots directories are made behind all names. -/
theorem made_of_dotless (h : "." ∉ p.names) : p.made = p.names := by
  rw [made_eq_steps, steps_of_dotless h]
  cases hstep : p.endsInStep with
  | true => rfl
  | false =>
    rcases names_of_not_endsInStep hstep with hnil | ⟨before, hnames⟩
    · rw [hnil]
      rfl
    · exact absurd (by simp [hnames]) h

theorem parent_of_dotless (h : "." ∉ p.names) :
    p.parent = { absolute := p.absolute, names := p.names.dropLast, asDirectory := false } := by
  rw [parent, steps_of_dotless h]

/-- The parent is the path up to the last step. -/
theorem steps_eq_parent_concat (h : p.steps ≠ []) : ∃ n, p.steps = p.parent.names ++ [n] :=
  ⟨p.steps.getLast h, (List.dropLast_concat_getLast h).symm⟩

end FilePath

namespace FileSystem

section Makeable

variable {fs fs' fs₁ : FileSystem} {loc other : Location} {p : FilePath}

/-- Where the directories are that a path needs. -/
def places (fs : FileSystem) (p : FilePath) : List Location := along (fs.start p) p.made

/-- The directory can be made, with those that lead to it. -/
structure Makeable (fs : FileSystem) (p : FilePath) : Prop where
  /-- The way starts at a directory. -/
  start : p.names ≠ [] → fs.get? (fs.start p) = some .directory
  /-- Where nothing is yet, there is leave to make a directory. -/
  permitted : ∀ loc ∈ fs.places p, fs.get? loc = none → fs.refuses .create loc = none
  /-- With a directory at each place where nothing is yet, the path leads to a directory. -/
  leads : (fs.withDirectories (fs.places p)).isDirectory p = true

/-- The file system has gained the directories that a path needs.  An empty path needs none. -/
def Made (fs : FileSystem) (p : FilePath) (fs' : FileSystem) : Prop :=
  (p.isEmpty = true ∨ fs.Makeable p) ∧ fs' = fs.withDirectories (fs.places p)

/-- The parent needs a directory at each place on the way to it. -/
theorem places_parent (fs : FileSystem) (p : FilePath) :
    fs.places p.parent = along (fs.start p) p.parent.names := by
  rw [places, FilePath.made_of_dotless p.dot_notMem_parent]
  rfl

/-- A path that ends in a step needs one directory more than its parent. -/
theorem places_of_endsInStep (h : p.endsInStep = true) :
    fs.places p = fs.places p.parent ++ [lead (fs.start p) p.names] := by
  obtain ⟨before, n, hnames, hdot⟩ := FilePath.exists_names_of_endsInStep h
  have hlead : lead (fs.start p) p.names = lead (fs.start p) p.steps :=
    (lead_filter_dots p.names _).symm
  rw [places_parent, places, FilePath.made_eq_steps, if_pos h, hlead, steps_eq_concat hnames hdot,
    parent_names_eq hnames hdot, along_append, lead, lead, List.foldl_append]
  rfl

/-- A dot at the end needs no directory of its own. -/
theorem places_of_not_endsInStep (h : p.endsInStep = false) :
    fs.places p = fs.places p.parent := by
  rw [places_parent, places, FilePath.made_eq_steps, h]
  rfl

/-- A path needs all directories that its parent needs. -/
theorem mem_places_of_parent (h : other ∈ fs.places p.parent) : other ∈ fs.places p := by
  cases hstep : p.endsInStep with
  | false => rwa [places_of_not_endsInStep hstep]
  | true =>
    rw [places_of_endsInStep hstep]
    exact List.mem_append_left _ h

/-! ### What a path that leads somewhere goes by -/

/-- A path with names that leads somewhere starts at a directory. -/
theorem start_of_locate (hnames : p.names ≠ []) (h : fs.locate p = .ok loc) :
    fs.get? (fs.start p) = some .directory := by
  obtain ⟨-, hwalk⟩ := locate_eq_ok.mp h
  cases hp : p.names with
  | nil => exact absurd hp hnames
  | cons n names =>
    rw [hp] at hwalk
    exact (walk_cons_eq_ok.mp hwalk).1

/-- A path that does not end in a step leads to a directory, if anywhere. -/
theorem get?_of_locate (hstep : p.endsInStep = false) (h : fs.locate p = .ok loc) :
    fs.get? loc = some .directory := by
  obtain ⟨hempty, hwalk⟩ := locate_eq_ok.mp h
  rcases FilePath.names_of_not_endsInStep hstep with hnames | ⟨before, hnames⟩
  · rw [locate_of_no_names hempty hnames, Except.ok.injEq] at h
    rw [← h]
    rfl
  · rw [hnames] at hwalk
    obtain ⟨dir, -, hdot⟩ := walk_append.mp hwalk
    obtain ⟨hdir, -, -, hsame⟩ := walk_cons_eq_ok.mp hdot
    rw [walk, Except.ok.injEq] at hsame
    rw [← hsame]
    exact hdir

/-- All that leads to the last step are directories. -/
theorem directory_of_locate {part : List String} (h : fs.locate p = .ok loc)
    (hsteps : p.steps ≠ []) (hpart : part <+: p.parent.names) :
    fs.get? (lead (fs.start p) part) = some .directory := by
  obtain ⟨n, hn⟩ := FilePath.steps_eq_parent_concat hsteps
  have hwalk : fs.walk (fs.start p) p.steps = .ok loc := walk_filter_dots (locate_eq_ok.mp h).2
  obtain ⟨rest, hrest⟩ := hpart
  have hnext : ∃ m, part ++ [m] <+: p.steps := by
    rw [hn, ← hrest]
    cases rest with
    | nil => exact ⟨n, by simp⟩
    | cons m rest => exact ⟨m, by simp⟩
  obtain ⟨m, hm⟩ := hnext
  exact ((walk_eq_ok_iff.mp hwalk).2 part m hm).1

/-- Where a path leads somewhere, all directories that its parent needs are there. -/
theorem directories_of_locate (h : fs.locate p = .ok loc) :
    ∀ place ∈ fs.places p.parent, fs.get? place = some .directory := by
  intro place hplace
  rw [places_parent] at hplace
  obtain ⟨part, hpart, hbegins, rfl⟩ := mem_along.mp hplace
  refine directory_of_locate h (fun hnil => ?_) hbegins
  rw [FilePath.parent, hnil] at hbegins
  exact hpart (List.prefix_nil.mp hbegins)

/-- Where a path leads somewhere, its parent is a directory, or there is no parent to speak of. -/
theorem isDirectory_parent_of_locate (h : fs.locate p = .ok loc) :
    p.parent.isEmpty = true ∨ fs.isDirectory p.parent = true := by
  cases hempty : p.parent.isEmpty with
  | true => exact Or.inl rfl
  | false =>
    refine Or.inr (isDirectory_iff.mpr ?_)
    by_cases hsteps : p.steps = []
    · have hnames : p.parent.names = [] := by rw [FilePath.parent, hsteps]; rfl
      exact ⟨[], locate_of_no_names hempty hnames, rfl⟩
    · obtain ⟨n, hn⟩ := FilePath.steps_eq_parent_concat hsteps
      have hwalk : fs.walk (fs.start p) p.steps = .ok loc := walk_filter_dots (locate_eq_ok.mp h).2
      rw [hn] at hwalk
      obtain ⟨dir, hparent, hlast⟩ := walk_append.mp hwalk
      exact ⟨dir, locate_eq_ok.mpr ⟨hempty, hparent⟩, (walk_cons_eq_ok.mp hlast).1⟩

/-- Where the path leads somewhere already, those that lead to it are there. -/
theorem made_parent_of_locate (h : fs.locate p = .ok loc) : fs.Made p.parent fs := by
  have hdirs := directories_of_locate h
  have hsame : fs.withDirectories (fs.places p.parent) = fs :=
    withDirectories_eq_self fun place hplace => by
      rw [hdirs place hplace]
      exact Option.some_ne_none _
  refine ⟨(isDirectory_parent_of_locate h).imp_right fun hparent => ?_, hsame.symm⟩
  refine { start := ?_, permitted := ?_, leads := by rwa [hsame] }
  · exact fun hnames => start_of_locate (p := p) (FilePath.names_ne_nil_of_parent hnames) h
  · intro place hplace hnone
    rw [hdirs place hplace] at hnone
    cases hnone

/-! ### One step of making -/

/-- There is a directory at the end of the path, or it is made there. -/
def Opened (fs : FileSystem) (p : FilePath) (fs' : FileSystem) : Prop :=
  ∃ loc, fs.locate p = .ok loc ∧
    (fs.get? loc = some .directory ∨ fs.get? loc = none ∧ fs.refuses .create loc = none) ∧
    fs' = fs.addDirectory loc

theorem Made.grownBy (h : fs.Made p fs') : GrownBy (· ∈ fs.places p) fs fs' := by
  rw [h.2]
  exact grownBy_withDirectories fs _

theorem places_of_no_names (hnames : p.names = []) : fs.places p = [] := by
  rw [places, FilePath.made_of_dotless (by simp [hnames]), hnames]
  rfl

/-- Without names there is nothing to make. -/
theorem made_of_no_names (hnames : p.names = []) : fs.Made p fs' ↔ fs' = fs := by
  have hnone : fs.withDirectories (fs.places p) = fs := by
    rw [places_of_no_names hnames]
    rfl
  rw [Made, hnone]
  refine and_iff_right ?_
  cases hempty : p.isEmpty with
  | true => exact Or.inl rfl
  | false =>
    refine Or.inr { start := absurd hnames, permitted := ?_, leads := ?_ }
    · rw [places_of_no_names hnames]
      exact fun place hplace => absurd hplace List.not_mem_nil
    · rw [hnone]
      exact isDirectory_iff.mpr ⟨[], locate_of_no_names hempty hnames, rfl⟩

/-- There was leave to make all that is missing. -/
theorem Made.permitted (h : fs.Made p fs') :
    ∀ place ∈ fs.places p, fs.get? place = none → fs.refuses .create place = none := by
  intro place hplace
  rcases h.1 with hempty | hmakeable
  · rw [places_of_no_names (FilePath.names_of_isEmpty hempty)] at hplace
    cases hplace
  · exact hmakeable.permitted place hplace

/-- The start is not among what was made. -/
theorem Made.start (h : fs.Made p.parent fs₁) (hdir : fs₁.get? (fs.start p) = some .directory) :
    fs.get? (fs.start p) = some .directory := by
  obtain ⟨hparent, hfs⟩ := h
  by_cases hnames : p.parent.names = []
  · have hnone : fs.places p.parent = [] := by
      rw [places_parent, hnames]
      rfl
    rw [hfs, hnone] at hdir
    exact hdir
  · have hmakeable := hparent.resolve_left fun hempty => hnames (FilePath.names_of_isEmpty hempty)
    exact hmakeable.start hnames

/-- There was leave for the last directory too, if it was missing. -/
theorem Made.permitted_last (h : fs.Made p.parent fs₁)
    (hfree : fs₁.get? loc = some .directory ∨
      fs₁.get? loc = none ∧ fs₁.refuses .create loc = none)
    (hnone : fs.get? loc = none) : fs.refuses .create loc = none := by
  rcases hfree with hdir | ⟨-, hcreate⟩
  · -- a directory that was not there before is one of those that were made
    rw [h.2, get?_withDirectories, hnone] at hdir
    by_cases hplace : loc ∈ fs.places p.parent
    · exact h.permitted loc hplace hnone
    · simp [hplace] at hdir
  · rwa [h.grownBy.refuses] at hcreate

/-- Making those that lead to a directory, and then the last one, makes the directory. -/
theorem made_of_opened (h : fs.Made p.parent fs₁) (hopened : fs₁.Opened p fs') :
    fs.Made p fs' := by
  obtain ⟨loc, hloc, hfree, rfl⟩ := hopened
  have hways := h.grownBy.sameWays
  have hstart := hways.start p
  have hlead : loc = lead (fs.start p) p.names := hstart ▸ locate_eq_lead hloc
  have hadded : fs₁.addDirectory loc = fs.withDirectories (fs.places p) := by
    cases hstep : p.endsInStep with
    | true => rw [places_of_endsInStep hstep, withDirectories_concat, ← h.2, ← hlead]
    | false =>
      rw [places_of_not_endsInStep hstep, ← h.2]
      exact addDirectory_of_directory (get?_of_locate hstep hloc)
  refine ⟨.inr { start := ?_, permitted := ?_, leads := ?_ }, hadded⟩
  · intro hnames
    refine h.start ?_
    rw [← hstart]
    exact start_of_locate hnames hloc
  · intro place hplace hnone
    cases hstep : p.endsInStep with
    | false =>
      rw [places_of_not_endsInStep hstep] at hplace
      exact h.permitted place hplace hnone
    | true =>
      rw [places_of_endsInStep hstep, ← hlead, List.mem_append, List.mem_singleton] at hplace
      rcases hplace with hplace | rfl
      · exact h.permitted place hplace hnone
      · exact h.permitted_last hfree hnone
  · rw [← hadded]
    have hgrown := (grownBy_addDirectory fs₁ loc).sameWays
    exact isDirectory_iff.mpr
      ⟨loc, hgrown.locate hloc, get?_addDirectory_self (hfree.symm.imp_left And.left)⟩

/-- What leads to the last step is the start, or it was put there. -/
theorem get?_lead_ne_none (hstart : p.names ≠ [] → fs.get? (fs.start p) = some .directory)
    (hstep : p.endsInStep = true) {part : List String} {m : String}
    (hpart : part ++ [m] <+: p.names) :
    (fs.withDirectories (fs.places p.parent)).get? (lead (fs.start p) part) ≠ none := by
  obtain ⟨before, n, hnames, hdot⟩ := FilePath.exists_names_of_endsInStep hstep
  have hbefore : part <+: before := by
    rw [hnames] at hpart
    have hlength := hpart.length_le
    rw [List.length_append, List.length_append] at hlength
    exact List.prefix_of_prefix_length_le ((List.prefix_append part [m]).trans hpart)
      (List.prefix_append before [n]) (Nat.le_of_add_le_add_right hlength)
  have hsteps := hbefore.filter (· != ".")
  rw [← parent_names_eq hnames hdot] at hsteps
  rw [← lead_filter_dots]
  by_cases hnil : part.filter (· != ".") = []
  · rw [hnil, lead, List.foldl_nil,
      (grownBy_withDirectories fs _).sameWays.directory _ (hstart (by rw [hnames]; simp))]
    exact Option.some_ne_none _
  · refine get?_withDirectories_ne_none ?_
    rw [places_parent]
    exact mem_along.mpr ⟨_, hnil, hsteps, rfl⟩

/-- The last directory is not needed to get to it. -/
theorem locate_before (hstart : p.names ≠ [] → fs.get? (fs.start p) = some .directory)
    (hstep : p.endsInStep = true)
    (h : ((fs.withDirectories (fs.places p.parent)).addDirectory other).locate p = .ok loc) :
    (fs.withDirectories (fs.places p.parent)).locate p = .ok loc := by
  have hgrown := grownBy_withDirectories fs (fs.places p.parent)
  have hadded := grownBy_addDirectory (fs.withDirectories (fs.places p.parent)) other
  obtain ⟨hempty, hwalk⟩ := locate_eq_ok.mp h
  obtain ⟨hlead, hall⟩ := walk_eq_ok_iff.mp hwalk
  rw [hadded.sameWays.start] at hlead hall
  refine locate_eq_ok.mpr ⟨hempty, walk_eq_ok_iff.mpr ⟨hlead, fun part m hpart => ?_⟩⟩
  obtain ⟨hdir, hsearch, hlen⟩ := hall part m hpart
  rw [hadded.refuses] at hsearch
  rw [hgrown.sameWays.start] at hdir hsearch ⊢
  rw [hadded.get?_of_ne_none (get?_lead_ne_none hstart hstep hpart)] at hdir
  exact ⟨hdir, hsearch, hlen⟩

/-- Where the path leads somewhere once its parent is there, the parent can be made. -/
theorem Makeable.made_parent (h : fs.Makeable p)
    (hloc : (fs.withDirectories (fs.places p.parent)).locate p = .ok loc) :
    fs.Made p.parent (fs.withDirectories (fs.places p.parent)) := by
  refine ⟨(isDirectory_parent_of_locate hloc).imp_right fun hleads => ?_, rfl⟩
  refine { start := ?_, permitted := fun place hplace => ?_, leads := hleads }
  · exact fun hnames => h.start (FilePath.names_ne_nil_of_parent hnames)
  · exact h.permitted place (mem_places_of_parent hplace)

/-- Where the last step leads there is a directory, or one may be made. -/
theorem Makeable.free_last (h : fs.Makeable p) (hstep : p.endsInStep = true)
    (hlead : loc = lead (fs.start p) p.names) {fs₁ : FileSystem}
    (hgrown : GrownBy (· ∈ fs.places p.parent) fs fs₁)
    (hdir : (fs₁.addDirectory loc).get? loc = some .directory) :
    fs₁.get? loc = some .directory ∨ fs₁.get? loc = none ∧ fs₁.refuses .create loc = none := by
  by_cases hnone : fs₁.get? loc = none
  · refine Or.inr ⟨hnone, ?_⟩
    rw [hgrown.refuses]
    refine h.permitted loc ?_ ?_
    · rw [places_of_endsInStep hstep, ← hlead]
      exact List.mem_append_right _ List.mem_cons_self
    · by_contra hsome
      rw [hgrown.get?_of_ne_none hsome] at hnone
      exact hsome hnone
  · rw [(grownBy_addDirectory _ loc).get?_of_ne_none hnone] at hdir
    exact Or.inl hdir

/-- What can be made at all can be made in two steps: first those that lead to it, then the last
one. -/
theorem opened_of_made (hempty : p.isEmpty = false) (h : fs.Made p fs') :
    ∃ fs₁, fs.Made p.parent fs₁ ∧ fs₁.Opened p fs' := by
  obtain ⟨hmade, rfl⟩ := h
  have hmakeable := hmade.resolve_left (ne_true_of_eq_false hempty)
  obtain ⟨loc, hloc, hdir⟩ := isDirectory_iff.mp hmakeable.leads
  refine ⟨fs.withDirectories (fs.places p.parent), ?_⟩
  cases hstep : p.endsInStep with
  | false =>
    rw [places_of_not_endsInStep hstep] at hloc hdir ⊢
    exact ⟨hmakeable.made_parent hloc, loc, hloc, .inl hdir,
      (addDirectory_of_directory hdir).symm⟩
  | true =>
    have hgrown := grownBy_withDirectories fs (fs.places p.parent)
    have hlead : loc = lead (fs.start p) p.names := by
      rw [locate_eq_lead hloc, (grownBy_withDirectories fs _).sameWays.start]
    rw [places_of_endsInStep hstep, withDirectories_concat, ← hlead] at hloc hdir ⊢
    have hbefore := locate_before hmakeable.start hstep hloc
    exact ⟨hmakeable.made_parent hbefore, loc, hbefore,
      hmakeable.free_last hstep hlead hgrown hdir, rfl⟩

end Makeable

/-! ## Making the directories -/

section Making

variable {fs fs' fs₁ : FileSystem} {loc : Location} {p : FilePath}

/-- There is a directory in the end if it is made, or if it could not be made since it is there. -/
theorem opened_iff : fs.Opened p fs' ↔
    fs.makeDirectory p = .ok fs' ∨ fs.isDirectory p = true ∧ fs' = fs := by
  constructor
  · rintro ⟨loc, hloc, hdir | ⟨hnone, hcreate⟩, rfl⟩
    · refine Or.inr ⟨isDirectory_iff.mpr ⟨loc, hloc, hdir⟩, ?_⟩
      exact addDirectory_of_directory hdir
    · rw [addDirectory_of_none hnone]
      exact Or.inl (makeDirectory_eq_ok.mpr ⟨loc, hloc, hnone, hcreate, rfl⟩)
  · rintro (hmade | ⟨hdir, rfl⟩)
    · obtain ⟨loc, hloc, hnone, hcreate, rfl⟩ := makeDirectory_eq_ok.mp hmade
      exact ⟨loc, hloc, .inr ⟨hnone, hcreate⟩, (addDirectory_of_none hnone).symm⟩
    · obtain ⟨loc, hloc, hdir⟩ := isDirectory_iff.mp hdir
      exact ⟨loc, hloc, .inl hdir, (addDirectory_of_directory hdir).symm⟩

/-- What is tried when everything that leads to a directory is there. -/
theorem run_madeOr_eq_ok {fault : IoFault} (h : fs.makeDirectory p = .error fault) :
    (Storage.madeOr p fault : StateM FileSystem (Except IoFault Unit)).run fs = (.ok (), fs') ↔
      fs.Opened p fs' := by
  rw [run_madeOr, opened_iff, h]
  cases fs.isDirectory p with
  | true =>
    refine ⟨fun hrun => .inr ⟨rfl, (congrArg Prod.snd hrun).symm⟩, ?_⟩
    rintro (⟨⟨⟩⟩ | ⟨-, rfl⟩)
    rfl
  | false =>
    refine iff_of_false error_ne_ok ?_
    rintro (⟨⟨⟩⟩ | ⟨⟨⟩, -⟩)

/-- A way that fails, but works once directories were added, fails since one is missing. -/
theorem walk_eq_notFound {new : Location → Prop} (hgrown : GrownBy new fs fs₁)
    {names : List String} {fault : IoFault} : ∀ {start : Location},
    fs₁.walk start names = .ok loc → fs.walk start names = .error fault → fault = .notFound := by
  induction names with
  | nil =>
    intro start _ hfails
    cases hfails
  | cons n names ih =>
    intro start hworks hfails
    obtain ⟨hdir, hsearch, hlen, hrest⟩ := walk_cons_eq_ok.mp hworks
    rw [hgrown.refuses] at hsearch
    rcases hgrown.get? start with hsame | ⟨hnone, -, -⟩
    · rw [hsame] at hdir
      rw [walk_cons_of_directory hdir hsearch hlen] at hfails
      exact ih hrest hfails
    · rw [walk, hnone] at hfails
      exact (Except.error.inj hfails).symm

/-- A path that leads nowhere, but leads somewhere once directories were added, does so since one
is missing. -/
theorem locate_eq_notFound {new : Location → Prop} (hgrown : GrownBy new fs fs₁)
    {fault : IoFault} (hworks : fs₁.locate p = .ok loc) (hfails : fs.locate p = .error fault) :
    fault = .notFound := by
  obtain ⟨hempty, hworks⟩ := locate_eq_ok.mp hworks
  rw [locate, hempty] at hfails
  rw [hgrown.sameWays.start] at hworks
  exact walk_eq_notFound hgrown hworks hfails

/-- The second try, once everything that leads to a directory was made. -/
theorem run_retry_eq_ok (p : FilePath) (fs fs' : FileSystem) :
    (match fs.makeDirectory p with
     | .ok made => (.ok (), made)
     | .error fault =>
       (Storage.madeOr p fault : StateM FileSystem (Except IoFault Unit)).run fs) = (.ok (), fs') ↔
      fs.Opened p fs' := by
  cases hmake : fs.makeDirectory p with
  | error fault => exact run_madeOr_eq_ok hmake
  | ok made =>
    rw [opened_iff, hmake]
    refine ⟨fun hrun => .inl (congrArg (Except.ok ∘ Prod.snd) hrun), ?_⟩
    rintro (⟨⟨⟩⟩ | ⟨hdir, rfl⟩)
    · rfl
    · -- what is there is not made
      obtain ⟨loc, hloc, hdir⟩ := isDirectory_iff.mp hdir
      obtain ⟨loc', hloc', hnone, -⟩ := makeDirectory_eq_ok.mp hmake
      obtain rfl : loc = loc' := Except.ok.inj (hloc.symm.trans hloc')
      rw [hdir] at hnone
      cases hnone

section Trying

variable {before : StateM FileSystem (Except IoFault Unit)}

/-- Something on the way is missing: it is made, and the directory is tried again. -/
theorem run_makeAfter_of_notFound (h : fs.makeDirectory p = .error .notFound) :
    (Storage.makeAfter before p).run fs =
      (match before.run fs with
       | (.error fault, fs₁) => (.error fault, fs₁)
       | (.ok (), fs₁) =>
         match fs₁.makeDirectory p with
         | .ok made => (.ok (), made)
         | .error fault =>
           (Storage.madeOr p fault : StateM FileSystem (Except IoFault Unit)).run fs₁) := by
  rw [Storage.makeAfter, run_bind, run_makeDirectory, h]
  dsimp only
  rw [run_bind]
  rcases before.run fs with ⟨fault | _, fs₁⟩
  · rfl
  · dsimp only
    rw [run_bind, run_makeDirectory]
    cases fs₁.makeDirectory p <;> rfl

/-- Nothing on the way is missing: the first try decides. -/
theorem run_makeAfter_of_found (h : fs.makeDirectory p ≠ .error .notFound) :
    (Storage.makeAfter before p).run fs =
      (match fs.makeDirectory p with
       | .ok made => (.ok (), made)
       | .error fault =>
         (Storage.madeOr p fault : StateM FileSystem (Except IoFault Unit)).run fs) := by
  rw [Storage.makeAfter, run_bind, run_makeDirectory]
  cases hmake : fs.makeDirectory p with
  | ok made => rfl
  | error fault =>
    cases fault with
    | notFound => exact absurd hmake h
    | _ => rfl

/-- Trying the last directory first comes to making those before it first, since these are made
only where something is missing. -/
theorem run_makeAfter_eq_ok
    (hgrows : ∀ {fs fs₁}, before.run fs = (.ok (), fs₁) → ∃ new, GrownBy new fs fs₁)
    (hready : ∀ {fs loc}, fs.locate p = .ok loc → before.run fs = (.ok (), fs)) :
    (Storage.makeAfter before p).run fs = (.ok (), fs') ↔
      ∃ fs₁, before.run fs = (.ok (), fs₁) ∧ fs₁.Opened p fs' := by
  by_cases hmissing : fs.makeDirectory p = .error .notFound
  · rw [run_makeAfter_of_notFound hmissing]
    rcases before.run fs with ⟨fault | _, fs₁⟩
    · refine iff_of_false error_ne_ok ?_
      rintro ⟨fs₁, h, -⟩
      cases h
    · refine (run_retry_eq_ok p fs₁ fs').trans ⟨fun h => ⟨fs₁, rfl, h⟩, ?_⟩
      rintro ⟨fs₂, ⟨⟩, h⟩
      exact h
  · rw [run_makeAfter_of_found hmissing]
    refine (run_retry_eq_ok p fs fs').trans ⟨fun h => ?_, ?_⟩
    · obtain ⟨loc, hloc, hadded⟩ := h
      exact ⟨fs, hready hloc, loc, hloc, hadded⟩
    · rintro ⟨fs₁, hbefore, hopened⟩
      -- nothing was missing, so nothing was made before
      cases hlocate : fs.locate p with
      | ok loc =>
        rw [hready hlocate] at hbefore
        cases hbefore
        exact hopened
      | error fault =>
        obtain ⟨new, hgrown⟩ := hgrows hbefore
        obtain ⟨loc, hloc, -⟩ := hopened
        obtain rfl := locate_eq_notFound hgrown hloc hlocate
        refine absurd ?_ hmissing
        rw [makeDirectory, hlocate]
        rfl

/-- A directory is made if those before it are. -/
theorem run_makeAfter_eq_ok_iff_made (hempty : p.isEmpty = false)
    (hparent : ∀ {fs fs₁}, before.run fs = (.ok (), fs₁) ↔ fs.Made p.parent fs₁) :
    (Storage.makeAfter before p).run fs = (.ok (), fs') ↔ fs.Made p fs' := by
  rw [run_makeAfter_eq_ok (p := p) (fun h => ⟨_, (hparent.mp h).grownBy⟩)
    (fun h => hparent.mpr (made_parent_of_locate h))]
  constructor
  · rintro ⟨fs₁, hbefore, hopened⟩
    exact made_of_opened (hparent.mp hbefore) hopened
  · intro hmade
    obtain ⟨fs₁, hbefore, hopened⟩ := opened_of_made hempty hmade
    exact ⟨fs₁, hparent.mpr hbefore, hopened⟩

end Trying

theorem run_pure_eq_ok (fs fs' : FileSystem) :
    (pure (.ok ()) : StateM FileSystem (Except IoFault Unit)).run fs = (.ok (), fs') ↔
      fs' = fs := by
  constructor
  · intro h
    exact (congrArg Prod.snd h).symm
  · rintro rfl
    rfl

/-- Making all directories that steps lead to. -/
theorem run_makeSteps_eq_ok (absolute : Bool) {names : List String} (hdots : "." ∉ names) :
    ∀ {fs fs' : FileSystem},
      (Storage.makeSteps absolute names.reverse : StateM FileSystem (Except IoFault Unit)).run fs =
          (.ok (), fs') ↔
        fs.Made { absolute, names, asDirectory := false } fs' := by
  induction names using List.reverseRecOn with
  | nil =>
    intro fs fs'
    rw [made_of_no_names rfl, List.reverse_nil, Storage.makeSteps]
    exact run_pure_eq_ok fs fs'
  | append_singleton names n ih =>
    intro fs fs'
    have hnames : "." ∉ names := fun h => hdots (List.mem_append_left _ h)
    rw [List.reverse_append, List.reverse_singleton, List.singleton_append, Storage.makeSteps,
      List.reverse_cons, List.reverse_reverse]
    refine run_makeAfter_eq_ok_iff_made (by simp [FilePath.isEmpty]) ?_
    rw [FilePath.parent_of_dotless hdots, List.dropLast_concat]
    exact ih hnames

/-- **Making a directory** succeeds if it can be made, and the file system then has gained the
directories that were missing. -/
theorem run_makeDirectories_eq_ok (p : FilePath) (fs fs' : FileSystem) :
    (Storage.makeDirectories p : StateM FileSystem (Except IoFault Unit)).run fs = (.ok (), fs') ↔
      fs.Made p fs' := by
  rw [Storage.makeDirectories]
  cases hempty : p.isEmpty with
  | true =>
    rw [made_of_no_names (FilePath.names_of_isEmpty hempty)]
    exact run_pure_eq_ok fs fs'
  | false => exact run_makeAfter_eq_ok_iff_made hempty (run_makeSteps_eq_ok _ p.dot_notMem_parent)

end Making

end FileSystem

end FlatApi
