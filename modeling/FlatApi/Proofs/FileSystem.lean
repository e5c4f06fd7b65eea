import FlatApi.FileSystem
import FlatApi.Proofs.Actions
import Mathlib.Data.List.Basic

/-!
# What is done to a file system

* A walk leads from directory to directory, along names that are not too long (`walk_eq_ok_iff`).
* The directory of a path is the one around the place that the path leads to
  (`locate_directory`).
* A file is replaced as a whole where it can be (`Writable`), and otherwise nothing is changed at
  all (`replaceText_cases`).
-/

namespace FlatApi

namespace FileSystem

variable {fs fs' : FileSystem} {loc other : Location} {i : Item}

/-! ## Entries -/

section Entries

theorem get?_cons (n : String) (loc : Location) :
    fs.get? (n :: loc) = fs.entries.lookup (n :: loc) := rfl

/-- Removing the entries at one location does not change what is found at others. -/
theorem lookup_filter_ne (h : other ≠ loc) (entries : List (Location × Item)) :
    (entries.filter (·.1 != loc)).lookup other = entries.lookup other := by
  induction entries with
  | nil => rfl
  | cons e entries ih =>
    by_cases he : e.1 = loc
    · have hother : (other == e.1) = false := by simpa [he] using h
      rw [List.filter_cons_of_neg (by simpa using he), ih, List.lookup_cons, hother]
    · rw [List.filter_cons_of_pos (by simpa using he), List.lookup_cons, List.lookup_cons, ih]

/-- An entry changes nothing at other locations. -/
theorem get?_insert_of_ne (h : other ≠ loc) : (fs.insert loc i).get? other = fs.get? other := by
  cases other with
  | nil => rfl
  | cons n other =>
    have hne : ((n :: other) == loc) = false := by simpa using h
    rw [get?_cons, get?_cons, insert, List.lookup_cons, hne]
    exact lookup_filter_ne h fs.entries

/-- An entry is found where it was put, which is never the root. -/
theorem get?_insert_self (h : loc ≠ []) : (fs.insert loc i).get? loc = some i := by
  cases loc with
  | nil => exact absurd rfl h
  | cons n loc => simp [get?, insert]

theorem ne_nil_of_get? (h : fs.get? loc ≠ some .directory) : loc ≠ [] := by
  rintro rfl
  exact h rfl

theorem ne_nil_of_get?_eq_none (h : fs.get? loc = none) : loc ≠ [] := by
  rintro rfl
  cases h

/-- What was removed stays removed. -/
theorem filter_insert (entries : List (Location × Item)) :
    ((loc, i) :: entries.filter (·.1 != loc)).filter (·.1 != loc) =
      entries.filter (·.1 != loc) := by
  rw [List.filter_cons_of_neg (by simp), List.filter_filter]
  simp only [Bool.and_self]

/-- The second entry replaces the first. -/
theorem insert_insert {j : Item} : (fs.insert loc i).insert loc j = fs.insert loc j := by
  rw [insert, insert, insert, filter_insert]

theorem erase_insert_self : (fs.insert loc i).erase loc = fs.erase loc := by
  rw [erase, insert, filter_insert, erase]

/-- What is removed again was never there. -/
theorem erase_insert (h : fs.get? loc = none) : (fs.insert loc i).erase loc = fs := by
  cases loc with
  | nil => cases h
  | cons n loc =>
    rw [get?_cons, List.lookup_eq_none_iff] at h
    have hentries : fs.entries.filter (·.1 != n :: loc) = fs.entries := by
      rw [List.filter_eq_self]
      intro e he
      have hkey := h e he
      rw [bne_iff_ne] at hkey ⊢
      exact hkey.symm
    rw [erase_insert_self, erase, hentries]

/-- A maximum over a list is no less than any of its values. -/
theorem le_foldl_max {α : Type} (f : α → Nat) {x : α} : ∀ {xs : List α} (init : Nat),
    x ∈ xs → f x ≤ xs.foldl (fun n x => max n (f x)) init := by
  have hinit : ∀ (xs : List α) (init : Nat), init ≤ xs.foldl (fun n x => max n (f x)) init := by
    intro xs
    induction xs with
    | nil => exact fun init => Nat.le_refl init
    | cons y xs ih => exact fun init => Nat.le_trans (Nat.le_max_left init (f y)) (ih _)
  intro xs
  induction xs with
  | nil => exact fun _ h => nomatch h
  | cons y xs ih =>
    intro init h
    rcases List.mem_cons.mp h with rfl | h
    · exact Nat.le_trans (Nat.le_max_right init (f x)) (hinit xs _)
    · exact ih _ h

/-- An unused name is new in every directory. -/
theorem get?_unusedName (dir : Location) : fs.get? (fs.unusedName :: dir) = none := by
  rw [get?_cons, List.lookup_eq_none_iff]
  intro e he
  have hle := le_foldl_max (fun e : Location × Item => e.1.head?.elim 0 String.length) 0 he
  by_contra hkey
  have heq : fs.unusedName :: dir = e.1 := by simpa using hkey
  have hlt : fs.entries.foldl (fun n e => max n (e.1.head?.elim 0 String.length)) 0 <
      fs.unusedName.length := by
    rw [unusedName, String.length_ofList, List.length_replicate]
    exact Nat.lt_succ_self _
  rw [← heq] at hle
  exact absurd hle (Nat.not_le.mpr hlt)

end Entries

/-! ## Ways -/

section Ways

/-- Where names lead if all on the way are directories. -/
def lead (loc : Location) (names : List String) : Location := names.foldl follow loc

/-- There is leave where nothing is refused. -/
theorem permit_eq_ok {a : FileAction} {u : Unit} :
    fs.permit a loc = .ok u ↔ fs.refuses a loc = none := by
  rw [permit]
  cases fs.refuses a loc with
  | none => simp
  | some fault => simp

/-- What is done where it is permitted. -/
theorem permit_bind_eq_ok {α : Type} {a : FileAction} {act : Except IoFault α} {v : α} :
    (fs.permit a loc >>= fun _ => act) = .ok v ↔ fs.refuses a loc = none ∧ act = .ok v := by
  simp only [bind_eq_ok, permit_eq_ok, exists_const]

theorem permit_pure_eq_ok {α : Type} {a : FileAction} {v w : α} :
    (fs.permit a loc >>= fun _ => pure v) = .ok w ↔ fs.refuses a loc = none ∧ w = v := by
  rw [permit_bind_eq_ok]
  refine and_congr_right fun _ => ⟨fun h => (Except.ok.inj h).symm, ?_⟩
  rintro rfl
  rfl

/-- What is a directory is one in the second file system too, which refuses the same. -/
structure SameWays (fs fs' : FileSystem) : Prop where
  workingDirectory : fs'.workingDirectory = fs.workingDirectory
  refuses : fs'.refuses = fs.refuses
  directory : ∀ loc, fs.get? loc = some .directory → fs'.get? loc = some .directory

/-- The first step of a walk needs a directory to stand in, leave to go on, and a name that is not
too long. -/
theorem walk_cons_eq_ok {n : String} {names : List String} {loc' : Location} :
    fs.walk loc (n :: names) = .ok loc' ↔
      fs.get? loc = some .directory ∧ fs.refuses .search loc = none ∧
        n.utf8ByteSize ≤ FilePath.nameLimit ∧ fs.walk (follow loc n) names = .ok loc' := by
  rw [walk]
  cases fs.get? loc with
  | none => simp
  | some i =>
    cases i with
    | file bytes => simp
    | directory =>
      simp only [permit_bind_eq_ok, true_and]
      by_cases hlong : FilePath.nameLimit < n.utf8ByteSize
      · simp [hlong, Nat.not_le.mpr hlong]
      · simp [hlong, Nat.not_lt.mp hlong]

/-- From a directory a walk goes on where the name leads. -/
theorem walk_cons_of_directory {n : String} (hdir : fs.get? loc = some .directory)
    (hsearch : fs.refuses .search loc = none) (hlen : n.utf8ByteSize ≤ FilePath.nameLimit)
    (names : List String) : fs.walk loc (n :: names) = fs.walk (follow loc n) names := by
  rw [walk, hdir]
  dsimp only
  rw [permit, hsearch]
  exact if_neg (Nat.not_lt.mpr hlen)

/-- What a walk needs, name by name: a directory to go on from, leave to do so, and a name that is
not too long. -/
theorem walk_eq_ok_iff {names : List String} : ∀ {loc loc' : Location},
    fs.walk loc names = .ok loc' ↔ loc' = lead loc names ∧ ∀ part n, part ++ [n] <+: names →
      fs.get? (lead loc part) = some .directory ∧ fs.refuses .search (lead loc part) = none ∧
        n.utf8ByteSize ≤ FilePath.nameLimit := by
  induction names with
  | nil =>
    intro loc loc'
    rw [walk, Except.ok.injEq, eq_comm]
    simp [lead]
  | cons m names ih =>
    intro loc loc'
    rw [walk_cons_eq_ok, ih]
    constructor
    · rintro ⟨hdir, hsearch, hlen, hlead, hrest⟩
      refine ⟨hlead, fun part n hpart => ?_⟩
      cases part with
      | nil =>
        obtain rfl : n = m := (List.cons_prefix_cons.mp hpart).1
        exact ⟨hdir, hsearch, hlen⟩
      | cons k part =>
        obtain ⟨rfl, hmore⟩ := List.cons_prefix_cons.mp hpart
        exact hrest part n hmore
    · rintro ⟨hlead, hall⟩
      obtain ⟨hdir, hsearch, hlen⟩ := hall [] m (List.cons_prefix_cons.mpr ⟨rfl, List.nil_prefix⟩)
      exact ⟨hdir, hsearch, hlen, hlead, fun part n hpart =>
        hall (m :: part) n (List.cons_prefix_cons.mpr ⟨rfl, hpart⟩)⟩

/-- A walk that works goes where the names lead. -/
theorem walk_eq_lead {names : List String} {loc loc' : Location}
    (h : fs.walk loc names = .ok loc') : loc' = lead loc names :=
  (walk_eq_ok_iff.mp h).1

/-- A walk that works in one file system works in any with the same ways and more. -/
theorem SameWays.walk (hways : SameWays fs fs') {names : List String} {loc loc' : Location}
    (h : fs.walk loc names = .ok loc') : fs'.walk loc names = .ok loc' := by
  obtain ⟨hlead, hall⟩ := walk_eq_ok_iff.mp h
  refine walk_eq_ok_iff.mpr ⟨hlead, fun part n hpart => ?_⟩
  obtain ⟨hdir, hsearch, hlen⟩ := hall part n hpart
  exact ⟨hways.directory _ hdir, by rw [hways.refuses, hsearch], hlen⟩

/-- Paths start at the same place. -/
theorem SameWays.start (hways : SameWays fs fs') (p : FilePath) : fs'.start p = fs.start p := by
  rw [FileSystem.start, FileSystem.start, hways.workingDirectory]

/-- A path leads somewhere if it is not empty and its names can be walked. -/
theorem locate_eq_ok {p : FilePath} :
    fs.locate p = .ok loc ↔ p.isEmpty = false ∧ fs.walk (fs.start p) p.names = .ok loc := by
  rw [locate]
  cases p.isEmpty with
  | true => simp
  | false => simp

/-- A path without names leads to the root, if it is not empty. -/
theorem locate_of_no_names {p : FilePath} (hempty : p.isEmpty = false) (hnames : p.names = []) :
    fs.locate p = .ok [] := by
  have habsolute : p.absolute = true := by simpa [FilePath.isEmpty, hnames] using hempty
  refine locate_eq_ok.mpr ⟨hempty, ?_⟩
  rw [hnames, walk, FileSystem.start, if_pos habsolute]

/-- A path that leads somewhere leads there in any file system with the same ways and more. -/
theorem SameWays.locate (hways : SameWays fs fs') {p : FilePath} (h : fs.locate p = .ok loc) :
    fs'.locate p = .ok loc := by
  obtain ⟨hempty, hwalk⟩ := locate_eq_ok.mp h
  rw [← hways.start p] at hwalk
  exact locate_eq_ok.mpr ⟨hempty, hways.walk hwalk⟩

theorem find_of_locate {p : FilePath} (h : fs.locate p = .ok loc) :
    fs.find p =
      (match fs.get? loc with
       | none => .error .notFound
       | some (.file bytes) => if p.asDirectory then .error .notDirectory else .ok (.file bytes)
       | some .directory => .ok .directory) := by
  rw [find, h]
  rfl

/-- What a path finds is the entry at the place that it leads to. -/
theorem exists_get?_of_find {p : FilePath} (h : fs.find p = .ok i) :
    ∃ loc, fs.locate p = .ok loc ∧ fs.get? loc = some i := by
  obtain ⟨loc, hloc, -⟩ := bind_eq_ok.mp h
  refine ⟨loc, hloc, ?_⟩
  rw [find_of_locate hloc] at h
  cases hitem : fs.get? loc with
  | none =>
    rw [hitem] at h
    cases h
  | some j =>
    cases j with
    | directory =>
      rw [hitem] at h
      exact congrArg some (Except.ok.inj h)
    | file bytes =>
      rw [hitem] at h
      dsimp only at h
      split at h
      · cases h
      · exact congrArg some (Except.ok.inj h)

theorem locate_eq_lead {p : FilePath} (h : fs.locate p = .ok loc) :
    loc = lead (fs.start p) p.names :=
  walk_eq_lead (locate_eq_ok.mp h).2

/-- Single dots lead nowhere. -/
theorem lead_filter_dots (names : List String) (loc : Location) :
    lead loc (names.filter (· != ".")) = lead loc names := by
  have hstep : (fun loc n => if (n != ".") = true then follow loc n else loc) = follow := by
    funext loc n
    by_cases hn : n = "."
    · simp [follow, hn]
    · simp [hn]
  rw [lead, List.foldl_filter, hstep]
  rfl

/-- A walk along two rows of names is a walk along the second from where the first ends. -/
theorem walk_append {part more : List String} : ∀ {loc loc' : Location},
    fs.walk loc (part ++ more) = .ok loc' ↔
      ∃ mid, fs.walk loc part = .ok mid ∧ fs.walk mid more = .ok loc' := by
  induction part with
  | nil =>
    intro loc loc'
    simp [walk]
  | cons n part ih =>
    intro loc loc'
    simp only [List.cons_append, walk_cons_eq_ok, ih]
    constructor
    · rintro ⟨hdir, hsearch, hlen, mid, hpart, hmore⟩
      exact ⟨mid, ⟨hdir, hsearch, hlen, hpart⟩, hmore⟩
    · rintro ⟨mid, ⟨hdir, hsearch, hlen, hpart⟩, hmore⟩
      exact ⟨hdir, hsearch, hlen, mid, hpart, hmore⟩

/-- A walk with single dots works without them too; the dots only ask for more directories. -/
theorem walk_filter_dots {names : List String} : ∀ {loc loc' : Location},
    fs.walk loc names = .ok loc' → fs.walk loc (names.filter (· != ".")) = .ok loc' := by
  induction names with
  | nil => exact fun h => h
  | cons n names ih =>
    intro loc loc' h
    obtain ⟨hdir, hsearch, hlen, hrest⟩ := walk_cons_eq_ok.mp h
    by_cases hn : n = "."
    · rw [List.filter_cons_of_neg (by simpa using hn)]
      rw [hn] at hrest
      exact ih hrest
    · rw [List.filter_cons_of_pos (by simpa using hn)]
      exact walk_cons_eq_ok.mpr ⟨hdir, hsearch, hlen, ih hrest⟩

/-- A path is to a directory if one is at the place that it leads to. -/
theorem isDirectory_iff {p : FilePath} :
    fs.isDirectory p = true ↔ ∃ loc, fs.locate p = .ok loc ∧ fs.get? loc = some .directory := by
  constructor
  · intro h
    rw [isDirectory] at h
    split at h
    · exact exists_get?_of_find ‹_›
    · cases h
  · rintro ⟨loc, hloc, hdir⟩
    rw [isDirectory, find_of_locate hloc, hdir]

/-- A file is no way to anything. -/
theorem sameWays_insert_file (bytes : ByteArray) (h : fs.get? loc ≠ some .directory) :
    SameWays fs (fs.insert loc (.file bytes)) where
  workingDirectory := rfl
  refuses := rfl
  directory other hother := by
    have hne : other ≠ loc := by
      rintro rfl
      exact h hother
    rwa [get?_insert_of_ne hne]

/-- Removing a file takes away no way. -/
theorem sameWays_of_insert_file (bytes : ByteArray) (h : fs.get? loc ≠ some .directory) :
    SameWays (fs.insert loc (.file bytes)) fs where
  workingDirectory := rfl
  refuses := rfl
  directory other hother := by
    by_cases hne : other = loc
    · rw [hne, get?_insert_self (ne_nil_of_get? h)] at hother
      cases hother
    · rwa [get?_insert_of_ne hne] at hother

end Ways

/-! ## Replacing a file -/

section Replacing

variable {p : FilePath} {text : String}

/-- A temporary file needs a directory to be in and leave to be made. -/
theorem createTemporary_eq_ok {dir : FilePath} {temporary : Location} :
    fs.createTemporary dir = .ok (temporary, fs') ↔
      ∃ loc, fs.locate dir = .ok loc ∧
        fs.get? loc = some .directory ∧ fs.refuses .create (fs.unusedName :: loc) = none ∧
        temporary = fs.unusedName :: loc ∧ fs' = fs.insert temporary (.file .empty) := by
  rw [createTemporary, bind_eq_ok]
  refine exists_congr fun loc => and_congr_right fun _ => ?_
  cases fs.get? loc with
  | none => simp
  | some i =>
    cases i with
    | file bytes => simp
    | directory =>
      simp only [permit_pure_eq_ok, true_and, Prod.mk.injEq]
      refine and_congr_right fun _ => and_congr_right ?_
      rintro rfl
      rfl

theorem endsInName_iff :
    p.endsInName = true ↔ p.asDirectory = false ∧ p.namesEntry = true := by
  rw [FilePath.endsInName, Bool.and_eq_true, Bool.not_eq_true']

/-- A file takes a place that no directory has, under a path that ends in the name of an entry. -/
theorem rename_eq_ok {source : Location} :
    fs.rename source p = .ok fs' ↔
      ∃ loc i, fs.locate p = .ok loc ∧ fs.get? source = some i ∧ fs.get? loc ≠ some .directory ∧
        p.endsInName = true ∧ fs.refuses .replace loc = none ∧
        fs' = (fs.erase source).insert loc i := by
  rw [rename, bind_eq_ok]
  refine exists_congr fun loc => ?_
  rw [exists_and_left]
  refine and_congr_right fun _ => ?_
  cases fs.get? source with
  | none => simp
  | some i =>
    simp only [Option.some.injEq, exists_eq_left', endsInName_iff]
    cases p.namesEntry with
    | false => simp
    | true =>
      cases p.asDirectory with
      | true => simp
      | false =>
        by_cases hold : fs.get? loc = some .directory
        · simp [hold]
        · simpa [hold] using permit_pure_eq_ok

/-- A file is filled if it may be written. -/
theorem write_eq_ok {bytes : ByteArray} : fs.write loc bytes = .ok fs' ↔
    fs.refuses .write loc = none ∧ fs' = fs.insert loc (.file bytes) := by
  rw [write, permit_pure_eq_ok]

/-- The file that was put at the place of a path is found there. -/
theorem find_insert_file (hloc : fs.locate p = .ok loc) (hold : fs.get? loc ≠ some .directory)
    (hname : p.endsInName = true) (bytes : ByteArray) :
    (fs.insert loc (.file bytes)).find p = .ok (.file bytes) := by
  have hplain := (endsInName_iff.mp hname).1
  rw [find_of_locate ((sameWays_insert_file bytes hold).locate hloc),
    get?_insert_self (ne_nil_of_get? hold)]
  simp [hplain]

/-- A file can be put there.  The path ends in the name of an entry and leads to a place where no
directory is; in the directory around that place, a temporary file may be made and filled, and it
may take the place. -/
structure Writable (fs : FileSystem) (p : FilePath) : Prop where
  endsInName : p.endsInName = true
  place : ∃ loc, fs.locate p = .ok loc ∧ fs.get? loc ≠ some .directory ∧
    fs.refuses .create (fs.unusedName :: loc.tail) = none ∧
    fs.refuses .write (fs.unusedName :: loc.tail) = none ∧ fs.refuses .replace loc = none

/-- A path that ends in a name has this name behind all others. -/
theorem exists_names_of_endsInName (h : p.endsInName = true) :
    ∃ before n, p.names = before ++ [n] ∧ n ≠ "." ∧ n ≠ ".." := by
  have hentry := (endsInName_iff.mp h).2
  rw [FilePath.namesEntry] at hentry
  cases hlast : p.names.getLast? with
  | none => simp [hlast] at hentry
  | some n =>
    refine ⟨p.names.dropLast, n, (List.dropLast_append_getLast? n hlast).symm, ?_⟩
    simpa [hlast] using hentry

/-- The steps of a path that ends in one. -/
theorem steps_eq_concat {before : List String} {n : String} (hnames : p.names = before ++ [n])
    (hdot : n ≠ ".") : p.steps = before.filter (· != ".") ++ [n] := by
  rw [FilePath.steps, hnames, List.filter_append, List.filter_cons_of_pos (by simpa using hdot)]
  rfl

/-- The parent has the names before the last one, without single dots. -/
theorem parent_names_eq {before : List String} {n : String} (hnames : p.names = before ++ [n])
    (hdot : n ≠ ".") : p.parent.names = before.filter (· != ".") := by
  rw [FilePath.parent, steps_eq_concat hnames hdot, List.dropLast_concat]

/-- The directory of a path is the one around the place that the path leads to. -/
theorem locate_directory (hname : p.endsInName = true) (h : fs.locate p = .ok loc) :
    fs.locate p.directory = .ok loc.tail ∧ fs.get? loc.tail = some .directory := by
  obtain ⟨before, n, hnames, hdot, hdots⟩ := exists_names_of_endsInName hname
  obtain ⟨-, hwalk⟩ := locate_eq_ok.mp h
  rw [hnames] at hwalk
  obtain ⟨dir, hbefore, hlast⟩ := walk_append.mp hwalk
  obtain ⟨hisdir, hsearch, -, hloc⟩ := walk_cons_eq_ok.mp hlast
  have hfollow : follow dir n = n :: dir := by simp [follow, hdot, hdots]
  rw [walk, hfollow, Except.ok.injEq] at hloc
  subst hloc
  refine ⟨?_, hisdir⟩
  have hdotless := walk_filter_dots hbefore
  have hsteps : p.steps.isEmpty = false := by simp [steps_eq_concat hnames hdot]
  rw [FilePath.directory, hsteps, Bool.false_or]
  rw [← parent_names_eq hnames hdot] at hdotless
  cases hempty : p.parent.isEmpty with
  | false => exact locate_eq_ok.mpr ⟨hempty, hdotless⟩
  | true =>
    -- without a way to the directory it is the working directory
    obtain ⟨habsolute, hnone⟩ : p.parent.absolute = false ∧ p.parent.names = [] := by
      simpa [FilePath.isEmpty] using hempty
    have hrelative : ¬ p.absolute = true := ne_true_of_eq_false habsolute
    rw [hnone, walk, Except.ok.injEq, start, if_neg hrelative] at hdotless
    subst hdotless
    refine locate_eq_ok.mpr ⟨rfl, walk_cons_eq_ok.mpr ⟨hisdir, hsearch, by decide, rfl⟩⟩

/-- Filling a new file and renaming it comes to putting it where it is in the end. -/
theorem fill_eq_ok {temporary : Location} {bytes : ByteArray} (h : fs.get? temporary = none) :
    ((fs.insert temporary (.file .empty)).write temporary bytes >>= (·.rename temporary p)) =
        .ok fs' ↔
      fs.refuses .write temporary = none ∧
      ∃ loc, fs.locate p = .ok loc ∧ fs.get? loc ≠ some .directory ∧ p.endsInName = true ∧
        fs.refuses .replace loc = none ∧ fs' = fs.insert loc (.file bytes) := by
  have hfile : fs.get? temporary ≠ some .directory := by
    rw [h]
    exact nofun
  have hto := sameWays_insert_file bytes hfile
  have hfrom := sameWays_of_insert_file bytes hfile
  simp only [bind_eq_ok, write_eq_ok, rename_eq_ok, insert_insert]
  constructor
  · rintro ⟨_, ⟨hwrite, rfl⟩, loc, i, hloc, hi, hdir, hname, hreplace, rfl⟩
    rw [get?_insert_self (ne_nil_of_get? hfile)] at hi
    cases hi
    refine ⟨hwrite, loc, hfrom.locate hloc, ?_, hname, hreplace, ?_⟩
    · exact fun hold => hdir (hto.directory loc hold)
    · rw [erase_insert h]
  · rintro ⟨hwrite, loc, hloc, hdir, hname, hreplace, rfl⟩
    refine ⟨_, ⟨hwrite, rfl⟩, loc, .file bytes, hto.locate hloc,
      get?_insert_self (ne_nil_of_get? hfile), ?_, hname, hreplace, ?_⟩
    · exact fun hnew => hdir (hfrom.directory loc hnew)
    · rw [erase_insert h]

theorem run_change (act : FileSystem → Except IoFault FileSystem) (fs : FileSystem) :
    (change act).run fs =
      (match act fs with
       | .ok fs => (.ok (), fs)
       | .error fault => (.error fault, fs)) := rfl

theorem run_create (dir : FilePath) (fs : FileSystem) :
    (temporaries.create dir).run fs =
      (match fs.createTemporary dir with
       | .ok (temporary, fs) => (.ok temporary, fs)
       | .error fault => (.error fault, fs)) := rfl

/-- The steps of replacing a file, one after the other. -/
theorem run_replaceText (fs : FileSystem) (p : FilePath) (text : String) :
    (Storage.replaceText p text : StateM FileSystem (Except IoFault Unit)).run fs =
      (match fs.createTemporary p.directory with
       | .error fault => (.error fault, fs)
       | .ok (temporary, created) =>
         match created.write temporary text.toUTF8 >>= (·.rename temporary p) with
         | .ok fs' => (.ok (), fs')
         | .error fault => (.error fault, created.erase temporary)) := by
  rw [Storage.replaceText, run_bind, run_create]
  rcases fs.createTemporary p.directory with fault | ⟨temporary, created⟩
  · rfl
  · have hfill : (temporaries.fill temporary text).run created = _ := run_change _ created
    dsimp only
    rw [run_bind, Storage.settle, run_bind, hfill]
    cases hwrite : created.write temporary text.toUTF8 with
    | error fault => rfl
    | ok filled =>
      obtain ⟨-, rfl⟩ := write_eq_ok.mp hwrite
      have hpersist : (temporaries.persist temporary p).run _ = _ :=
        run_change (·.rename temporary p) (created.insert temporary (.file text.toUTF8))
      dsimp only [bind, Except.bind]
      rw [hpersist]
      cases (created.insert temporary (.file text.toUTF8)).rename temporary p with
      | error fault => exact congrArg (Prod.mk _) erase_insert_self
      | ok fs' => rfl

/-- A text is put into a file where it can be, and nothing else changes; otherwise nothing changes
at all. -/
theorem replaceText_cases (fs : FileSystem) (p : FilePath) (text : String) :
    let replaced := (Storage.replaceText p text : StateM FileSystem (Except IoFault Unit)).run fs
    (fs.Writable p ∧ ∃ loc, fs.locate p = .ok loc ∧ fs.get? loc ≠ some .directory ∧
      replaced = (.ok (), fs.insert loc (.file text.toUTF8))) ∨
    (¬ fs.Writable p ∧ ∃ fault, replaced = (.error fault, fs)) := by
  rw [run_replaceText]
  cases hcreate : fs.createTemporary p.directory with
  | error fault =>
    refine Or.inr ⟨?_, fault, rfl⟩
    rintro ⟨hname, loc, hloc, -, hcreated, -, -⟩
    obtain ⟨hdir, hisdir⟩ := locate_directory hname hloc
    rw [createTemporary_eq_ok.mpr ⟨loc.tail, hdir, hisdir, hcreated, rfl, rfl⟩] at hcreate
    cases hcreate
  | ok created =>
    obtain ⟨temporary, fs₁⟩ := created
    obtain ⟨dir, hdir, hisdir, hcreated, rfl, rfl⟩ := createTemporary_eq_ok.mp hcreate
    have hnew := fs.get?_unusedName dir
    dsimp only
    cases hfill : (fs.insert (fs.unusedName :: dir) (.file .empty)).write (fs.unusedName :: dir)
        text.toUTF8 >>= (·.rename (fs.unusedName :: dir) p) with
    | error fault =>
      refine Or.inr ⟨?_, fault, ?_⟩
      · rintro ⟨hname, loc, hloc, hold, -, hwrite, hreplace⟩
        obtain rfl : dir = loc.tail := by
          rw [(locate_directory hname hloc).1, Except.ok.injEq] at hdir
          exact hdir.symm
        rw [(fill_eq_ok hnew).mpr ⟨hwrite, loc, hloc, hold, hname, hreplace, rfl⟩] at hfill
        cases hfill
      · rw [erase_insert hnew]
    | ok fs' =>
      obtain ⟨hwrite, loc, hloc, hold, hname, hreplace, rfl⟩ := (fill_eq_ok hnew).mp hfill
      obtain rfl : dir = loc.tail := by
        rw [(locate_directory hname hloc).1, Except.ok.injEq] at hdir
        exact hdir.symm
      exact Or.inl ⟨⟨hname, loc, hloc, hold, hcreated, hwrite, hreplace⟩, loc, hloc, hold, rfl⟩

end Replacing

end FileSystem

end FlatApi
