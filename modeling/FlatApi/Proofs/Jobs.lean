import FlatApi.Proofs.Listing
import FlatApi.Proofs.Outline
import FlatApi.Proofs.Records
import FlatApi.Proofs.Visit
import Mathlib.Data.List.ReduceOption

/-!
# Jobs first, names second

A walk can be told in two steps.  First each node states its job: all about its export but the
symbols.  Only this can be refused, and no job depends on another one.  Then the jobs are done in
their order, which issues the symbols and never fails.

* The job of a node says what becomes of the node (`job_eq_ok_none`, `job_eq_error`,
  `job_eq_ok_some`), and a walk does all jobs once they are stated (`foldlM_take_eq`).
* What a walk puts out is a function of the jobs (`generate_eq_jobs`): their wrappers, their
  exports, and one record for each node with the symbol that was noted.

To compare two walks it is enough to compare their jobs.
-/

namespace FlatApi

open Forest (Node Event)
open FlatApi.Symbol (Registry)
open FlatApi.Symbol.Registry (Request)

/-! ## Jobs -/

/-- All about the export of a node but the symbols. -/
structure Job where
  entity : String
  kind : ExportKind
  draft : Draft
  deriving DecidableEq

namespace Setting

/-- The job of a node; none for what is not up for export. -/
def job (s : Setting) (n : Node) : Except Refusal (Option Job) :=
  match ExportKind.ofDeclaration? n.decl with
  | none => .ok none
  | some kind =>
    if n.access = .ownClass then .ok none
    else Option.map (fun draft => { entity := s.qualifiedName n, kind, draft }) <$> s.draft n

/-- The jobs of all nodes, in the order of their numbers. -/
def jobs (s : Setting) : Except Refusal (List (Option Job)) := s.forest.nodes.toList.mapM s.job

variable {s : Setting} {n : Node}

theorem job_of_not_exported (h : n.isExported = false) : s.job n = .ok none := by
  unfold job
  cases hkind : ExportKind.ofDeclaration? n.decl with
  | none => rfl
  | some kind =>
    rcases Bool.and_eq_false_iff.mp h with hdecl | haccess
    · rw [draft_ok_none_iff.mpr hdecl]
      show (if _ then _ else _) = _
      split <;> rfl
    · exact if_pos (by simpa using haccess)

/-- The job of a node is its draft, with the name and the kind of the entity. -/
theorem job_of_exported {kind : ExportKind} (h : n.isExported = true)
    (hkind : ExportKind.ofDeclaration? n.decl = some kind) :
    s.job n =
      Option.map (fun draft => { entity := s.qualifiedName n, kind, draft }) <$> s.draft n := by
  have haccess : n.access ≠ .ownClass := by
    simpa using ((Bool.and_eq_true _ _).mp h).2
  rw [job, hkind]
  exact if_neg haccess

/-- A job fails for the fault that its node has. -/
theorem job_eq_error {r : Refusal} :
    s.job n = .error r ↔ n.isExported = true ∧ s.fault? n = some r := by
  cases h : n.isExported with
  | false => simp [job_of_not_exported h]
  | true =>
    have hdecl : n.decl.isExportable = true := ((Bool.and_eq_true _ _).mp h).1
    obtain ⟨kind, hkind⟩ := Pass.exists_kind hdecl
    rw [job_of_exported h hkind, map_eq_error, draft_error_iff]
    simp [hdecl]

/-- A node with a job is up for export, and the job is about it. -/
theorem job_eq_ok_some {d : Job} :
    s.job n = .ok (some d) ↔ n.isExported = true ∧
      ExportKind.ofDeclaration? n.decl = some d.kind ∧ s.draft n = .ok (some d.draft) ∧
      d.entity = s.qualifiedName n := by
  cases h : n.isExported with
  | false => simp [job_of_not_exported h]
  | true =>
    obtain ⟨kind, hkind⟩ := Pass.exists_kind ((Bool.and_eq_true _ _).mp h).1
    rw [job_of_exported h hkind, map_eq_ok]
    constructor
    · rintro ⟨draft, hdraft, heq⟩
      obtain ⟨draft, rfl, rfl⟩ := Option.map_eq_some_iff.mp heq
      exact ⟨rfl, hkind, hdraft, rfl⟩
    · rintro ⟨-, hkind', hdraft, hentity⟩
      rw [hkind] at hkind'
      obtain ⟨entity, kind', draft⟩ := d
      cases hkind'
      cases hentity
      exact ⟨_, hdraft, rfl⟩

theorem job_eq_ok_none : s.job n = .ok none ↔ n.isExported = false := by
  constructor
  · intro hjob
    cases h : n.isExported with
    | false => rfl
    | true =>
      have hdecl : n.decl.isExportable = true := ((Bool.and_eq_true _ _).mp h).1
      obtain ⟨kind, hkind⟩ := Pass.exists_kind hdecl
      rw [job_of_exported h hkind, map_eq_ok] at hjob
      obtain ⟨draft, hdraft, hnone⟩ := hjob
      rw [Option.map_eq_none_iff.mp hnone, draft_ok_none_iff, hdecl] at hdraft
      cases hdraft
  · exact job_of_not_exported

end Setting

/-! ## Jobs in their order -/

namespace Job

/-- What the registry is asked for. -/
def requests (d : Job) : List Request := d.draft.requests

/-- The export when the names of this registry are taken. -/
def entry (r : Registry) (d : Job) : Export :=
  { entity := d.entity, kind := d.kind, symbols := d.draft.symbols (r.answers d.requests) }

/-- The exports of jobs, each with the names that those before it left. -/
def exports (r : Registry) : List Job → List Export
  | [] => []
  | d :: ds => d.entry r :: exports (r.after d.requests) ds

def wrappers (o : Options) (r : Registry) : List Job → List Wrapper
  | [] => []
  | d :: ds => (d.draft.settle o r).2.1 ++ wrappers o (r.after d.requests) ds

/-- The symbols noted for nodes with these jobs: the first one that is issued for each. -/
def notes (r : Registry) : List (Option Job) → List (Option String)
  | [] => []
  | none :: ds => none :: notes r ds
  | some d :: ds => (r.answers d.requests).head? :: notes (r.after d.requests) ds

/-- The records of nodes with these jobs, of which these are classes that another one stands in
for. -/
def records (r : Registry) (flags : List Bool) (ds : List (Option Job)) : List Record :=
  flags.zipWith (fun hasWrapper functionName => { functionName, hasWrapper }) (notes r ds)

/-- The registry when the jobs are done. -/
def after (r : Registry) (ds : List Job) : Registry := r.after (ds.flatMap requests)

/-- The symbol that is noted for a node is the answer to its first request. -/
theorem settle_note (o : Options) (d : Draft) (r : Registry) :
    (r.answers d.requests).head? = some (d.settle o r).1 := by
  cases d with
  | call d =>
    rw [Draft.settle, CallDraft.settle, Draft.requests]
    cases d.overridable <;> rfl
  | field d => rfl

section Append

variable (o : Options) (r : Registry)

theorem after_cons (d : Job) (ds : List Job) :
    after r (d :: ds) = after (r.after d.requests) ds := by
  rw [after, List.flatMap_cons, Registry.after_append]
  rfl

theorem exports_append (ds es : List Job) :
    exports r (ds ++ es) = exports r ds ++ exports (after r ds) es := by
  induction ds generalizing r with
  | nil => rfl
  | cons d ds ih => rw [List.cons_append, exports, ih, after_cons, exports, List.cons_append]

theorem wrappers_append (ds es : List Job) :
    wrappers o r (ds ++ es) = wrappers o r ds ++ wrappers o (after r ds) es := by
  induction ds generalizing r with
  | nil => rfl
  | cons d ds ih => rw [List.cons_append, wrappers, ih, after_cons, wrappers, List.append_assoc]

theorem notes_append (ds es : List (Option Job)) :
    notes r (ds ++ es) = notes r ds ++ notes (after r ds.reduceOption) es := by
  induction ds generalizing r with
  | nil => rfl
  | cons d ds ih =>
    cases d with
    | none => rw [List.cons_append, notes, ih, notes, List.reduceOption_cons_of_none,
        List.cons_append]
    | some d => rw [List.cons_append, notes, ih, notes, List.reduceOption_cons_of_some,
        after_cons, List.cons_append]

theorem length_notes (ds : List (Option Job)) : (notes r ds).length = ds.length := by
  induction ds generalizing r with
  | nil => rfl
  | cons d ds ih => cases d <;> simp [notes, ih]

theorem records_append {flags : List Bool} {ds : List (Option Job)}
    (h : flags.length = ds.length) (more : List Bool) (es : List (Option Job)) :
    records r (flags ++ more) (ds ++ es) =
      records r flags ds ++ records (after r ds.reduceOption) more es := by
  rw [records, notes_append, List.zipWith_append (by rw [length_notes, h])]
  rfl

theorem length_records {flags : List Bool} {ds : List (Option Job)}
    (h : flags.length = ds.length) : (records r flags ds).length = ds.length := by
  rw [records, List.length_zipWith, length_notes, h, Nat.min_self]

end Append

end Job

/-! ## Doing the jobs -/

namespace Pass

/-- The pass when the job of a node was done. -/
def fill (p : Pass) (n : Node) : Option Job → Pass
  | none => p.skip n
  | some d => p.accept n d.kind d.draft

def fillAll (p : Pass) (jobs : List (Node × Option Job)) : Pass :=
  jobs.foldl (fun p j => p.fill j.1 j.2) p

section Fill

variable {p : Pass} {n : Node}

/-- The job of a node decides what a visit does. -/
theorem visit_eq_fill {e : Event} (he : e ≠ .leave) :
    p.visit n e =
      match p.setting.job n with
      | .error r => (.error r, p.refuse n)
      | .ok job => (.ok (), p.fill n job) := by
  have hv := visited p n e
  generalize p.visit n e = result at hv
  cases hv with
  | left => exact absurd rfl he
  | skipped _ hn =>
    rw [Setting.job_of_not_exported hn]
    rfl
  | refused _ hn hr => rw [Setting.job_eq_error.mpr ⟨hn, hr⟩]
  | accepted _ hn hkind hd =>
    rw [Setting.job_of_exported hn hkind, hd]
    rfl

/-- A node is taken by finding its job and filling it in. -/
theorem take_eq_fill : p.take n = p.fill n <$> p.setting.job n := by
  rw [take, visit_eq_fill (by decide)]
  cases p.setting.job n <;> rfl

theorem fill_setting (job : Option Job) : (p.fill n job).setting = p.setting := by
  cases job <;> rfl

theorem fillAll_setting (jobs : List (Node × Option Job)) :
    (p.fillAll jobs).setting = p.setting := by
  induction jobs generalizing p with
  | nil => rfl
  | cons j jobs ih => exact ih.trans (fill_setting j.2)

theorem fill_names (job : Option Job) :
    (p.fill n job).ledger.names = Job.after p.ledger.names [job].reduceOption := by
  cases job with
  | none => rfl
  | some d =>
    rw [List.reduceOption_cons_of_some, Job.after_cons]
    exact accept_names p n d.kind d.draft

/-- A walk does all jobs once they are stated, and is refused if one of them is. -/
theorem foldlM_take_eq (ns : List Node) :
    ∀ p : Pass, ns.foldlM take p =
      (fun jobs => p.fillAll (ns.zip jobs)) <$> ns.mapM p.setting.job := by
  induction ns with
  | nil => exact fun _ => rfl
  | cons n ns ih =>
    intro p
    rw [List.foldlM_cons, List.mapM_cons, take_eq_fill]
    cases p.setting.job n with
    | error r => rfl
    | ok job =>
      show ns.foldlM take (p.fill n job) = _
      rw [ih, fill_setting]
      cases ns.mapM p.setting.job <;> rfl

end Fill

end Pass

/-! ## What is made of the jobs -/

section Made

theorem mapM_job_cons {s : Setting} {n : Node} {ns : List Node} {jobs : List (Option Job)} :
    (n :: ns).mapM s.job = .ok jobs ↔
      ∃ job rest, s.job n = .ok job ∧ ns.mapM s.job = .ok rest ∧ jobs = job :: rest := by
  rw [List.mapM_cons, bind_eq_ok]
  constructor
  · rintro ⟨job, hjob, h⟩
    obtain ⟨rest, hrest, h⟩ := bind_eq_ok.mp h
    cases h
    exact ⟨job, rest, hjob, hrest, rfl⟩
  · rintro ⟨job, rest, hjob, hrest, rfl⟩
    exact ⟨job, hjob, bind_eq_ok.mpr ⟨rest, hrest, rfl⟩⟩

theorem length_of_mapM_job {s : Setting} {ns : List Node} :
    ∀ {jobs : List (Option Job)}, ns.mapM s.job = .ok jobs → jobs.length = ns.length := by
  induction ns with
  | nil =>
    intro jobs h
    cases h
    rfl
  | cons n ns ih =>
    intro jobs h
    obtain ⟨job, rest, -, hrest, rfl⟩ := mapM_job_cons.mp h
    rw [List.length_cons, List.length_cons, ih hrest]

/-- What one job adds to the listing and the exports. -/
theorem Pass.fill_some {p : Pass} {n : Node} {d : Job} (h : p.setting.job n = .ok (some d)) :
    (p.fill n (some d)).listing =
        p.listing.addWrappers (d.draft.settle p.setting.options p.ledger.names).2.1
          p.setting.options.exportMacro ∧
      (p.fill n (some d)).exports = p.exports ++ [d.entry p.ledger.names] := by
  refine ⟨rfl, ?_⟩
  rw [Job.entry, (Setting.job_eq_ok_some.mp h).2.2.2]
  exact accept_exports p n d.kind d.draft

/-- The wrappers of the jobs are listed and their exports noted, in their order. -/
theorem Pass.fillAll_made (ns : List Node) :
    ∀ (p : Pass) (jobs : List (Option Job)), ns.mapM p.setting.job = .ok jobs →
      (p.fillAll (ns.zip jobs)).listing =
          p.listing.addWrappers
            (Job.wrappers p.setting.options p.ledger.names jobs.reduceOption)
            p.setting.options.exportMacro ∧
        (p.fillAll (ns.zip jobs)).exports =
          p.exports ++ Job.exports p.ledger.names jobs.reduceOption := by
  induction ns with
  | nil =>
    intro p jobs h
    cases h
    exact ⟨rfl, (List.append_nil _).symm⟩
  | cons n ns ih =>
    intro p jobs h
    obtain ⟨job, rest, hjob, hrest, rfl⟩ := mapM_job_cons.mp h
    have hnext := ih (p.fill n job) rest (by rwa [fill_setting])
    rw [fill_setting] at hnext
    cases job with
    | none => exact hnext
    | some d =>
      obtain ⟨hlisting, hexports⟩ := hnext
      obtain ⟨hwrappers, hentry⟩ := fill_some hjob
      have hnames : (p.fill n (some d)).ledger.names = p.ledger.names.after d.requests :=
        accept_names p n d.kind d.draft
      rw [hnames, hwrappers, ← Listing.addWrappers_append] at hlisting
      rw [hnames, hentry, List.append_assoc] at hexports
      rw [List.reduceOption_cons_of_some]
      exact ⟨hlisting, hexports⟩

end Made

/-! ## The records of the jobs -/

section Records

variable {p : Pass} {n : Node}

/-- The class that is looked up for a node has a lower number. -/
theorem classLookedUp?_id_lt {s : Setting} (h : s.forest.Numbered) {i : Nat}
    (hn : s.forest.node? i = some n) {c : Node} (hc : s.classLookedUp? n = some c) :
    c.id < n.id := by
  have hparent : s.forest.parent? n = some c :=
    (Option.filter_eq_some_iff.mp (Setting.parentClass?_of_classLookedUp? hc)).1
  obtain ⟨q, hq, hc⟩ := Option.bind_eq_some_iff.mp hparent
  rw [h.id_eq hc]
  exact h.parent_lt hn hq

/-- When the nodes before one have their records, the node gets the next one. -/
theorem Pass.fill_records (h : p.setting.forest.Numbered) {rs : List Record}
    (hn : p.setting.forest.node? rs.length = some n)
    (hrecords : p.ledger.records = .ofList rs) (job : Option Job) :
    (p.fill n job).ledger.records =
      .ofList (rs ++ Job.records p.ledger.names [n.decl.hasWrapper] [job]) := by
  have hlen : n.id = rs.length := h.id_eq hn
  have htouch : (p.ledger.touch n).records = .ofList (rs ++ [.ofNode n]) := by
    rw [Ledger.touch, hrecords, Records.touch_ofList_next hlen]
  cases job with
  | none => exact htouch
  | some d =>
    have hclass : ((p.ledger.touch n).touchClass p.setting n).records =
        .ofList (rs ++ [.ofNode n]) := by
      unfold Ledger.touchClass
      cases hc : p.setting.classLookedUp? n with
      | none => exact htouch
      | some c =>
        have hlt : c.id < (rs ++ [Record.ofNode n]).length := by
          have hlt := classLookedUp?_id_lt h hn hc
          rw [List.length_append, List.length_singleton]
          omega
        show (p.ledger.touch n).records.touch c = _
        rw [htouch, Records.touch_ofList_old hlt]
    have hnote : Job.notes p.ledger.names [some d] =
        [some (d.draft.settle p.setting.options p.ledger.names).1] := by
      rw [← Job.settle_note]
      rfl
    show ((p.ledger.touch n).touchClass p.setting n).records.setName n _ = _
    rw [hclass, Job.records, hnote, Records.setName_ofList_last hlen]
    rfl

/-- Each node gets a record, in the order of their numbers. -/
theorem Pass.fillAll_records (ns : List Node) :
    ∀ (p : Pass) (jobs : List (Option Job)) (rs : List Record),
      p.setting.forest.Numbered → p.setting.forest.HasFrom rs.length ns →
      ns.mapM p.setting.job = .ok jobs → p.ledger.records = .ofList rs →
      (p.fillAll (ns.zip jobs)).ledger.records =
        .ofList (rs ++ Job.records p.ledger.names (ns.map (·.decl.hasWrapper)) jobs) := by
  induction ns with
  | nil =>
    intro p jobs rs _ _ h hrecords
    cases h
    rw [List.map_nil, Job.records, List.zipWith_nil_left, List.append_nil]
    exact hrecords
  | cons n ns ih =>
    intro p jobs rs hnumbered hfrom h hrecords
    obtain ⟨job, rest, -, hrest, rfl⟩ := mapM_job_cons.mp h
    -- `rs` are the records of the nodes that are done, so their number is that of `n`
    have hfirst := fill_records hnumbered hfrom.node? hrecords job
    have hlen : (rs ++ Job.records p.ledger.names [n.decl.hasWrapper] [job]).length =
        rs.length + 1 := by
      rw [List.length_append, Job.length_records _ rfl]
      rfl
    have hnext := ih (p.fill n job) rest _ (by rwa [fill_setting])
      (by rw [fill_setting, hlen]; exact hfrom.tail) (by rwa [fill_setting]) hfirst
    rw [fill_names, List.append_assoc, ← Job.records_append _ rfl] at hnext
    exact hnext

end Records

/-! ## What a walk puts out -/

namespace Setting

/-- The listing with the wrappers of the jobs. -/
def listing (s : Setting) (jobs : List (Option Job)) : Listing :=
  (Pass.ofSetting s).start.listing.addWrappers (Job.wrappers s.options {} jobs.reduceOption)
    s.options.exportMacro

/-- The output of a walk whose nodes have these jobs. -/
def output (s : Setting) (jobs : List (Option Job)) : Output :=
  { source := ((s.listing jobs).line "\x7d").contents
    exports := Job.exports {} jobs.reduceOption
    records := .ofList (Job.records {} (s.forest.nodes.toList.map (·.decl.hasWrapper)) jobs)
    artifactPath := s.options.artifactPath }

theorem depth_listing (s : Setting) (jobs : List (Option Job)) : (s.listing jobs).depth = 0 := by
  rw [listing, Listing.depth_addWrappers, Pass.start]
  split <;> simp [Pass.ofSetting]

/-- The text ends in the line that closes the one in front of all wrappers. -/
theorem source_output (s : Setting) (jobs : List (Option Job)) :
    (s.output jobs).source = Listing.textOf (s.listing jobs).lines ++ "\x7d\n" := by
  have hlines : ((s.listing jobs).line "\x7d").lines = (s.listing jobs).lines ++ ["\x7d"] := by
    rw [Listing.lines_line, depth_listing, Listing.row_zero]
  rw [output, Listing.contents_eq_textOf _ (by rw [hlines]; simp), hlines, Listing.textOf_append]
  rfl

end Setting

/-- A walk states all jobs, and what it puts out is made of them. -/
theorem generate_eq_jobs (es : List Entity) (types : String → Option String)
    (options : Options) :
    generate (.ofEntities es types options) =
      (Setting.ofEntities es types options).output <$>
        (Setting.ofEntities es types options).jobs := by
  rw [generate_eq_foldlM, Pass.foldlM_take_eq]
  have hjobs : (Forest.ofEntities es).nodes.toList.mapM
      (Pass.ofSetting (.ofEntities es types options)).start.setting.job =
        (Setting.ofEntities es types options).jobs := rfl
  rw [hjobs]
  cases h : (Setting.ofEntities es types options).jobs with
  | error r => rfl
  | ok jobs =>
    obtain ⟨hlisting, hexports⟩ := Pass.fillAll_made (Forest.ofEntities es).nodes.toList
      (Pass.ofSetting (.ofEntities es types options)).start jobs h
    have hrecords := Pass.fillAll_records (Forest.ofEntities es).nodes.toList
      (Pass.ofSetting (.ofEntities es types options)).start jobs []
      (Forest.numbered_ofEntities es) (List.prefix_refl _) h rfl
    show Except.ok (Pass.stop _) = Except.ok _
    rw [Pass.stop, hlisting, hexports, hrecords, Pass.fillAll_setting]
    rfl

end FlatApi
