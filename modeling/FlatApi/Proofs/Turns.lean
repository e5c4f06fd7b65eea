import FlatApi.Proofs.Exports
import FlatApi.Proofs.Jobs

/-!
# Jobs in their turn

A walk does its jobs one behind the other, each with the names that those before it left.  A turn
is a job with its node and the names that it finds taken.

* The turns of a walk are those of its exported nodes, in their order (`map_node_turns`).
* Names flow from turn to turn: what one turn issues, all later ones find taken
  (`turns_pairwise`), and the name that is noted in it was free (`Turn.note_not_mem_names`).
* Exports, wrappers and records are each told turn by turn (`map_entry_turns`,
  `flatMap_wrappers_turns`, `recordedIn_turns`).

What a walk puts out is therefore known once its turns are (`exists_turns`), and facts about
different parts of it are linked through the turn that they stem from.
-/

namespace FlatApi

open Forest (Node)
open FlatApi.Symbol (Registry)
open FlatApi.Symbol.Registry (Request)

structure Turn where
  node : Node
  job : Job
  /-- The names that are taken before the job is done. -/
  names : Registry

namespace Turn

def entry (t : Turn) : Export := t.job.entry t.names

def wrappers (o : Options) (t : Turn) : List Wrapper := (t.job.draft.settle o t.names).2.1

/-- The name that is noted for the node. -/
def note (o : Options) (t : Turn) : String := (t.job.draft.settle o t.names).1

/-- The names that are taken when the job is done. -/
def namesLeft (t : Turn) : Registry := t.names.after t.job.requests

theorem map_name_wrappers (o : Options) (t : Turn) :
    (t.wrappers o).map (·.name) = t.entry.symbols :=
  Draft.settle_symbols o t.job.draft t.names

/-- The name that is noted is one of those issued in the turn. -/
theorem head?_answers (o : Options) (t : Turn) :
    (t.names.answers t.job.requests).head? = some (t.note o) :=
  Job.settle_note o t.job.draft t.names

theorem requests_eq_cons (t : Turn) : ∃ q qs, t.job.requests = q :: qs := by
  unfold Job.requests
  cases t.job.draft with
  | call d => exact ⟨_, _, rfl⟩
  | field d => exact ⟨_, _, rfl⟩

/-- The symbol that is noted at a turn is new. -/
theorem note_not_mem_names (o : Options) (t : Turn) : t.note o ∉ t.names.names := by
  obtain ⟨q, qs, hrequests⟩ := t.requests_eq_cons
  have hnote := t.head?_answers o
  rw [hrequests, Registry.answers, List.head?_cons, Option.some.injEq] at hnote
  have hfree := Registry.issue_free t.names q
  rw [hnote] at hfree
  exact hfree List.mem_cons_self

theorem note_mem_namesLeft (o : Options) (t : Turn) : t.note o ∈ t.namesLeft.names := by
  obtain ⟨q, qs, hrequests⟩ := t.requests_eq_cons
  have hnote := t.head?_answers o
  rw [hrequests, Registry.answers, List.head?_cons, Option.some.injEq] at hnote
  have hissued : t.note o ∈ (t.names.issue q).2.names := by
    rw [Registry.issue_names, hnote]
    exact List.mem_append_right _ (List.mem_eraseDups.mpr List.mem_cons_self)
  unfold namesLeft
  rw [hrequests]
  exact (Registry.names_prefix_after (t.names.issue q).2 qs).subset hissued

end Turn

namespace Job

/-- The turns of nodes with these jobs. -/
def turns (r : Registry) : List (Node × Option Job) → List Turn
  | [] => []
  | (_, none) :: rest => turns r rest
  | (n, some d) :: rest => { node := n, job := d, names := r } :: turns (r.after d.requests) rest

/-! ## What the turns are -/

section Turns

variable {r : Registry} {rows : List (Node × Option Job)}

/-- Each turn is that of a node with a job. -/
theorem mem_of_mem_turns {t : Turn} : ∀ {r : Registry}, t ∈ turns r rows →
    (t.node, some t.job) ∈ rows := by
  induction rows with
  | nil =>
    intro r ht
    cases ht
  | cons row rows ih =>
    intro r ht
    obtain ⟨n, job⟩ := row
    cases job with
    | none => exact List.mem_cons_of_mem _ (ih ht)
    | some d =>
      rcases List.mem_cons.mp ht with rfl | ht
      · exact List.mem_cons_self
      · exact List.mem_cons_of_mem _ (ih ht)

theorem map_entry_turns (r : Registry) (rows : List (Node × Option Job)) :
    (turns r rows).map Turn.entry = exports r (rows.map (·.2)).reduceOption := by
  induction rows generalizing r with
  | nil => rfl
  | cons row rows ih =>
    obtain ⟨n, job⟩ := row
    cases job with
    | none => exact ih r
    | some d => exact congrArg (d.entry r :: ·) (ih (r.after d.requests))

theorem flatMap_wrappers_turns (o : Options) (r : Registry) (rows : List (Node × Option Job)) :
    (turns r rows).flatMap (·.wrappers o) = wrappers o r (rows.map (·.2)).reduceOption := by
  induction rows generalizing r with
  | nil => rfl
  | cons row rows ih =>
    obtain ⟨n, job⟩ := row
    cases job with
    | none => exact ih r
    | some d => exact congrArg ((d.draft.settle o r).2.1 ++ ·) (ih (r.after d.requests))

theorem names_subset_of_mem_turns {t : Turn} : ∀ {r : Registry}, t ∈ turns r rows →
    r.names ⊆ t.names.names := by
  induction rows with
  | nil =>
    intro r ht
    cases ht
  | cons row rows ih =>
    intro r ht
    obtain ⟨n, job⟩ := row
    cases job with
    | none => exact ih ht
    | some d =>
      rcases List.mem_cons.mp ht with rfl | ht
      · exact List.Subset.refl _
      · have hleft : r.names ⊆ (r.after d.requests).names :=
          (Registry.names_prefix_after r d.requests).subset
        exact List.Subset.trans hleft (ih ht)

/-- What one turn leaves taken is taken in all later ones. -/
theorem turns_pairwise (r : Registry) (rows : List (Node × Option Job)) :
    (turns r rows).Pairwise fun t u => t.namesLeft.names ⊆ u.names.names := by
  induction rows generalizing r with
  | nil => exact List.Pairwise.nil
  | cons row rows ih =>
    obtain ⟨n, job⟩ := row
    cases job with
    | none => exact ih r
    | some d => exact List.Pairwise.cons (fun u hu => names_subset_of_mem_turns hu) (ih _)

end Turns

/-! ## Records of turns -/

section Records

theorem records_cons_none (r : Registry) (flag : Bool) (flags : List Bool)
    (jobs : List (Option Job)) :
    records r (flag :: flags) (none :: jobs) =
      { hasWrapper := flag } :: records r flags jobs := rfl

theorem records_cons_some (o : Options) (r : Registry) (flag : Bool) (flags : List Bool)
    (d : Job) (jobs : List (Option Job)) :
    records r (flag :: flags) (some d :: jobs) =
      { functionName := some (d.draft.settle o r).1, hasWrapper := flag } ::
        records (r.after d.requests) flags jobs := by
  rw [← settle_note]
  rfl

/-- If each node finds its record under its number, it finds there what was noted in its turn, or
nothing if it had none. -/
theorem recordedIn_turns (o : Options) {get : Nat → Option Record}
    (rows : List (Node × Option Job)) :
    ∀ r : Registry, List.Forall₂ (fun row x => get row.1.id = some x) rows
        (records r (rows.map (·.1.decl.hasWrapper)) (rows.map (·.2))) →
      (∀ t ∈ turns r rows, get t.node.id =
        some { functionName := some (t.note o), hasWrapper := t.node.decl.hasWrapper }) ∧
      ∀ n, (n, none) ∈ rows → get n.id = some (.ofNode n) := by
  -- the names stay general, as the rows behind a turn begin with those that it leaves
  induction rows with
  | nil =>
    intro r _
    constructor
    · intro t ht
      cases ht
    · intro n hn
      cases hn
  | cons row rows ih =>
    intro r h
    obtain ⟨n, job⟩ := row
    cases job with
    | none =>
      rw [List.map_cons, List.map_cons, records_cons_none] at h
      obtain ⟨hfirst, hrest⟩ := List.forall₂_cons.mp h
      obtain ⟨hturns, hothers⟩ := ih r hrest
      refine ⟨hturns, fun m hm => ?_⟩
      rcases List.mem_cons.mp hm with heq | hm
      · cases heq
        exact hfirst
      · exact hothers m hm
    | some d =>
      rw [List.map_cons, List.map_cons, records_cons_some o] at h
      obtain ⟨hfirst, hrest⟩ := List.forall₂_cons.mp h
      obtain ⟨hturns, hothers⟩ := ih (r.after d.requests) hrest
      constructor
      · intro t ht
        rcases List.mem_cons.mp ht with rfl | ht
        · exact hfirst
        · exact hturns t ht
      · intro m hm
        rcases List.mem_cons.mp hm with heq | hm
        · cases heq
        · exact hothers m hm

end Records

end Job

/-! ## Walks by their turns -/

/-- The output is what these turns make in the setting. -/
structure Output.OfTurns (s : Setting) (out : Output) (turns : List Turn) : Prop where
  nodes : turns.map (·.node) = s.forest.nodes.toList.filter (·.isExported)
  job : ∀ t ∈ turns, s.job t.node = .ok (some t.job)
  ordered : turns.Pairwise fun t u => t.namesLeft.names ⊆ u.names.names
  exports : out.exports = turns.map Turn.entry
  source : out.source =
    (((Pass.ofSetting s).start.listing.addWrappers (turns.flatMap (·.wrappers s.options))
      s.options.exportMacro).line "\x7d").contents
  numbers : out.records.entries.map (·.1) = List.range s.forest.size
  recorded : ∀ t ∈ turns, out.records.get? t.node.id =
    some { functionName := some (t.note s.options), hasWrapper := t.node.decl.hasWrapper }
  untouched : ∀ n ∈ s.forest.nodes.toList, n.isExported = false →
    out.records.get? n.id = some (.ofNode n)

namespace Output.OfTurns

variable {s : Setting} {out : Output} {turns : List Turn}

/-- What holds of each turn's node and of something made in it holds along the exported nodes. -/
theorem forall₂_exported {α : Type} {R : Node → α → Prop} {f : Turn → α}
    (h : out.OfTurns s turns) (hR : ∀ t ∈ turns, R t.node (f t)) :
    List.Forall₂ R (s.forest.nodes.toList.filter (·.isExported)) (turns.map f) := by
  rw [← h.nodes, List.forall₂_map_left_iff, List.forall₂_map_right_iff, List.forall₂_same]
  exact hR

/-- What is exported at a turn is its node. -/
theorem exportedAs (h : out.OfTurns s turns) {t : Turn} (ht : t ∈ turns) :
    s.ExportedAs t.node t.entry := by
  obtain ⟨-, hkind, hdraft, hentity⟩ := Setting.job_eq_ok_some.mp (h.job t ht)
  have hexported := exportedAs_of_draft hkind hdraft t.names
  rw [← hentity] at hexported
  exact hexported

/-- Different turns note different names. -/
theorem nodup_notes (h : out.OfTurns s turns) (o : Options) :
    (turns.map fun t => t.note o).Nodup := by
  refine List.pairwise_map.mpr (h.ordered.imp fun {t u} hsub heq => ?_)
  have htaken : t.note o ∈ u.names.names := hsub (t.note_mem_namesLeft o)
  rw [heq] at htaken
  exact u.note_not_mem_names o htaken

end Output.OfTurns

section Walk

variable {s : Setting} {ns : List Node} {jobs : List (Option Job)}

theorem job_of_mem_zip : ∀ {jobs : List (Option Job)} {n : Node} {job : Option Job},
    ns.mapM s.job = .ok jobs → (n, job) ∈ ns.zip jobs → s.job n = .ok job := by
  induction ns with
  | nil =>
    intro jobs n job _ hmem
    rw [List.zip_nil_left] at hmem
    cases hmem
  | cons m ns ih =>
    intro jobs n job h hmem
    obtain ⟨first, rest, hfirst, hrest, rfl⟩ := mapM_job_cons.mp h
    rcases List.mem_cons.mp hmem with heq | hmem
    · cases heq
      exact hfirst
    · exact ih hrest hmem

theorem exists_mem_zip {n : Node} : ∀ {jobs : List (Option Job)}, ns.mapM s.job = .ok jobs →
    n ∈ ns → ∃ job, (n, job) ∈ ns.zip jobs := by
  induction ns with
  | nil =>
    intro jobs _ hn
    cases hn
  | cons m ns ih =>
    intro jobs h hn
    obtain ⟨first, rest, -, hrest, rfl⟩ := mapM_job_cons.mp h
    rcases List.mem_cons.mp hn with rfl | hn
    · exact ⟨first, List.mem_cons_self⟩
    · obtain ⟨job, hmem⟩ := ih hrest hn
      exact ⟨job, List.mem_cons_of_mem _ hmem⟩

/-- A node has a turn exactly if it is exported. -/
theorem map_node_turns : ∀ (r : Registry) {jobs : List (Option Job)},
    ns.mapM s.job = .ok jobs →
      (Job.turns r (ns.zip jobs)).map (·.node) = ns.filter (·.isExported) := by
  induction ns with
  | nil => exact fun _ _ _ => rfl
  | cons n ns ih =>
    intro r jobs h
    obtain ⟨job, rest, hjob, hrest, rfl⟩ := mapM_job_cons.mp h
    cases job with
    | none =>
      have hn := Setting.job_eq_ok_none.mp hjob
      rw [List.filter_cons_of_neg (by simp [hn])]
      exact ih r hrest
    | some d =>
      have hn := (Setting.job_eq_ok_some.mp hjob).1
      rw [List.filter_cons_of_pos hn]
      exact congrArg (n :: ·) (ih (r.after d.requests) hrest)

theorem map_snd_zip_jobs (h : ns.mapM s.job = .ok jobs) : (ns.zip jobs).map (·.2) = jobs :=
  List.map_snd_zip (Nat.le_of_eq (length_of_mapM_job h))

theorem map_hasWrapper_zip_jobs (h : ns.mapM s.job = .ok jobs) :
    (ns.zip jobs).map (·.1.decl.hasWrapper) = ns.map (·.decl.hasWrapper) := by
  have hnodes : (ns.zip jobs).map Prod.fst = ns :=
    List.map_fst_zip (Nat.le_of_eq (length_of_mapM_job h).symm)
  have hmap := congrArg (List.map fun n : Node => n.decl.hasWrapper) hnodes
  rwa [List.map_map] at hmap

theorem numbers_ofList (rs : List Record) :
    (Records.ofList rs).entries.map (·.1) = List.range rs.length := by
  rw [Records.ofList, List.map_map, List.range_eq_range']
  exact List.zipIdx_map_snd 0 rs

/-- Each node finds its record under its number. -/
theorem forall₂_records (hs : s.forest.Numbered) (h : s.jobs = .ok jobs) :
    let rows := s.forest.nodes.toList.zip jobs
    List.Forall₂ (fun row x => (s.output jobs).records.get? row.1.id = some x) rows
      (Job.records {} (rows.map (·.1.decl.hasWrapper)) (rows.map (·.2))) := by
  have hlen : jobs.length = s.forest.nodes.toList.length := length_of_mapM_job h
  have hflags : (s.forest.nodes.toList.map (·.decl.hasWrapper)).length = jobs.length := by
    rw [List.length_map, hlen]
  intro rows
  rw [map_hasWrapper_zip_jobs h, map_snd_zip_jobs h]
  refine List.forall₂_iff_get.mpr ⟨?_, fun i hi hi' => ?_⟩
  · rw [List.length_zip, Job.length_records {} hflags, hlen, Nat.min_self]
  · have hnode : i < s.forest.nodes.toList.length := by
      rw [List.length_zip] at hi
      omega
    have hplace : s.forest.node? i = some s.forest.nodes.toList[i] := by
      rw [Forest.node?, ← Array.getElem?_toList, List.getElem?_eq_getElem hnode]
    rw [List.get_eq_getElem, List.get_eq_getElem, List.getElem_zip, hs.id_eq hplace]
    exact (Records.get?_ofList _ i).trans (List.getElem?_eq_getElem hi')

/-- Once all jobs are stated, the output is made in their turns. -/
theorem output_ofTurns (hs : s.forest.Numbered) (h : s.jobs = .ok jobs) :
    (s.output jobs).OfTurns s (Job.turns {} (s.forest.nodes.toList.zip jobs)) := by
  have hsnd := map_snd_zip_jobs h
  have hlen : s.forest.nodes.toList.length = jobs.length := (length_of_mapM_job h).symm
  have hrows := forall₂_records hs h
  obtain ⟨hrecorded, huntouched⟩ := Job.recordedIn_turns s.options _ {} hrows
  constructor
  case nodes => exact map_node_turns {} h
  case job => exact fun t ht => job_of_mem_zip h (Job.mem_of_mem_turns ht)
  case ordered => exact Job.turns_pairwise {} _
  case exports =>
    rw [Job.map_entry_turns, hsnd]
    rfl
  case source =>
    rw [Job.flatMap_wrappers_turns, hsnd]
    rfl
  case numbers =>
    have hflags : (s.forest.nodes.toList.map (·.decl.hasWrapper)).length = jobs.length := by
      rw [List.length_map, hlen]
    have hsize : (Job.records {} (s.forest.nodes.toList.map (·.decl.hasWrapper)) jobs).length =
        s.forest.size := by
      rw [Job.length_records {} hflags, ← hlen]
      rfl
    rw [← hsize]
    exact numbers_ofList _
  case recorded => exact hrecorded
  case untouched =>
    intro n hn hexported
    obtain ⟨job, hmem⟩ := exists_mem_zip h hn
    have hnone : s.job n = .ok none := Setting.job_eq_ok_none.mpr hexported
    rw [job_of_mem_zip h hmem] at hnone
    cases hnone
    exact huntouched n hmem

end Walk

/-- What a walk puts out is made in its turns. -/
theorem exists_turns {es : List Entity} {types : String → Option String} {options : Options}
    {out : Output} (h : generate (.ofEntities es types options) = .ok out) :
    ∃ turns, out.OfTurns (.ofEntities es types options) turns := by
  rw [generate_eq_jobs] at h
  obtain ⟨jobs, hjobs, rfl⟩ := map_eq_ok.mp h
  exact ⟨_, output_ofTurns (Forest.numbered_ofEntities es) hjobs⟩

end FlatApi
