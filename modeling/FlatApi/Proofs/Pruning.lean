import FlatApi.Proofs.Alike
import FlatApi.Proofs.Exports

/-!
# Entities that leave no trace

An entity that has nothing inside and is not up for export can be deleted wherever it stands: the
walk is refused as before, or puts out the same text and the same exports
(`generate_deleteAll`).  Only the records move up, those of the nodes behind it by one.

The outlines of the other nodes stay as they are (`outlinesAll_deleteAll`), and with them their
jobs; a job that is none does nothing.
-/

namespace FlatApi

open Forest (Node)
open FlatApi.Symbol (Registry)

/-! ## Deleting an entity -/

namespace Entity

mutual

/-- An entity without the one that has this number among those inside it. -/
def deleteInside (k : Nat) : Entity → Entity
  | ⟨name, decl, access, children⟩ => ⟨name, decl, access, deleteAll k children⟩

/-- Entities without the one that has this number, and without all inside it. -/
def deleteAll (k : Nat) : List Entity → List Entity
  | [] => []
  | e :: es =>
    if k = 0 then es
    else if k < e.size then deleteInside (k - 1) e :: es
    else e :: deleteAll (k - e.size) es

end

mutual

theorem length_outlines (around : List Level) :
    ∀ e : Entity, (outlines around e).length = e.size
  | ⟨name, decl, access, children⟩ => by
    rw [outlines, size, List.length_cons, length_outlinesAll _ children, Nat.add_comm]

theorem length_outlinesAll (around : List Level) :
    ∀ es : List Entity, (outlinesAll around es).length = sizeAll es
  | [] => rfl
  | e :: es => by
    rw [outlinesAll, sizeAll, List.length_append, length_outlines around e,
      length_outlinesAll around es]

end

theorem outlines_of_childless {parent : Option Nat} {id : Nat} {e : Entity}
    (h : (node parent id e).children = []) (around : List Level) :
    outlines around e = [⟨e.name, e.decl, e.access, around⟩] := by
  obtain ⟨name, decl, access, children⟩ := e
  cases children with
  | nil => rfl
  | cons c cs => cases h

mutual

/-- Deleting an entity without children takes its outline away and no other. -/
theorem outlines_deleteInside (around : List Level) (parent : Option Nat) (id k : Nat) {n : Node}
    (hn : n.children = []) :
    ∀ e : Entity, (flatten parent id e)[k + 1]? = some n →
      outlines around (deleteInside k e) = (outlines around e).eraseIdx (k + 1)
  | ⟨name, decl, access, children⟩, h => by
    rw [flatten, List.getElem?_cons_succ] at h
    rw [deleteInside, outlines, outlines, List.eraseIdx_cons_succ,
      outlinesAll_deleteAll _ (some id) (id + 1) k hn children h]

/-- Without an entity that has nothing inside, its outline is gone and the others stay. -/
theorem outlinesAll_deleteAll (around : List Level) (parent : Option Nat) (id k : Nat) {n : Node}
    (hn : n.children = []) :
    ∀ es : List Entity, (flattenAll parent id es)[k]? = some n →
      outlinesAll around (deleteAll k es) = (outlinesAll around es).eraseIdx k
  | e :: es, h => by
    rw [flattenAll] at h
    rw [deleteAll, outlinesAll]
    -- the entity itself, one inside it, or one behind it
    cases k with
    | zero =>
      rw [flatten_eq_cons, List.cons_append, List.getElem?_cons_zero] at h
      cases h
      rw [if_pos rfl, outlines_of_childless hn, List.singleton_append, List.eraseIdx_cons_zero]
    | succ k =>
      rw [if_neg (Nat.succ_ne_zero k), Nat.add_sub_cancel]
      by_cases hk : k + 1 < e.size
      · rw [List.getElem?_append_left (by rwa [length_flatten])] at h
        rw [if_pos hk, outlinesAll, outlines_deleteInside around parent id k hn e h,
          List.eraseIdx_append_of_lt_length (by rwa [length_outlines])]
      · have hle : e.size ≤ k + 1 := Nat.le_of_not_lt hk
        rw [List.getElem?_append_right (by rwa [length_flatten]), length_flatten] at h
        rw [if_neg hk, outlinesAll,
          outlinesAll_deleteAll around parent (id + e.size) (k + 1 - e.size) hn es h,
          List.eraseIdx_append_of_length_le (by rwa [length_outlines]), length_outlines]

end

end Entity

/-! ## A job that is none -/

section NoJob

/-- A node without a job can be left out of the row. -/
theorem mapM_job_eraseIdx {s : Setting} {n : Node} (hjob : s.job n = .ok none) {ns : List Node} :
    ∀ {k : Nat}, ns[k]? = some n →
      (ns.eraseIdx k).mapM s.job = (·.eraseIdx k) <$> ns.mapM s.job := by
  induction ns with
  | nil => exact nofun
  | cons m ns ih =>
    intro k hk
    rw [List.mapM_cons]
    cases k with
    | zero =>
      cases hk
      rw [List.eraseIdx_cons_zero, hjob]
      cases ns.mapM s.job <;> rfl
    | succ k =>
      rw [List.getElem?_cons_succ] at hk
      rw [List.eraseIdx_cons_succ, List.mapM_cons, ih hk]
      cases s.job m <;> cases ns.mapM s.job <;> rfl

theorem getElem?_of_mapM_job {s : Setting} {n : Node} {ns : List Node} :
    ∀ {k : Nat} {ds : List (Option Job)}, ns[k]? = some n → ns.mapM s.job = .ok ds →
      ∃ d, ds[k]? = some d ∧ s.job n = .ok d := by
  induction ns with
  | nil => exact nofun
  | cons m ns ih =>
    intro k ds hk h
    obtain ⟨d, rest, hd, hrest, rfl⟩ := mapM_job_cons.mp h
    cases k with
    | zero =>
      cases hk
      exact ⟨d, rfl, hd⟩
    | succ k =>
      obtain ⟨d', hget, hd'⟩ := ih ((List.getElem?_cons_succ).symm.trans hk) hrest
      exact ⟨d', hget, hd'⟩

variable {ds : List (Option Job)}

theorem reduceOption_eraseIdx :
    ∀ {k : Nat}, ds[k]? = some none → (ds.eraseIdx k).reduceOption = ds.reduceOption := by
  induction ds with
  | nil => exact nofun
  | cons d ds ih =>
    intro k h
    cases k with
    | zero =>
      cases h
      rw [List.eraseIdx_cons_zero, List.reduceOption_cons_of_none]
    | succ k =>
      rw [List.getElem?_cons_succ] at h
      rw [List.eraseIdx_cons_succ]
      cases d with
      | none => rw [List.reduceOption_cons_of_none, List.reduceOption_cons_of_none, ih h]
      | some d => rw [List.reduceOption_cons_of_some, List.reduceOption_cons_of_some, ih h]

/-- A node without a job takes no symbol, so the other notes stay as they are. -/
theorem notes_eraseIdx :
    ∀ {k : Nat} (r : Registry), ds[k]? = some none →
      Job.notes r (ds.eraseIdx k) = (Job.notes r ds).eraseIdx k := by
  induction ds with
  | nil => exact nofun
  | cons d ds ih =>
    intro k r h
    cases k with
    | zero =>
      cases h
      rw [List.eraseIdx_cons_zero, Job.notes, List.eraseIdx_cons_zero]
    | succ k =>
      rw [List.getElem?_cons_succ] at h
      rw [List.eraseIdx_cons_succ]
      cases d <;> rw [Job.notes, Job.notes, List.eraseIdx_cons_succ, ih _ h]

/-- Without a node that has no job, its record is gone and the others stay. -/
theorem records_eraseIdx (r : Registry) (flags : List Bool) {k : Nat} (h : ds[k]? = some none) :
    Job.records r (flags.eraseIdx k) (ds.eraseIdx k) = (Job.records r flags ds).eraseIdx k := by
  rw [Job.records, Job.records, notes_eraseIdx r h]
  apply List.ext_getElem?
  intro j
  simp only [List.getElem?_zipWith, List.getElem?_eraseIdx]
  by_cases hj : j < k
  · simp only [if_pos hj]
  · simp only [if_neg hj]

end NoJob

/-! ## Walks without the entity -/

section Walk

variable {es : List Entity} {k : Nat} {n : Node} {types : String → Option String}
variable {options : Options}

theorem getElem?_nodes (hn : (Forest.ofEntities es).node? k = some n) :
    (Forest.ofEntities es).nodes.toList[k]? = some n := by
  rwa [Array.getElem?_toList]

/-- The outlines of all nodes but the one that is deleted. -/
theorem outlines_nodes_deleteAll (hn : (Forest.ofEntities es).node? k = some n)
    (hchildren : n.children = []) :
    (Forest.ofEntities (Entity.deleteAll k es)).nodes.toList.map
        (Forest.ofEntities (Entity.deleteAll k es)).outline =
      ((Forest.ofEntities es).nodes.toList.eraseIdx k).map (Forest.ofEntities es).outline := by
  rw [Forest.outlines_ofEntities, ← List.eraseIdx_map, Forest.outlines_ofEntities]
  exact Entity.outlinesAll_deleteAll [] none 0 k hchildren es (getElem?_nodes hn)

/-- The jobs of all nodes but the one that is deleted. -/
theorem jobs_deleteAll (hn : (Forest.ofEntities es).node? k = some n)
    (hchildren : n.children = []) (hexported : n.isExported = false) :
    (Setting.ofEntities (Entity.deleteAll k es) types options).jobs =
      (·.eraseIdx k) <$> (Setting.ofEntities es types options).jobs := by
  have hmap : (Forest.ofEntities (Entity.deleteAll k es)).nodes.toList.map
      (Setting.ofEntities (Entity.deleteAll k es) types options).job =
        ((Forest.ofEntities es).nodes.toList.eraseIdx k).map
          (Setting.ofEntities es types options).job :=
    map_job_eq_of_outline (List.Subset.refl _) List.eraseIdx_subset
      (outlines_nodes_deleteAll hn hchildren)
  have hjob : (Setting.ofEntities es types options).job n = .ok none :=
    Setting.job_eq_ok_none.mpr hexported
  exact (mapM_job_eq_of_map hmap).trans (mapM_job_eraseIdx hjob (getElem?_nodes hn))

/-- Without such a node the output is the same but for its record. -/
theorem output_deleteAll (hn : (Forest.ofEntities es).node? k = some n)
    (hchildren : n.children = []) {ds : List (Option Job)} (hds : ds[k]? = some none) :
    (Setting.ofEntities (Entity.deleteAll k es) types options).output (ds.eraseIdx k) =
      { (Setting.ofEntities es types options).output ds with
        records := .ofList ((Job.records {}
          ((Forest.ofEntities es).nodes.toList.map (·.decl.hasWrapper)) ds).eraseIdx k) } := by
  have hflags : (Forest.ofEntities (Entity.deleteAll k es)).nodes.toList.map
      (·.decl.hasWrapper) =
        ((Forest.ofEntities es).nodes.toList.map (·.decl.hasWrapper)).eraseIdx k := by
    have h := congrArg (List.map fun o : Outline => o.decl.hasWrapper)
      (outlines_nodes_deleteAll hn hchildren)
    rw [List.map_map, List.map_map, ← List.eraseIdx_map] at h
    exact h
  have hrecords := records_eraseIdx {} ((Forest.ofEntities es).nodes.toList.map
    (·.decl.hasWrapper)) hds
  rw [← hflags] at hrecords
  rw [Setting.output, Setting.output, Setting.listing, Setting.listing,
    reduceOption_eraseIdx hds, ← hrecords]
  rfl

end Walk

/-- **Entities that leave no trace.**  What has nothing inside can be deleted if it is private, a
constructor or destructor, a scope, or of a kind that has no wrappers. -/
theorem generate_deleteAll {es : List Entity} {k : Nat} {n : Node}
    (hn : (Forest.ofEntities es).node? k = some n) (hchildren : n.children = [])
    (hexported : n.isExported = false) (types : String → Option String) (options : Options) :
    let s := Setting.ofEntities es types options
    let s' := Setting.ofEntities (Entity.deleteAll k es) types options
    (∀ r, generate s = .error r ↔ generate s' = .error r) ∧
    ∀ out, generate s = .ok out → ∃ out', generate s' = .ok out' ∧
      out'.source = out.source ∧ out'.exports = out.exports ∧
      out'.artifactPath = out.artifactPath ∧
      ∀ j, out'.records.get? j = out.records.get? (if j < k then j else j + 1) := by
  intro s s'
  have hjobs : s'.jobs = (·.eraseIdx k) <$> s.jobs := jobs_deleteAll hn hchildren hexported
  have hgen : generate s = s.output <$> s.jobs := generate_eq_jobs es types options
  have hgen' : generate s' = s'.output <$> s'.jobs := generate_eq_jobs _ types options
  simp only [hgen, hgen', hjobs, map_eq_error, map_eq_ok]
  refine ⟨fun r => trivial, ?_⟩
  rintro _ ⟨ds, hds, rfl⟩
  obtain ⟨d, hd, hjob⟩ := getElem?_of_mapM_job (getElem?_nodes hn) hds
  rw [Setting.job_eq_ok_none.mpr hexported] at hjob
  cases hjob
  refine ⟨_, ⟨ds.eraseIdx k, ⟨ds, hds, rfl⟩, rfl⟩, ?_⟩
  rw [output_deleteAll hn hchildren hd]
  refine ⟨rfl, rfl, rfl, fun j => ?_⟩
  rw [Setting.output, Records.get?_ofList, Records.get?_ofList, List.getElem?_eraseIdx]
  split <;> rfl

/-- The private field of the gallery, whose type has no C type. -/
theorem generate_deleteAll_cache :
    let types := fun t => if t = "Cache" then none else some t
    let s := Setting.ofEntities Entity.gallery types {}
    let s' := Setting.ofEntities (Entity.deleteAll 5 Entity.gallery) types {}
    (∃ n, s.forest.node? 5 = some n ∧ n.name = "cache" ∧ n.children = [] ∧
      n.isExported = false) ∧
    s.forest.size = 8 ∧ s'.forest.size = 7 ∧
    ∃ out out', generate s = .ok out ∧ generate s' = .ok out' ∧
      out'.source = out.source ∧ out'.exports = out.exports ∧
      out.exports.flatMap (·.symbols) =
        ["ui_Shape_Draw", "set_ShapeEx_fnDraw", "get_ui_Shape_radius", "set_ui_Shape_radius",
          "ui_Add", "ui_Add0"] ∧
      out'.records.get? 5 = out.records.get? 6 := by
  intro types s s'
  let cache : Node :=
    { id := 5, name := "cache", decl := .memberVariable "Cache", access := .ownClass,
      parent := some 1, children := [] }
  have hcache : (Forest.ofEntities Entity.gallery).node? 5 = some cache := by decide
  have hrun : (generate s).toOption.map (fun out => out.exports.flatMap (·.symbols)) =
      some ["ui_Shape_Draw", "set_ShapeEx_fnDraw", "get_ui_Shape_radius", "set_ui_Shape_radius",
        "ui_Add", "ui_Add0"] := by decide +kernel
  obtain ⟨out, hout, hsymbols⟩ := exists_ok_of_toOption hrun
  obtain ⟨-, hdeleted⟩ := generate_deleteAll hcache rfl (by decide) types {}
  obtain ⟨out', hout', hsource, hexports, -, hrecords⟩ := hdeleted out hout
  exact ⟨⟨cache, hcache, rfl, rfl, by decide⟩, by decide, by decide, out, out', hout, hout',
    hsource, hexports, hsymbols, hrecords 5⟩

end FlatApi
