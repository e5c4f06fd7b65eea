import FlatApi.Proofs.Appending
import FlatApi.Proofs.Unnumbered
import Mathlib.Data.List.Perm.Basic

/-!
# Siblings in another order

Entities may be written in another order, at the top and inside any entity (`Entity.Reordered`).
The nodes are then walked and numbered otherwise, but they have the same outlines
(`Reordered.perm_outlinesAll`) and so the same jobs (`exists_jobs_of_reordered`).

Only numbers behind symbols depend on the order.  Where all names that the jobs ask for are
different there are none, and another order does nothing but permute the exports
(`exports_of_distinct_names`).
-/

namespace FlatApi

open Forest (Node)

namespace Entity

/-! ## Reordered entities -/

/-- The same entities, with the siblings at any level in any order. -/
inductive Reordered : List Entity → List Entity → Prop
  | perm {es es' : List Entity} (h : es.Perm es') : Reordered es es'
  | inside {name : String} {decl : Declaration} {access : Access} {children children' : List Entity}
      (front back : List Entity) (h : Reordered children children') :
      Reordered (front ++ ⟨name, decl, access, children⟩ :: back)
        (front ++ ⟨name, decl, access, children'⟩ :: back)
  | trans {es es' es'' : List Entity} (h : Reordered es es') (h' : Reordered es' es'') :
      Reordered es es''

theorem outlinesAll_eq_flatMap (around : List Level) (es : List Entity) :
    outlinesAll around es = es.flatMap (outlines around) := by
  induction es with
  | nil => rfl
  | cons e es ih => rw [outlinesAll, ih, List.flatMap_cons]

/-- The outlines are the same, in another order. -/
theorem Reordered.perm_outlinesAll {es es' : List Entity} (h : Reordered es es') :
    ∀ around, (outlinesAll around es).Perm (outlinesAll around es') := by
  induction h with
  | perm h =>
    intro around
    rw [outlinesAll_eq_flatMap, outlinesAll_eq_flatMap]
    exact h.flatMap_right _
  | inside front back _ ih =>
    intro around
    rw [outlinesAll_append, outlinesAll_append, outlinesAll, outlinesAll, outlines, outlines]
    exact (((ih _).cons _).append_right _).append_left _
  | trans _ _ ih ih' => exact fun around => (ih around).trans (ih' around)

end Entity

/-! ## Jobs of reordered entities -/

section Jobs

variable {es es' : List Entity} {types : String → Option String} {options : Options}

/-- The nodes of reordered entities have the jobs of those nodes that have their outlines. -/
theorem exists_jobs_of_reordered (h : Entity.Reordered es es') {jobs : List (Option Job)}
    (hjobs : (Setting.ofEntities es types options).jobs = .ok jobs) :
    ∃ jobs', (Setting.ofEntities es' types options).jobs = .ok jobs' ∧ jobs'.Perm jobs := by
  have houtlines : ((Forest.ofEntities es').nodes.toList.map (Forest.ofEntities es').outline).Perm
      ((Forest.ofEntities es).nodes.toList.map (Forest.ofEntities es).outline) := by
    rw [Forest.outlines_ofEntities, Forest.outlines_ofEntities]
    exact (h.perm_outlinesAll []).symm
  have hnodes : List.Forall₂ (fun o n => o = (Forest.ofEntities es).outline n)
      ((Forest.ofEntities es).nodes.toList.map (Forest.ofEntities es).outline)
      (Forest.ofEntities es).nodes.toList := by
    rw [List.forall₂_map_left_iff]
    exact List.forall₂_same.mpr fun _ _ => rfl
  -- the old nodes, in the new order
  obtain ⟨ns, hns, hperm⟩ := List.perm_comp_forall₂ houtlines hnodes
  have hsame : (Forest.ofEntities es').nodes.toList.map (Forest.ofEntities es').outline =
      ns.map (Forest.ofEntities es).outline := by
    rw [← List.forall₂_eq_eq_eq]
    exact List.forall₂_map_right_iff.mpr hns
  have hjob : (Forest.ofEntities es').nodes.toList.map (Setting.ofEntities es' types options).job =
      ns.map (Setting.ofEntities es types options).job :=
    map_job_eq_of_outline (List.Subset.refl _) hperm.subset hsame
  obtain ⟨jobs', hjobs', hperm'⟩ := List.perm_comp_forall₂ hperm (mapM_eq_ok.mp hjobs)
  refine ⟨jobs', ?_, hperm'⟩
  rw [Setting.jobs, ← mapM_eq_ok.mpr hjobs']
  exact mapM_job_eq_of_map hjob

end Jobs

/-- **No number without need.**  If all names that go with the exported nodes are different, each
node is exported with symbols that have no numbers.  Then the order of siblings does not matter:
in any other one the entities are not refused either, and their exports are the same up to the
order. -/
theorem exports_of_distinct_names {es : List Entity} {types : String → Option String}
    {options : Options} {out : Output}
    (h : generate (.ofEntities es types options) = .ok out)
    (hnames : ((Entity.exported es).flatMap
      (Setting.ofEntities es types options).idealNames).Nodup) :
    List.Forall₂ (Setting.ofEntities es types options).ExportedIdeally (Entity.exported es)
        out.exports ∧
      ∀ es', Entity.Reordered es es' →
        ∃ out', generate (.ofEntities es' types options) = .ok out' ∧
          out'.exports.Perm out.exports := by
  rw [generate_eq_jobs] at h
  obtain ⟨jobs, hjobs, rfl⟩ := map_eq_ok.mp h
  have hnodes := forall₂_job_exported hjobs
  have hdistinct : (jobs.reduceOption.flatMap Job.idealNames).Nodup := by
    rw [← flatMap_idealNames hnodes]
    exact hnames
  have hexports : Job.exports {} jobs.reduceOption = jobs.reduceOption.map Job.idealEntry :=
    Job.exports_of_nodup hdistinct
  constructor
  · show List.Forall₂ _ _ (Job.exports {} jobs.reduceOption)
    rw [hexports, List.forall₂_map_right_iff]
    exact hnodes.imp fun n d hjob => exportedIdeally_of_job hjob
  · intro es' hreordered
    obtain ⟨jobs', hjobs', hperm⟩ := exists_jobs_of_reordered hreordered hjobs
    refine ⟨(Setting.ofEntities es' types options).output jobs', ?_, ?_⟩
    · rw [generate_eq_jobs, hjobs']
      rfl
    · have hpermuted : jobs'.reduceOption.Perm jobs.reduceOption := hperm.filterMap _
      have hdistinct' : (jobs'.reduceOption.flatMap Job.idealNames).Nodup :=
        (hpermuted.flatMap_right _).nodup_iff.mpr hdistinct
      have hexports' : Job.exports {} jobs'.reduceOption =
          jobs'.reduceOption.map Job.idealEntry := Job.exports_of_nodup hdistinct'
      show (Job.exports {} jobs'.reduceOption).Perm (Job.exports {} jobs.reduceOption)
      rw [hexports, hexports']
      exact hpermuted.map _

/-- A class, written with its members in this order. -/
def Entity.brush (members : List Entity) : Entity :=
  { name := "Brush", decl := .classType true, children := members }

def Entity.strokes : List Entity :=
  [{ name := "Draw", decl := .memberFunction { isVirtual := true } },
    { name := "width", decl := .memberVariable "float", access := .subclasses }]

def Entity.clear : Entity := { name := "Clear", decl := .freeFunction {} }

/-- A namespace with a class and a function that has a namesake outside. -/
def Entity.studio : List Entity :=
  [{ name := "ui", decl := .nameSpace, children := [brush strokes, clear] }, clear]

def Entity.studioReordered : List Entity :=
  [clear, { name := "ui", decl := .nameSpace, children := [clear, brush strokes.reverse] }]

theorem Entity.reordered_studio : Reordered studio studioReordered := by
  have hmembers : Reordered [brush strokes, clear] [brush strokes.reverse, clear] :=
    .inside [] [clear] (.perm (List.reverse_perm strokes).symm)
  have hchildren : Reordered [brush strokes, clear] [clear, brush strokes.reverse] :=
    .trans hmembers (.perm (List.Perm.swap _ _ _))
  have hroots : Reordered studio
      [{ name := "ui", decl := .nameSpace, children := [clear, brush strokes.reverse] }, clear] :=
    .inside [] [clear] hchildren
  exact .trans hroots (.perm (List.Perm.swap _ _ _))

theorem exports_of_distinct_names_studio :
    let s := Setting.ofEntities Entity.studio some {}
    ((Entity.exported Entity.studio).flatMap s.idealNames).Nodup ∧
      ∃ out, generate s = .ok out ∧
        out.exports.map (·.symbols) =
          [["ui_Brush_Draw", "set_BrushEx_fnDraw"], ["get_ui_Brush_width", "set_ui_Brush_width"],
            ["ui_Clear"], ["Clear"]] ∧
        List.Forall₂ s.ExportedIdeally (Entity.exported Entity.studio) out.exports ∧
        ∃ out', generate (.ofEntities Entity.studioReordered some {}) = .ok out' ∧
          out'.exports.Perm out.exports := by
  intro s
  have hnames : ((Entity.exported Entity.studio).flatMap s.idealNames).Nodup := by
    decide +kernel
  have hrun : (generate s).toOption.map (fun out => out.exports.map (·.symbols)) =
      some [["ui_Brush_Draw", "set_BrushEx_fnDraw"], ["get_ui_Brush_width", "set_ui_Brush_width"],
        ["ui_Clear"], ["Clear"]] := by decide +kernel
  obtain ⟨out, hout, hsymbols⟩ := exists_ok_of_toOption hrun
  obtain ⟨hexports, hreordered⟩ := exports_of_distinct_names hout hnames
  exact ⟨hnames, out, hout, hsymbols, hexports, hreordered _ Entity.reordered_studio⟩

end FlatApi
