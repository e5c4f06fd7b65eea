import FlatApi.Proofs.Alike
import FlatApi.Proofs.Exports
import FlatApi.Proofs.Faults

/-!
# Declarations behind others

What is declared behind other entities comes behind them in everything that a walk puts out: the
exports, the records, and the text up to the line that ends it.  If the entities in front are
refused, so are all of them together, for the same reason (`generate_append`).

The nodes in front keep their numbers, their outlines and so their jobs; names flow forward only.
-/

namespace FlatApi

open Forest (Node)

namespace Entity

theorem flattenAll_append (parent : Option Nat) (a b : List Entity) :
    ∀ id, flattenAll parent id (a ++ b) =
      flattenAll parent id a ++ flattenAll parent (id + sizeAll a) b := by
  induction a with
  | nil => exact fun _ => rfl
  | cons e a ih =>
    intro id
    rw [List.cons_append, flattenAll, ih, flattenAll, sizeAll, List.append_assoc, Nat.add_assoc]

theorem outlinesAll_append (around : List Level) (a b : List Entity) :
    outlinesAll around (a ++ b) = outlinesAll around a ++ outlinesAll around b := by
  induction a with
  | nil => rfl
  | cons e a ih => rw [List.cons_append, outlinesAll, ih, outlinesAll, List.append_assoc]

end Entity

section Append

variable (a b : List Entity) (types : String → Option String) (options : Options)

/-- The nodes of the front part are as they were. -/
theorem nodes_append :
    (Forest.ofEntities (a ++ b)).nodes.toList =
      (Forest.ofEntities a).nodes.toList ++ Entity.flattenAll none (Entity.sizeAll a) b := by
  have h := Entity.flattenAll_append none a b 0
  rwa [Nat.zero_add] at h

/-- The entities in front have the jobs that they have on their own. -/
theorem map_job_append :
    (Forest.ofEntities a).nodes.toList.map (Setting.ofEntities (a ++ b) types options).job =
      (Forest.ofEntities a).nodes.toList.map (Setting.ofEntities a types options).job := by
  have houtlines := Forest.outlines_ofEntities (a ++ b)
  rw [nodes_append, List.map_append, Entity.outlinesAll_append,
    ← Forest.outlines_ofEntities a] at houtlines
  have hfront := (List.append_inj houtlines (by rw [List.length_map, List.length_map])).1
  refine map_job_eq_of_outline ?_ (List.Subset.refl _) hfront
  rw [nodes_append]
  exact List.subset_append_left _ _

/-- The jobs of the front part do not depend on what is appended. -/
theorem jobs_append :
    (Setting.ofEntities (a ++ b) types options).jobs = do
      let front ← (Setting.ofEntities a types options).jobs
      let behind ← (Entity.flattenAll none (Entity.sizeAll a) b).mapM
        (Setting.ofEntities (a ++ b) types options).job
      return front ++ behind := by
  have hnodes : (Setting.ofEntities (a ++ b) types options).forest.nodes.toList =
      (Forest.ofEntities a).nodes.toList ++ Entity.flattenAll none (Entity.sizeAll a) b :=
    nodes_append a b
  rw [Setting.jobs, hnodes, List.mapM_append,
    mapM_job_eq_of_map (map_job_append a b types options)]
  rfl

variable {a b types options}

theorem length_jobs {jobs : List (Option Job)}
    (h : (Setting.ofEntities a types options).jobs = .ok jobs) :
    jobs.length = Entity.sizeAll a :=
  (length_of_mapM_job h).trans (Entity.length_flattenAll none 0 a)

/-- Behind the records of the entities in front come those of the others. -/
theorem records_append {front : List (Option Job)} (behind : List (Option Job))
    (h : (Setting.ofEntities a types options).jobs = .ok front) {id : Nat}
    (hid : id < Entity.sizeAll a) :
    ∃ r, ((Setting.ofEntities a types options).output front).records.get? id = some r ∧
      ((Setting.ofEntities (a ++ b) types options).output (front ++ behind)).records.get? id =
        some r := by
  have hflags : ((Forest.ofEntities a).nodes.toList.map (·.decl.hasWrapper)).length =
      front.length := by
    rw [List.length_map]
    exact (length_of_mapM_job h).symm
  have hlen : id < (Job.records {} ((Forest.ofEntities a).nodes.toList.map (·.decl.hasWrapper))
      front).length := by
    rw [Job.length_records _ hflags, length_jobs h]
    exact hid
  refine ⟨_, (Records.get?_ofList _ id).trans (List.getElem?_eq_getElem hlen), ?_⟩
  have hnodes : (Setting.ofEntities (a ++ b) types options).forest.nodes.toList =
      (Forest.ofEntities a).nodes.toList ++ Entity.flattenAll none (Entity.sizeAll a) b :=
    nodes_append a b
  rw [Setting.output, Records.get?_ofList, hnodes, List.map_append, Job.records_append _ hflags,
    List.getElem?_append_left hlen]
  exact List.getElem?_eq_getElem hlen

end Append

/-- **Declarations appended.**  They never turn a refusal into another outcome, and leave the
exports, the records and the text of those in front of them as they are. -/
theorem generate_append (a b : List Entity) (types : String → Option String)
    (options : Options) :
    (∀ r, generate (.ofEntities a types options) = .error r →
      generate (.ofEntities (a ++ b) types options) = .error r) ∧
    ∀ both, generate (.ofEntities (a ++ b) types options) = .ok both →
      ∃ front, generate (.ofEntities a types options) = .ok front ∧
        front.exports <+: both.exports ∧
        (∀ id < Entity.sizeAll a, ∃ r,
          front.records.get? id = some r ∧ both.records.get? id = some r) ∧
        ∃ body rest, front.source = body ++ "\x7d\n" ∧ both.source = body ++ rest := by
  simp only [generate_eq_jobs, map_eq_error, map_eq_ok, jobs_append]
  constructor
  · intro r h
    rw [h]
    rfl
  · rintro _ ⟨jobs, hjobs, rfl⟩
    obtain ⟨front, hfront, hjobs⟩ := bind_eq_ok.mp hjobs
    obtain ⟨behind, -, hjobs⟩ := bind_eq_ok.mp hjobs
    cases hjobs
    refine ⟨_, ⟨front, hfront, rfl⟩, ?_, fun id hid => records_append behind hfront hid, ?_⟩
    · show Job.exports _ _ <+: Job.exports _ _
      rw [List.reduceOption_append, Job.exports_append]
      exact List.prefix_append _ _
    · obtain ⟨more, hmore⟩ : ∃ more,
          ((Setting.ofEntities (a ++ b) types options).listing (front ++ behind)).lines =
            ((Setting.ofEntities a types options).listing front).lines ++ more := by
        refine ⟨_, Eq.trans ?_ (Listing.lines_addWrappers _
          (Job.wrappers options (Job.after {} front.reduceOption) behind.reduceOption)
          options.exportMacro)⟩
        rw [Setting.listing, List.reduceOption_append, Job.wrappers_append,
          Listing.addWrappers_append]
        rfl
      refine ⟨_, Listing.textOf more ++ "\x7d\n", Setting.source_output _ front, ?_⟩
      rw [Setting.source_output, hmore, Listing.textOf_append, String.append_assoc]

/-- A function whose name is taken by those of the gallery. -/
def Entity.sequel : List Entity :=
  [{ name := "ui", decl := .nameSpace, children := [{ name := "Add", decl := .freeFunction {} }] }]

/-- A function with a type that may have no C type. -/
def Entity.misfit : List Entity := [{ name := "Get", decl := .freeFunction { returns := "View" } }]

theorem generate_append_sequel :
    let types := fun t => if t = "View" then none else some t
    generate (.ofEntities (Entity.misfit ++ Entity.sequel) types {}) =
        .error (.unmappedType "View" "Get") ∧
      ∃ front both,
        generate (.ofEntities Entity.gallery types {}) = .ok front ∧
        generate (.ofEntities (Entity.gallery ++ Entity.sequel) types {}) = .ok both ∧
        both.exports.flatMap (·.symbols) =
          ["ui_Shape_Draw", "set_ShapeEx_fnDraw", "get_ui_Shape_radius", "set_ui_Shape_radius",
            "ui_Add", "ui_Add0", "ui_Add1"] ∧
        front.exports <+: both.exports ∧
        (∀ id < 8, ∃ r, front.records.get? id = some r ∧ both.records.get? id = some r) ∧
        ∃ body rest, front.source = body ++ "\x7d\n" ∧ both.source = body ++ rest := by
  intro types
  constructor
  · refine (generate_append Entity.misfit Entity.sequel types {}).1 _ ?_
    exact (generate_eq_error _ _ _ _).mpr (by decide +kernel)
  · have hrun : (generate (.ofEntities (Entity.gallery ++ Entity.sequel)
        types {})).toOption.map (fun out => out.exports.flatMap (·.symbols)) =
          some ["ui_Shape_Draw", "set_ShapeEx_fnDraw", "get_ui_Shape_radius",
            "set_ui_Shape_radius", "ui_Add", "ui_Add0", "ui_Add1"] := by decide +kernel
    obtain ⟨both, hboth, hsymbols⟩ := exists_ok_of_toOption hrun
    obtain ⟨front, hfront, hexports, hrecords, hsource⟩ :=
      (generate_append Entity.gallery Entity.sequel types {}).2 both hboth
    have hsize : Entity.sizeAll Entity.gallery = 8 := by decide
    rw [hsize] at hrecords
    exact ⟨front, both, hfront, hboth, hsymbols, hexports, hrecords, hsource⟩

end FlatApi
