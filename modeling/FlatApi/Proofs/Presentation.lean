import FlatApi.Proofs.Exports
import FlatApi.Proofs.Jobs

/-!
# What the symbols do not depend on

C types and most options are printed and nothing else.  Two settings of one forest that give C
types to the same types and have the same suffix for classes that stand in (`Setting.Akin`) refuse
the same nodes for the same reasons, and their drafts differ in printed texts only
(`Setting.Akin.draft`).  Their walks have the same exports and records
(`generate_presentation`).

Each part of a draft is compared once (`Agree`), and the comparison is put together along the
steps in which the draft is made.
-/

namespace FlatApi

open Forest (Node)
open FlatApi.Symbol (Registry)

/-! ## Results that agree -/

/-- Both are refused for the same reason, or both are there and related. -/
inductive Agree {α β : Type} (R : α → β → Prop) : Except Refusal α → Except Refusal β → Prop where
  | refused (r : Refusal) : Agree R (.error r) (.error r)
  | ok {a : α} {b : β} (h : R a b) : Agree R (.ok a) (.ok b)

namespace Agree

variable {α β γ δ : Type} {R : α → β → Prop} {S : γ → δ → Prop}
variable {x : Except Refusal α} {y : Except Refusal β}

theorem bind (h : Agree R x y) {f : α → Except Refusal γ} {g : β → Except Refusal δ}
    (hfg : ∀ a b, R a b → Agree S (f a) (g b)) : Agree S (x >>= f) (y >>= g) := by
  cases h with
  | refused r => exact .refused r
  | ok hab => exact hfg _ _ hab

theorem map (h : Agree R x y) {f : α → γ} {g : β → δ} (hfg : ∀ a b, R a b → S (f a) (g b)) :
    Agree S (f <$> x) (g <$> y) := by
  cases h with
  | refused r => exact .refused r
  | ok hab => exact .ok (hfg _ _ hab)

theorem imp (h : Agree R x y) {R' : α → β → Prop} (hR : ∀ a b, R a b → R' a b) :
    Agree R' x y := by
  cases h with
  | refused r => exact .refused r
  | ok hab => exact .ok (hR _ _ hab)

/-- Both are refused for one reason, or both give results that fit. -/
theorem outcomes (h : Agree R x y) :
    (∃ r, x = .error r ∧ y = .error r) ∨ ∃ a b, x = .ok a ∧ y = .ok b ∧ R a b := by
  cases h with
  | refused r => exact Or.inl ⟨r, rfl, rfl⟩
  | ok hab => exact Or.inr ⟨_, _, rfl, rfl, hab⟩

theorem mapM {ι : Type} {f : ι → Except Refusal α} {g : ι → Except Refusal β}
    (h : ∀ i, Agree R (f i) (g i)) (is : List ι) :
    Agree (List.Forall₂ R) (is.mapM f) (is.mapM g) := by
  induction is with
  | nil => exact .ok .nil
  | cons i is ih =>
    rw [List.mapM_cons, List.mapM_cons]
    exact (h i).bind fun a b hab => ih.bind fun as bs hs => .ok (.cons hab hs)

end Agree

/-! ## What is not printed -/

/-- A draft without the texts that are only printed. -/
def Draft.bare : Draft → Draft
  | .call d => .call { d with returnType := "", params := [], statement := "" }
  | .field d => .field { base := d.base, className := "", cType := "", readExpr := "",
                         writeStatement := "" }

theorem Draft.requests_bare (d : Draft) : d.bare.requests = d.requests := by cases d <;> rfl

theorem Draft.symbols_bare (d : Draft) : d.bare.symbols = d.symbols := by cases d <;> rfl

namespace Job

def bare (d : Job) : Job := { d with draft := d.draft.bare }

theorem requests_bare (d : Job) : d.bare.requests = d.requests := d.draft.requests_bare

theorem entry_bare (r : Registry) (d : Job) : d.bare.entry r = d.entry r := by
  rw [entry, requests_bare, bare, Draft.symbols_bare, entry]

/-- Exports do not depend on printed texts. -/
theorem exports_bare (ds : List Job) :
    ∀ r : Registry, exports r (ds.map bare) = exports r ds := by
  induction ds with
  | nil => exact fun _ => rfl
  | cons d ds ih =>
    intro r
    rw [List.map_cons, exports, entry_bare, requests_bare, ih, exports]

/-- What is noted of the nodes does not depend on how wrappers are printed. -/
theorem notes_bare (ds : List (Option Job)) :
    ∀ r : Registry, notes r (ds.map (Option.map bare)) = notes r ds := by
  induction ds with
  | nil => exact fun _ => rfl
  | cons d ds ih =>
    intro r
    cases d with
    | none => rw [List.map_cons, Option.map_none, notes, ih, notes]
    | some d => rw [List.map_cons, Option.map_some, notes, requests_bare, ih, notes]

end Job

namespace Setting

/-- The settings differ in nothing but C types and in options that are printed. -/
structure Akin (s s' : Setting) : Prop where
  forest : s.forest = s'.forest
  types : ∀ t, (s.types t).isSome = (s'.types t).isSome
  suffix : s.options.wrapperSuffix = s'.options.wrapperSuffix

namespace Akin

variable {s s' : Setting}

theorem qualifiedName (h : Akin s s') (n : Node) : s.qualifiedName n = s'.qualifiedName n := by
  rw [Setting.qualifiedName, h.forest]
  rfl

theorem className (h : Akin s s') (c : Node) :
    s.options.className c = s'.options.className c := by
  rw [Options.className, Options.classNameIf, h.suffix]
  rfl

theorem parentClass (h : Akin s s') (n : Node) : s.parentClass n = s'.parentClass n := by
  rw [Setting.parentClass, parentClass?, h.forest, h.qualifiedName]
  rfl

/-- The settings map the same types, to C types that may differ. -/
theorem cType (h : Akin s s') (n : Node) (type : String) :
    Agree (fun _ _ => True) (s.cType n type) (s'.cType n type) := by
  have htype := h.types type
  unfold Setting.cType
  rw [h.qualifiedName]
  -- a type that one setting maps and the other does not is against `h.types`
  cases hs : s.types type with
  | none =>
    rw [hs] at htype
    cases hs' : s'.types type with
    | none => exact .refused _
    | some c' =>
      rw [hs'] at htype
      cases htype
  | some c =>
    rw [hs] at htype
    cases hs' : s'.types type with
    | none =>
      rw [hs'] at htype
      cases htype
    | some c' => exact .ok trivial

theorem cParams (h : Akin s s') (n : Node) (params : List Parameter) :
    Agree (fun _ _ => True) (s.cParams n params) (s'.cParams n params) :=
  (Agree.mapM (fun p : Parameter => h.cType n p.type) params).bind fun _ _ _ => .ok trivial

theorem draftFunction (h : Akin s s') (n : Node) (f : Signature) :
    Agree (·.bare = ·.bare) (s.draftFunction n f) (s'.draftFunction n f) := by
  refine (h.cType n f.returns).bind fun returnType returnType' _ => ?_
  refine (h.cParams n f.params).bind fun params params' _ => .ok ?_
  rw [h.qualifiedName]
  rfl

theorem draftMethod (h : Akin s s') (n : Node) (m : Method) :
    Agree (fun d d' => d.map Draft.bare = d'.map Draft.bare)
      (s.draftMethod n m) (s'.draftMethod n m) := by
  rw [Setting.draftMethod, Setting.draftMethod, h.parentClass]
  by_cases hrole : m.role ≠ .ordinary
  · rw [if_pos hrole, if_pos hrole]
    exact .ok rfl
  · rw [if_neg hrole, if_neg hrole]
    -- both look at the same class, so only what types are mapped to can differ behind it
    cases s'.parentClass n with
    | error r => exact .refused r
    | ok c =>
      refine (h.cType n m.returns).bind fun returnType returnType' _ => ?_
      refine (h.cParams n m.params).bind fun params params' _ => .ok ?_
      rw [h.qualifiedName, h.className]
      rfl

theorem draftField (h : Akin s s') (n : Node) (type : String) :
    Agree (·.bare = ·.bare) (s.draftField n type) (s'.draftField n type) := by
  rw [Setting.draftField, Setting.draftField, h.parentClass]
  cases s'.parentClass n with
  | error r => exact .refused r
  | ok c =>
    refine (h.cType n type).bind fun cType cType' _ => .ok ?_
    rw [h.qualifiedName]
    rfl

theorem draft (h : Akin s s') (n : Node) :
    Agree (fun d d' => d.map Draft.bare = d'.map Draft.bare) (s.draft n) (s'.draft n) := by
  unfold Setting.draft
  cases n.decl with
  | freeFunction f => exact (h.draftFunction n f).map fun _ _ hd => congrArg some hd
  | memberFunction m => exact h.draftMethod n m
  | memberVariable type => exact (h.draftField n type).map fun _ _ hd => congrArg some hd
  | nameSpace | classType _ | other => exact .ok rfl

theorem job (h : Akin s s') (n : Node) :
    Agree (fun d d' => d.map Job.bare = d'.map Job.bare) (s.job n) (s'.job n) := by
  unfold Setting.job
  cases ExportKind.ofDeclaration? n.decl with
  | none => exact .ok rfl
  | some kind =>
    by_cases haccess : n.access = .ownClass
    · simp only [if_pos haccess]
      exact .ok rfl
    · simp only [if_neg haccess, h.qualifiedName]
      refine (h.draft n).map fun d d' hd => ?_
      have hjob := congrArg
        (Option.map fun draft => ({ entity := s'.qualifiedName n, kind, draft } : Job)) hd
      rw [Option.map_map, Option.map_map] at hjob ⊢
      exact hjob

theorem jobs (h : Akin s s') :
    Agree (fun ds ds' => ds.map (Option.map Job.bare) = ds'.map (Option.map Job.bare))
      s.jobs s'.jobs := by
  rw [Setting.jobs, Setting.jobs, h.forest]
  refine (Agree.mapM h.job s'.forest.nodes.toList).imp fun ds ds' hds => ?_
  rwa [← List.forall₂_eq_eq_eq, List.forall₂_map_left_iff, List.forall₂_map_right_iff]

/-- Jobs that differ in printed texts only have the same exports and records. -/
theorem output (h : Akin s s') {ds ds' : List (Option Job)}
    (hds : ds.map (Option.map Job.bare) = ds'.map (Option.map Job.bare)) :
    (s.output ds).exports = (s'.output ds').exports ∧
      (s.output ds).records = (s'.output ds').records := by
  constructor
  · show Job.exports {} ds.reduceOption = Job.exports {} ds'.reduceOption
    rw [← Job.exports_bare, ← List.reduceOption_map, hds, List.reduceOption_map,
      Job.exports_bare]
  · have hnotes : Job.notes {} ds = Job.notes {} ds' := by
      rw [← Job.notes_bare, hds, Job.notes_bare]
    rw [Setting.output, Setting.output, Job.records, Job.records, hnotes, h.forest]

end Akin

end Setting

/-- **Presentation.**  Two walks over the same entities are both refused, for the same reason, or
have the same exports and the same records, whatever the C types are and however wrappers are
printed.  All that counts is which types have C types, and the suffix of classes that stand in. -/
theorem generate_presentation (es : List Entity) {types types' : String → Option String}
    {options options' : Options} (htypes : ∀ t, (types t).isSome = (types' t).isSome)
    (hsuffix : options.wrapperSuffix = options'.wrapperSuffix) :
    (∃ r, generate (.ofEntities es types options) = .error r ∧
      generate (.ofEntities es types' options') = .error r) ∨
    ∃ out out', generate (.ofEntities es types options) = .ok out ∧
      generate (.ofEntities es types' options') = .ok out' ∧
      out.exports = out'.exports ∧ out.records = out'.records := by
  have hakin : (Setting.ofEntities es types options).Akin (.ofEntities es types' options') :=
    ⟨rfl, htypes, hsuffix⟩
  rw [generate_eq_jobs, generate_eq_jobs]
  refine Agree.outcomes (R := fun out out' : Output =>
    out.exports = out'.exports ∧ out.records = out'.records) ?_
  exact hakin.jobs.map fun ds ds' hds => hakin.output hds

/-- Options that have nothing but the suffix in common with the default ones. -/
def Options.elsewhere : Options :=
  { outputDir := "/out", outputFile := "Api.c", preamble := ["#include <View.h>"]
    exportMacro := some "API", toForeign := "Out", fromForeign := "In", getterHead := "get_"
    setterHead := "set_", overrideStyle := .slot, overrideTable := "table", indent := "" }

theorem generate_presentation_elsewhere :
    let types := fun t => if t = "Cache" then none else some t
    let types' := fun t => if t = "Cache" then none else some "void*"
    (∀ t, (types t).isSome = (types' t).isSome) ∧
      ∃ out out', generate (.ofEntities Entity.gallery types {}) = .ok out ∧
        generate (.ofEntities Entity.gallery types' .elsewhere) = .ok out' ∧
        out.exports = out'.exports ∧ out.records = out'.records ∧
        out.source ≠ out'.source ∧
        out'.exports.flatMap (·.symbols) =
          ["ui_Shape_Draw", "set_ShapeEx_fnDraw", "get_ui_Shape_radius", "set_ui_Shape_radius",
            "ui_Add", "ui_Add0"] := by
  intro types types'
  have htypes : ∀ t, (types t).isSome = (types' t).isSome := by
    intro t
    by_cases h : t = "Cache" <;> simp [types, types', h]
  have hrun : (generate (.ofEntities Entity.gallery types {})).toOption.map
      (fun out => out.exports.flatMap (·.symbols)) =
        some ["ui_Shape_Draw", "set_ShapeEx_fnDraw", "get_ui_Shape_radius",
          "set_ui_Shape_radius", "ui_Add", "ui_Add0"] := by decide +kernel
  have hsource : (generate (.ofEntities Entity.gallery types {})).toOption.map (·.source) ≠
      (generate (.ofEntities Entity.gallery types' .elsewhere)).toOption.map (·.source) := by
    decide +kernel
  obtain ⟨out, hout, hsymbols⟩ := exists_ok_of_toOption hrun
  have hsuffix : ({} : Options).wrapperSuffix = Options.elsewhere.wrapperSuffix := rfl
  rcases generate_presentation Entity.gallery htypes hsuffix with
    ⟨r, hr, -⟩ | ⟨a, out', ha, hout', hexports, hrecords⟩
  · rw [hout] at hr
    cases hr
  · rw [hout] at ha
    cases ha
    rw [hout, hout'] at hsource
    refine ⟨htypes, out, out', hout, hout', hexports, hrecords, ?_, hexports ▸ hsymbols⟩
    exact fun h => hsource (congrArg some h)

end FlatApi
