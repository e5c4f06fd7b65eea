import FlatApi.Proofs.Artifact

/-!
# Names of the parameters of wrappers

A wrapper takes the parameters of its function under the names that are written.  Other names are
added: a parameter without a name is numbered, and the instance of a method comes first as `cls`.

Nothing keeps added names away from written ones.  The names in a wrapper are all different exactly
if the written ones are and none of them is also added (`params_nodup_iff`); the numbered ones never
clash with each other or with `cls`.  `clashing_params` has a function and a method whose written
names are all different and whose wrappers have two parameters of one name.
-/

namespace FlatApi

open Forest (Node)

/-! ## Written and added names -/

namespace Parameter

/-- The names that are written. -/
def writtenNames (params : List Parameter) : List String :=
  (params.filter fun p => !p.name.isEmpty).map (·.name)

/-- The names by position, for the parameters that are written without one. -/
def givenNames (params : List Parameter) : List String :=
  (params.zipIdx.filter fun r => r.1.name.isEmpty).map fun r => s!"arg{r.2}"

theorem arg_injective {i j : Nat} (h : s!"arg{i}" = s!"arg{j}") : i = j := by
  have hnumber : toString i = toString j := (String.append_right_inj "arg").mp h
  exact Symbol.Registry.toString_injective hnumber

theorem arg_ne_cls (i : Nat) : s!"arg{i}" ≠ "cls" := by
  intro h
  have hchars := congrArg String.toList h
  have hfront : (s!"arg{i}").toList = 'a' :: 'r' :: 'g' :: (toString i).toList := by
    rw [String.toList_append]
    rfl
  rw [hfront] at hchars
  exact absurd (List.head_eq_of_cons_eq hchars) (by decide)

section Names

variable (params : List Parameter)

theorem nodup_givenNames : (givenNames params).Nodup := by
  have hplaces : (params.zipIdx.map (·.2)).Nodup := by
    rw [List.zipIdx_map_snd]
    exact List.nodup_range'
  have hgiven : ((params.zipIdx.filter fun r => r.1.name.isEmpty).map (·.2)).Nodup :=
    hplaces.sublist (List.filter_sublist.map _)
  have hargs : givenNames params =
      ((params.zipIdx.filter fun r => r.1.name.isEmpty).map (·.2)).map fun i => s!"arg{i}" := by
    rw [List.map_map]
    rfl
  rw [hargs]
  exact hgiven.map fun _ _ => arg_injective

/-- The names of all parameters are the written ones and the given ones, in some order. -/
theorem names_perm : (names params).Perm (writtenNames params ++ givenNames params) := by
  have hnames : names params = params.zipIdx.map fun r => r.1.nameAt r.2 :=
    List.mapIdx_eq_zipIdx_map
  have hgiven : ((params.zipIdx.filter fun r => r.1.name.isEmpty).map fun r => r.1.nameAt r.2) =
      givenNames params := by
    apply List.map_congr_left
    intro r hr
    rw [nameAt, if_pos (List.of_mem_filter hr)]
  have hwritten : ((params.zipIdx.filter fun r => !r.1.name.isEmpty).map fun r =>
      r.1.nameAt r.2) = writtenNames params := by
    have hplain : ((params.zipIdx.filter fun r => !r.1.name.isEmpty).map fun r =>
        r.1.nameAt r.2) =
          ((params.zipIdx.filter fun r => !r.1.name.isEmpty).map (·.1)).map (·.name) := by
      rw [List.map_map]
      apply List.map_congr_left
      intro r hr
      have hname : ¬ r.1.name.isEmpty = true := by simpa using List.of_mem_filter hr
      rw [nameAt, if_neg hname]
      rfl
    have hfirst : (params.zipIdx.filter fun r => !r.1.name.isEmpty).map (·.1) =
        params.filter fun p => !p.name.isEmpty := by
      have hfirst := List.zipIdx_map_fst 0 params
      conv_rhs => rw [← hfirst, List.filter_map]
      rfl
    rw [hplain, hfirst]
    rfl
  rw [hnames, ← hgiven, ← hwritten, ← List.map_append]
  apply List.Perm.map
  have hsplit := List.filter_append_perm (fun r : Parameter × Nat => r.1.name.isEmpty)
    params.zipIdx
  exact hsplit.symm.trans List.perm_append_comm

/-- Names are different if the declared ones are, and none of them is given too. -/
theorem nodup_names_iff :
    (names params).Nodup ↔
      (writtenNames params).Nodup ∧ ∀ x ∈ writtenNames params, x ∉ givenNames params := by
  rw [(names_perm params).nodup_iff, List.nodup_append']
  constructor
  · rintro ⟨hwritten, -, happart⟩
    exact ⟨hwritten, fun _ hx => happart hx⟩
  · rintro ⟨hwritten, happart⟩
    exact ⟨hwritten, nodup_givenNames params, fun x hx => happart x hx⟩

end Names

end Parameter

namespace Declaration

def params : Declaration → List Parameter
  | .freeFunction f => f.params
  | .memberFunction m => m.params
  | .memberVariable _ | .nameSpace | .classType _ | .other => []

def writtenNames (d : Declaration) : List String := Parameter.writtenNames d.params

/-- The names that only wrappers have: those by position, and that of the instance. -/
def addedNames (d : Declaration) : List String :=
  let given := Parameter.givenNames d.params
  if d.isMember then "cls" :: given else given

end Declaration

/-! ## Names in wrappers -/

section Wrappers

variable {s : Setting} {n : Node}

/-- Mapping types does not change names. -/
theorem names_of_cParams {ps : List Parameter} {params : List Param}
    (h : s.cParams n ps = .ok params) : params.map (·.name) = Parameter.names ps := by
  obtain ⟨types, htypes, heq⟩ := bind_eq_ok.mp h
  cases heq
  have hlength : (Parameter.names ps).length ≤ types.length := by
    rw [← (mapM_eq_ok.mp htypes).length_eq, Parameter.names, List.length_mapIdx]
  rw [← List.map_uncurry_zip_eq_zipWith, List.map_map]
  exact List.map_snd_zip hlength

/-- The setter behind a virtual method takes the instance and the function. -/
theorem nodup_call_wrappers_iff (o : Options) (d : CallDraft) (r : Symbol.Registry) :
    (∀ w ∈ ((Draft.call d).settle o r).2.1, (w.params.map (·.name)).Nodup) ↔
      (d.params.map (·.name)).Nodup := by
  rw [Draft.settle, CallDraft.settle]
  cases d.overridable with
  | none => simp [CallDraft.wrapper]
  | some names => simp [CallDraft.wrapper, CallDraft.overrideSetter, Param.ofInstance]

/-- Accessors of fields never have two parameters of one name. -/
theorem nodup_field_wrappers (o : Options) (d : FieldDraft) (r : Symbol.Registry) :
    ∀ w ∈ ((Draft.field d).settle o r).2.1, (w.params.map (·.name)).Nodup := by
  intro w hw
  rcases List.mem_cons.mp hw with rfl | hw
  · exact List.nodup_singleton _
  · have hnames : (d.setter (r.choose d.base FieldDraft.heads)).params.map (·.name) =
        ["cls", "value"] := rfl
    rw [List.mem_singleton.mp hw, hnames]
    decide

/-- A parameter is called `cls` only if this is written. -/
theorem cls_mem_names_iff (ps : List Parameter) :
    "cls" ∈ Parameter.names ps ↔ "cls" ∈ Parameter.writtenNames ps := by
  rw [(Parameter.names_perm ps).mem_iff, List.mem_append]
  apply or_iff_left
  intro hgiven
  obtain ⟨r, -, hr⟩ := List.mem_map.mp hgiven
  exact Parameter.arg_ne_cls r.2 hr

theorem nodup_cls_names_iff (ps : List Parameter) :
    ("cls" :: Parameter.names ps).Nodup ↔
      (Parameter.writtenNames ps).Nodup ∧
        ∀ x ∈ Parameter.writtenNames ps, x ∉ "cls" :: Parameter.givenNames ps := by
  rw [List.nodup_cons, cls_mem_names_iff, Parameter.nodup_names_iff]
  constructor
  · rintro ⟨hcls, hwritten, happart⟩
    refine ⟨hwritten, fun x hx hadded => ?_⟩
    rcases List.mem_cons.mp hadded with rfl | hgiven
    · exact hcls hx
    · exact happart x hx hgiven
  · rintro ⟨hwritten, happart⟩
    refine ⟨fun hcls => happart _ hcls List.mem_cons_self, hwritten, fun x hx hgiven => ?_⟩
    exact happart x hx (List.mem_cons_of_mem _ hgiven)

/-- **The names in a wrapper are all different** exactly if the written ones are and no wrapper
adds one of them.  The wrappers may be made at any time, whatever was made before. -/
theorem params_nodup_iff {l l' : Ledger} {ws : List Wrapper} (hn : n.decl.isExportable = true)
    (h : l.emit s n = (.ok ws, l')) :
    (∀ w ∈ ws, (w.params.map (·.name)).Nodup) ↔
      n.decl.writtenNames.Nodup ∧ ∀ x ∈ n.decl.writtenNames, x ∉ n.decl.addedNames := by
  obtain ⟨d, hd⟩ : ∃ d, s.draft n = .ok (some d) := by
    cases hd : s.draft n with
    | error r =>
      rw [Pass.emit_of_error l hd] at h
      cases h
    | ok d =>
      cases d with
      | none =>
        rw [Setting.draft_ok_none_iff.mp hd] at hn
        cases hn
      | some d => exact ⟨d, rfl⟩
  rw [Pass.emit_of_some l hd] at h
  obtain ⟨hws, -⟩ := Prod.mk.inj h
  cases hws
  rcases Setting.draft_ok_some hd with ⟨f, hdecl, hd⟩ | ⟨m, hdecl, hrole, hd⟩ | ⟨type, hdecl, hd⟩
  · obtain ⟨_, params, -, hparams, rfl⟩ := Setting.draftFunction_ok hd
    rw [nodup_call_wrappers_iff, names_of_cParams hparams, hdecl]
    exact Parameter.nodup_names_iff f.params
  · obtain ⟨c, _, params, -, -, hparams, hd⟩ := Setting.draftMethod_ok hrole hd
    cases hd
    rw [nodup_call_wrappers_iff, List.map_cons, names_of_cParams hparams, hdecl]
    exact nodup_cls_names_iff m.params
  · -- A field has no parameters, and those of its wrappers are named in advance.
    obtain ⟨_, _, -, -, f, rfl, -⟩ := Setting.draftField_ok hd
    rw [hdecl]
    exact iff_of_true (nodup_field_wrappers s.options f l.names)
      ⟨List.nodup_nil, List.forall_mem_nil _⟩

end Wrappers

/-- Written names next to added ones: in the first function they miss each other, in the second one
and in the method they do not. -/
def Entity.unlucky : List Entity :=
  [{ name := "Mix", decl :=
      .freeFunction { params := [{ name := "arg2", type := "int" }, { type := "int" }] } },
    { name := "Lerp", decl :=
        .freeFunction { params := [{ name := "arg1", type := "int" }, { type := "int" }] } },
    { name := "Shape", decl := .classType false, children :=
      [{ name := "Copy", decl :=
          .memberFunction { params := [{ name := "cls", type := "int" }] } }] }]

theorem params_nodup_mix :
    let s := Setting.ofEntities Entity.unlucky TypeTable.builtins.lookup {}
    let mix : Node :=
      { id := 0, name := "Mix", decl :=
          .freeFunction { params := [{ name := "arg2", type := "int" }, { type := "int" }] },
        access := .anyone, parent := none, children := [] }
    let w : Wrapper :=
      { returnType := "void", name := "Mix", params :=
          [{ cType := "int", name := "arg2" }, { cType := "int", name := "arg1" }],
        body := ["Mix(FromForeign(arg2), FromForeign(arg1));"] }
    s.forest.node? 0 = some mix ∧ mix.decl.isExportable = true ∧
    (Ledger.emit s {} mix).1 = .ok [w] ∧ ∀ v ∈ [w], (v.params.map (·.name)).Nodup := by
  intro s mix w
  have hmix : s.forest.node? 0 = some mix := by decide
  have hemit : (Ledger.emit s {} mix).1 = .ok [w] := by decide +kernel
  have hpair : Ledger.emit s {} mix = (.ok [w], (Ledger.emit s {} mix).2) := by
    rw [← hemit]
  exact ⟨hmix, rfl, hemit, (params_nodup_iff rfl hpair).mpr (by decide)⟩

/-- All written names are different, and yet two wrappers have two parameters of one name: a number
clashes in one of them, the instance in the other. -/
theorem clashing_params :
    let s := Setting.ofEntities Entity.unlucky TypeTable.builtins.lookup {}
    (∀ n ∈ Entity.exported Entity.unlucky, n.decl.writtenNames.Nodup) ∧
    (Entity.exported Entity.unlucky).map (fun n =>
        (Ledger.emit s {} n).1.toOption.map (·.map fun w => w.params.map (·.name))) =
      [some [["arg2", "arg1"]], some [["arg1", "arg1"]], some [["cls", "cls"]]] ∧
    (generate s).toOption.map (·.source) = some ("\n".intercalate
      ["extern \"C\"", "\x7b", "", "void Mix(int arg2, int arg1)", "\x7b",
        "    Mix(FromForeign(arg2), FromForeign(arg1));", "\x7d", "",
        "void Lerp(int arg1, int arg1)", "\x7b",
        "    Lerp(FromForeign(arg1), FromForeign(arg1));", "\x7d", "",
        "void Shape_Copy(Shape* cls, int cls)", "\x7b",
        "    cls->Copy(FromForeign(cls));", "\x7d", "", "\x7d", ""]) := by
  decide +kernel

end FlatApi
