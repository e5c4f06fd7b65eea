import FlatApi.Proofs.Agreement
import FlatApi.Proofs.Parameters

/-!
# Signatures and calls

The parameters of a wrapper and the arguments of the call in its body are made apart from each
other, the first from C types and names, the second from names alone.

* They agree nevertheless (`Wrapper.Forwards`): a wrapper takes one parameter for each that is
  declared, and hands on exactly those that it takes, in their order, to the native name of what is
  called (`wraps_of_draft`).  The symbol of the wrapper has no part in the call.
* The accessors of a field use one C type and reach the field in one way (`Setting.Accesses`).
* All wrappers of members of one class begin with the same instance, whatever was emitted before
  (`Setting.Wraps.head?_params`).  Its type may as well be read off the record of the class, which
  is there by then (`instanceParam_eq_recorded`).
-/

namespace FlatApi

open Forest (Node)

/-! ## What wrappers are to do -/

namespace Options

/-- A call that hands on these parameters, each converted. -/
def callText (o : Options) (callee : String) (params : List Param) : String :=
  callee ++ "(" ++ ", ".intercalate (params.map fun p => o.inbound p.name) ++ ")"

/-- The instance that wrappers of members of a class take first. -/
def instanceParam (o : Options) (c : Node) : Param :=
  { cType := (if c.decl = .classType true then c.name ++ o.wrapperSuffix else c.name) ++ "*"
    name := "cls" }

theorem ofInstance_className (o : Options) (c : Node) :
    Param.ofInstance (o.className c) = o.instanceParam c := by
  simp only [Param.ofInstance, className, classNameIf, instanceParam, Declaration.hasWrapper_iff]

end Options

/-- The wrapper calls a function with this signature under the name `callee`: the parameters have
the C types of the declared ones, and the call hands on what is called as they are. -/
structure Wrapper.Forwards (s : Setting) (f : Signature) (callee : String) (params : List Param)
    (w : Wrapper) : Prop where
  returnType : s.types f.returns = some w.returnType
  cTypes : List.Forall₂ (fun p q => s.types p.type = some q.cType) f.params params
  names : params.map (·.name) = Parameter.names f.params
  body : w.body = [s.options.callStatement f.returns (s.options.callText callee params)]

/-- A field of a class is read and written with one C type, and in one way: through the accessors of
the class if the field is protected, and directly if not. -/
structure Setting.Accesses (s : Setting) (n c : Node) (type : String) (getter setter : Wrapper) :
    Prop where
  cType : s.types type = some getter.returnType
  getterParams : getter.params = [s.options.instanceParam c]
  setterParams : setter.params =
    [s.options.instanceParam c, { cType := getter.returnType, name := "value" }]
  bodies : (getter.body, setter.body) =
    if n.access = .subclasses then
      (["return " ++ s.options.outbound ("cls->" ++ s.options.getterHead ++ n.name ++ "()") ++ ";"],
        ["cls->" ++ s.options.setterHead ++ n.name ++ "(" ++ s.options.inbound "value" ++ ");"])
    else
      (["return " ++ s.options.outbound ("cls->" ++ n.name) ++ ";"],
        ["cls->" ++ n.name ++ " = " ++ s.options.inbound "value" ++ ";"])

/-- What the wrappers of a node are to be.  A method is called by its own name on the instance that
comes first, and only a virtual one has a setter behind its wrapper. -/
def Setting.Wraps (s : Setting) (n : Node) (ws : List Wrapper) : Prop :=
  match n.decl with
  | .freeFunction f => ∃ w, ws = [w] ∧ w.Forwards s f (s.qualifiedName n) w.params
  | .memberFunction m =>
    if m.role = .ordinary then
      ∃ c w params setters, s.parentClass? n = some c ∧ ws = w :: setters ∧
        w.params = s.options.instanceParam c :: params ∧
        w.Forwards s m.toSignature ("cls->" ++ n.name) params ∧
        setters.length = (if m.isVirtual then 1 else 0) ∧
        ∀ v ∈ setters,
          v.params = [s.options.instanceParam c, { cType := "void*", name := "fn" }]
    else ws = []
  | .memberVariable type =>
    ∃ c getter setter, s.parentClass? n = some c ∧ ws = [getter, setter] ∧
      s.Accesses n c type getter setter
  | .nameSpace | .classType _ | .other => ws = []

/-! ## Wrappers of drafts -/

section Drafts

variable {s : Setting} {n : Node}

/-- The parameters of a wrapper have the C types of the declared ones, one for one. -/
theorem cTypes_of_cParams {ps : List Parameter} {params : List Param}
    (h : s.cParams n ps = .ok params) :
    List.Forall₂ (fun p q => s.types p.type = some q.cType) ps params := by
  obtain ⟨types, htypes, heq⟩ := bind_eq_ok.mp h
  cases heq
  have hmapped := mapM_eq_ok.mp htypes
  have hlength : types.length ≤ (Parameter.names ps).length := by
    rw [← hmapped.length_eq, Parameter.names, List.length_mapIdx]
  have hcTypes : (types.zipWith (fun cType name => ({ cType, name } : Param))
      (Parameter.names ps)).map (·.cType) = types := by
    rw [← List.map_uncurry_zip_eq_zipWith, List.map_map]
    exact List.map_fst_zip hlength
  rw [← List.forall₂_map_right_iff (R := fun (p : Parameter) c => s.types p.type = some c),
    hcTypes]
  exact hmapped.imp fun p c hc => Setting.cType_eq_ok.mp hc

/-- The arguments of the call are the parameters of the wrapper, though they are not made from
them. -/
theorem callText_of_cParams {ps : List Parameter} {params : List Param}
    (h : s.cParams n ps = .ok params) (callee : String) :
    callee ++ "(" ++ s.options.arguments ps ++ ")" = s.options.callText callee params := by
  have hinbound : (Parameter.names ps).map s.options.inbound =
      params.map fun p => s.options.inbound p.name := by
    rw [← names_of_cParams h, List.map_map]
    rfl
  rw [Options.callText, ← hinbound]
  rfl

/-- The wrapper of a draft whose parts are made from a signature forwards. -/
theorem forwards_of_call {d : CallDraft} {f : Signature} {params : List Param} {callee : String}
    (hreturn : s.types f.returns = some d.returnType) (hparams : s.cParams n f.params = .ok params)
    (hstatement : d.statement =
      s.options.callStatement f.returns (callee ++ "(" ++ s.options.arguments f.params ++ ")"))
    (symbol : String) : (d.wrapper symbol).Forwards s f callee params where
  returnType := hreturn
  cTypes := cTypes_of_cParams hparams
  names := names_of_cParams hparams
  body := by rw [CallDraft.wrapper, hstatement, callText_of_cParams hparams]

theorem wraps_of_function {f : Signature} {d : Draft} (hdecl : n.decl = .freeFunction f)
    (h : s.draftFunction n f = .ok d) (r : Symbol.Registry) :
    s.Wraps n (d.settle s.options r).2.1 := by
  obtain ⟨returnType, params, hreturn, hparams, rfl⟩ := Setting.draftFunction_ok h
  simp only [Setting.Wraps, hdecl]
  refine ⟨CallDraft.wrapper _ _, rfl, forwards_of_call hreturn hparams ?_ _⟩
  dsimp only

theorem wraps_of_method {m : Method} {d : Draft} (hdecl : n.decl = .memberFunction m)
    (hrole : m.role = .ordinary) (h : s.draftMethod n m = .ok (some d)) (r : Symbol.Registry) :
    s.Wraps n (d.settle s.options r).2.1 := by
  obtain ⟨c, returnType, params, hc, hreturn, hparams, hd⟩ := Setting.draftMethod_ok hrole h
  cases hd
  simp only [Setting.Wraps, hdecl, if_pos hrole, Options.ofInstance_className]
  -- the setter is the only difference that it makes for the wrappers whether the method is virtual
  cases hvirtual : m.isVirtual with
  | false =>
    refine ⟨c, CallDraft.wrapper _ _, params, [], hc, rfl, rfl,
      forwards_of_call hreturn hparams ?_ _, rfl, List.forall_mem_nil _⟩
    dsimp only
  | true =>
    refine ⟨c, CallDraft.wrapper _ _, params, [CallDraft.overrideSetter _ _ _ _ _], hc, rfl, rfl,
      forwards_of_call hreturn hparams ?_ _, rfl, ?_⟩
    · dsimp only
    · intro v hv
      rw [List.mem_singleton.mp hv, CallDraft.overrideSetter, Options.ofInstance_className]

theorem wraps_of_field {type : String} {d : Draft} (hdecl : n.decl = .memberVariable type)
    (h : s.draftField n type = .ok d) (r : Symbol.Registry) :
    s.Wraps n (d.settle s.options r).2.1 := by
  obtain ⟨c, cType, hc, htype, f, rfl, -, hclass, rfl, hbodies⟩ := Setting.draftField_ok h
  simp only [Setting.Wraps, hdecl]
  refine ⟨c, _, _, hc, rfl, ?_⟩
  constructor
  case cType => exact htype
  case getterParams => rw [FieldDraft.getter, hclass, Options.ofInstance_className]
  case setterParams => rw [FieldDraft.setter, hclass, Options.ofInstance_className]; rfl
  case bodies =>
    by_cases haccess : n.access = .subclasses
    · rw [if_pos haccess] at hbodies ⊢
      obtain ⟨hread, hwrite⟩ := Prod.mk.inj hbodies
      rw [FieldDraft.getter, FieldDraft.setter, hread, hwrite]
    · rw [if_neg haccess] at hbodies ⊢
      obtain ⟨hread, hwrite⟩ := Prod.mk.inj hbodies
      rw [FieldDraft.getter, FieldDraft.setter, hread, hwrite]

theorem wraps_of_draft {d : Draft} (h : s.draft n = .ok (some d)) (r : Symbol.Registry) :
    s.Wraps n (d.settle s.options r).2.1 := by
  rcases Setting.draft_ok_some h with ⟨f, hdecl, hd⟩ | ⟨m, hdecl, hrole, hd⟩ | ⟨type, hdecl, hd⟩
  · exact wraps_of_function hdecl hd r
  · exact wraps_of_method hdecl hrole hd r
  · exact wraps_of_field hdecl hd r

theorem wraps_of_not_exportable (h : n.decl.isExportable = false) : s.Wraps n [] := by
  unfold Setting.Wraps
  cases hdecl : n.decl with
  | memberFunction m =>
    rw [hdecl] at h
    exact (if_neg (of_decide_eq_false h)).mpr rfl
  | freeFunction f | memberVariable type =>
    rw [hdecl] at h
    cases h
  | nameSpace | classType _ | other => rfl

/-- Whatever was emitted before, the wrappers of a node are what they are to be. -/
theorem wraps_of_emit {l l' : Ledger} {ws : List Wrapper} (h : l.emit s n = (.ok ws, l')) :
    s.Wraps n ws := by
  cases hd : s.draft n with
  | error r =>
    rw [Pass.emit_of_error l hd] at h
    cases h
  | ok d =>
    cases d with
    | none =>
      rw [Pass.emit_of_none l hd] at h
      cases h
      exact wraps_of_not_exportable (Setting.draft_ok_none_iff.mp hd)
    | some d =>
      rw [Pass.emit_of_some l hd] at h
      obtain ⟨hws, -⟩ := Prod.mk.inj h
      cases hws
      exact wraps_of_draft hd l.names

end Drafts

/-! ## The instance that members take -/

section Instances

variable {s : Setting} {n c : Node}

/-- All wrappers of a member begin with the instance of its class, setters included. -/
theorem Setting.Wraps.head?_params {ws : List Wrapper} (h : s.Wraps n ws)
    (hmember : n.decl.isMember = true) (hc : s.parentClass? n = some c) :
    ∀ w ∈ ws, w.params.head? = some (s.options.instanceParam c) := by
  intro w hw
  unfold Setting.Wraps at h
  cases hdecl : n.decl with
  | memberFunction m =>
    simp only [hdecl] at h
    by_cases hrole : m.role = .ordinary
    · rw [if_pos hrole] at h
      obtain ⟨c', first, params, setters, hc', rfl, hparams, -, -, hsetters⟩ := h
      rw [hc] at hc'
      cases hc'
      rcases List.mem_cons.mp hw with rfl | hw
      · rw [hparams, List.head?_cons]
      · rw [hsetters w hw, List.head?_cons]
    · rw [if_neg hrole] at h
      rw [h] at hw
      cases hw
  | memberVariable type =>
    simp only [hdecl] at h
    obtain ⟨c', getter, setter, hc', rfl, haccesses⟩ := h
    rw [hc] at hc'
    cases hc'
    rcases List.mem_cons.mp hw with rfl | hw
    · rw [haccesses.getterParams, List.head?_cons]
    · rw [List.mem_singleton.mp hw, haccesses.setterParams, List.head?_cons]
  | freeFunction f | nameSpace | classType _ | other =>
    rw [hdecl] at hmember
    cases hmember

theorem node?_of_parent? (hs : s.forest.Numbered) (h : s.forest.parent? n = some c) :
    s.forest.node? c.id = some c := by
  obtain ⟨i, -, hi⟩ := Option.bind_eq_some_iff.mp h
  rwa [hs.id_eq hi]

/-- When a member was emitted, or refused, its class has a record, by which it is called. -/
theorem exists_record_of_emit (l : Ledger) (hc : s.classLookedUp? n = some c) :
    ∃ x, (l.emit s n).2.records.get? c.id = some x ∧
      (l.className s c).1 = s.options.classNameIf x.hasWrapper c := by
  have htouched : l.touchClass s n = (l.className s c).2 := by
    rw [Ledger.touchClass, hc]
    rfl
  have hclass : (l.className s c).2.records.get? c.id =
      some ((l.records.get? c.id).getD (.ofNode c)) := by
    show (l.records.touch c).get? c.id = _
    rw [Records.get?_touch, if_pos rfl]
  have hname : (l.className s c).1 =
      s.options.classNameIf (((l.className s c).2.records.get? c.id).any (·.hasWrapper)) c := rfl
  rw [hclass, Option.any_some] at hname
  cases hd : s.draft n with
  | error r =>
    rw [Pass.emit_of_error l hd, htouched]
    exact ⟨_, hclass, hname⟩
  | ok d =>
    cases d with
    | none =>
      rw [Pass.emit_of_none l hd, htouched]
      exact ⟨_, hclass, hname⟩
    | some d =>
      -- the node itself may have the number of the class, as far as is known here
      rw [Pass.emit_of_some l hd, htouched, Records.get?_setName]
      split
      · next hid =>
        rw [← hid, hclass]
        exact ⟨_, rfl, hname⟩
      · exact ⟨_, hclass, hname⟩

/-- The record of a class gives the type of its instances, and it is there when it is needed. -/
theorem instanceParam_eq_recorded (hs : s.forest.Numbered) {l : Ledger}
    (hl : Pass.Flagged s.forest l.records) (hc : s.classLookedUp? n = some c) :
    ∃ x, (l.emit s n).2.records.get? c.id = some x ∧
      (s.options.instanceParam c).cType =
        (if x.hasWrapper then c.name ++ s.options.wrapperSuffix else c.name) ++ "*" := by
  obtain ⟨x, hx, hname⟩ := exists_record_of_emit l hc
  have hparent : s.forest.parent? n = some c :=
    (Option.filter_eq_some_iff.mp (Setting.parentClass?_of_classLookedUp? hc)).1
  rw [Ledger.className_eq_declared hl (node?_of_parent? hs hparent)] at hname
  refine ⟨x, hx, ?_⟩
  rw [← Options.ofInstance_className, Param.ofInstance, hname]
  rfl

end Instances

/-- **Signatures and calls agree**, whatever was emitted before.  A wrapper hands on the parameters
that it takes to the native name of what it wraps, the accessors of a field agree, and members of
one class take one instance, whose type the record of the class gives as well.  The text of an
artifact is made of such wrappers. -/
theorem signatures_and_calls_agree (es : List Entity) (types : String → Option String)
    (options : Options) :
    let s := Setting.ofEntities es types options
    (∀ (l l' : Ledger) n ws, l.emit s n = (.ok ws, l') → s.Wraps n ws ∧
      ∀ c, n.decl.isMember = true → s.parentClass? n = some c →
        ∀ w ∈ ws, w.params.head? = some (options.instanceParam c)) ∧
    (∀ steps : List Ledger.Step, (∀ t ∈ steps, t.Within s.forest) →
      ∀ n c, s.forest.node? n.id = some n → s.classLookedUp? n = some c →
        ∃ x, ((Ledger.reach s {} steps).emit s n).2.records.get? c.id = some x ∧
          (options.instanceParam c).cType =
            (if x.hasWrapper then c.name ++ options.wrapperSuffix else c.name) ++ "*") ∧
    ∀ out, generate s = .ok out → ∃ made, List.Forall₂ s.Wraps (Entity.exported es) made ∧
      out.source = options.sourceText made.flatten := by
  intro s
  have hs : s.forest.Numbered := Forest.numbered_ofEntities es
  refine ⟨fun l l' n ws h => ?_, fun steps hwithin n c hn hc => ?_, fun out hout => ?_⟩
  · have hwraps := wraps_of_emit h
    exact ⟨hwraps, fun c hmember hc => hwraps.head?_params hmember hc⟩
  · have hflagged := Ledger.flagged_reach hs steps {} hwithin (Pass.flagged_empty _)
    exact instanceParam_eq_recorded hs hflagged hc
  · obtain ⟨turns, hturns⟩ := exists_turns hout
    refine ⟨turns.map (·.wrappers options), ?_, ?_⟩
    · apply hturns.forall₂_exported
      intro t ht
      exact wraps_of_draft (Turn.draft_of_job (hturns.job t ht)) t.names
    · rw [source_eq_sourceText hturns, List.flatMap_def]
      rfl

/-- Overloads of a virtual method, with parameters of which one has no name, and a field that only
subclasses see. -/
def Entity.pen : List Entity :=
  [{ name := "Pen", decl := .classType true, children :=
      [{ name := "Draw", decl := .memberFunction { isVirtual := true } },
        { name := "Draw", decl := .memberFunction
            { returns := "int", isVirtual := true, params :=
                [{ name := "to", type := "View &" }, { type := "float" }] } },
        { name := "width", decl := .memberVariable "float", access := .subclasses }] }]

theorem signatures_and_calls_agree_pen :
    let types := fun t => if t = "View &" then some "View*" else some t
    let s := Setting.ofEntities Entity.pen types {}
    let m : Method := { returns := "int", isVirtual := true, params :=
      [{ name := "to", type := "View &" }, { type := "float" }] }
    let pen : Node :=
      { id := 0, name := "Pen", decl := .classType true, access := .anyone, parent := none,
        children := [1, 2, 3] }
    let draw (id : Nat) (m : Method) : Node :=
      { id, name := "Draw", decl := .memberFunction m, access := .anyone, parent := some 0,
        children := [] }
    let l := Ledger.reach s {} [.emit (draw 1 { isVirtual := true })]
    let call : Wrapper :=
      { returnType := "int", name := "Pen_Draw0", params :=
          [{ cType := "PenEx*", name := "cls" }, { cType := "View*", name := "to" },
            { cType := "float", name := "arg1" }],
        body := ["return ToForeign(cls->Draw(FromForeign(to), FromForeign(arg1)));"] }
    let setter : Wrapper :=
      { returnType := "void", name := "set_PenEx_fnDraw0", params :=
          [{ cType := "PenEx*", name := "cls" }, { cType := "void*", name := "fn" }],
        body := ["cls->__overrides[\"Pen_Draw0\"] = fn;"] }
    (l.emit s (draw 2 m)).1 = .ok [call, setter] ∧ s.Wraps (draw 2 m) [call, setter] ∧
      (∀ w ∈ [call, setter], w.params.head? = some (({} : Options).instanceParam pen)) ∧
      (∃ x, (l.emit s (draw 2 m)).2.records.get? 0 = some x ∧
        "PenEx*" = (if x.hasWrapper then "Pen" ++ "Ex" else "Pen") ++ "*") ∧
      ∃ out made, generate s = .ok out ∧
        List.Forall₂ s.Wraps (Entity.exported Entity.pen) made ∧
        out.source = ({} : Options).sourceText made.flatten := by
  intro types s m pen draw l call setter
  have hemit : (l.emit s (draw 2 m)).1 = .ok [call, setter] := by decide +kernel
  have hpair : l.emit s (draw 2 m) = (.ok [call, setter], (l.emit s (draw 2 m)).2) := by
    rw [← hemit]
  have hpen : s.parentClass? (draw 2 m) = some pen := by decide +kernel
  obtain ⟨hwrappers, hrecords, hsource⟩ := signatures_and_calls_agree Entity.pen types {}
  obtain ⟨hwraps, hinstance⟩ := hwrappers l _ (draw 2 m) _ hpair
  have hwithin : ∀ t ∈ [Ledger.Step.emit (draw 1 { isVirtual := true })], t.Within s.forest := by
    intro t ht
    rw [List.mem_singleton.mp ht]
    show s.forest.node? 1 = _
    decide +kernel
  have hnode : s.forest.node? 2 = some (draw 2 m) := by decide +kernel
  have hlooked : s.classLookedUp? (draw 2 m) = some pen := by decide +kernel
  have hcType : (({} : Options).instanceParam pen).cType = "PenEx*" := by decide +kernel
  obtain ⟨x, hx, hflag⟩ := hrecords _ hwithin (draw 2 m) pen hnode hlooked
  rw [hcType] at hflag
  obtain ⟨out, hout⟩ : ∃ out, generate s = .ok out := by
    have hrun : (generate s).toOption.map (fun _ => ()) = some () := by decide +kernel
    obtain ⟨out, hout, -⟩ := exists_ok_of_toOption hrun
    exact ⟨out, hout⟩
  obtain ⟨made, hmade, htext⟩ := hsource out hout
  have hfirst := hinstance pen rfl hpen
  exact ⟨hemit, hwraps, hfirst, ⟨x, hx, hflag⟩, out, made, hout, hmade, htext⟩

end FlatApi
