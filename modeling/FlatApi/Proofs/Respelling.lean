import FlatApi.Proofs.Faults
import FlatApi.Proofs.Jobs
import FlatApi.TypeTable

/-!
# Types in another spelling

White space in the spelling of a type never matters.  If every type of the entities and every
native type of the table is written in another way that has the same normal spelling, a walk has
the same output, or it is refused at the same node for the same reason
(`generate_respelled`); the refusal quotes the type as the node has it now.

A spelling is read twice: by the table, for the C type, and by the test for functions that return
nothing.  Both go by the normal spelling (`Spelling.isVoid_congr`, `TypeTable.lookup_congr`), and
so do insertions (`TypeTable.insertAll_congr`).  The rest of a node does not change when its types
are rewritten (`Outline.mapTypes`).
-/

namespace FlatApi

open Forest (Node)

/-! ## Rewriting types -/

def Parameter.mapType (f : String → String) (p : Parameter) : Parameter :=
  { p with type := f p.type }

def Signature.mapTypes (f : String → String) (s : Signature) : Signature :=
  { returns := f s.returns, params := s.params.map (·.mapType f) }

def Method.mapTypes (f : String → String) (m : Method) : Method :=
  { m with toSignature := m.toSignature.mapTypes f }

namespace Declaration

/-- A declaration with all its types rewritten. -/
def mapTypes (f : String → String) : Declaration → Declaration
  | .nameSpace => .nameSpace
  | .classType w => .classType w
  | .freeFunction s => .freeFunction (s.mapTypes f)
  | .memberFunction m => .memberFunction (m.mapTypes f)
  | .memberVariable type => .memberVariable (f type)
  | .other => .other

section Kept

variable (f : String → String) (d : Declaration)

theorem isScope_mapTypes : (d.mapTypes f).isScope = d.isScope := by cases d <;> rfl

theorem isClass_mapTypes : (d.mapTypes f).isClass = d.isClass := by cases d <;> rfl

theorem hasWrapper_mapTypes : (d.mapTypes f).hasWrapper = d.hasWrapper := by cases d <;> rfl

theorem isMember_mapTypes : (d.mapTypes f).isMember = d.isMember := by cases d <;> rfl

theorem isExportable_mapTypes : (d.mapTypes f).isExportable = d.isExportable := by
  cases d <;> rfl

theorem ofDeclaration?_mapTypes :
    ExportKind.ofDeclaration? (d.mapTypes f) = ExportKind.ofDeclaration? d := by
  cases d <;> rfl

theorem typesUsed_mapTypes : (d.mapTypes f).typesUsed = d.typesUsed.map f := by
  cases d <;> simp [mapTypes, typesUsed, Method.mapTypes, Signature.mapTypes, Parameter.mapType]

end Kept

end Declaration

namespace Entity

mutual

/-- An entity with all types in it rewritten. -/
def mapTypes (f : String → String) : Entity → Entity
  | ⟨name, decl, access, children⟩ => ⟨name, decl.mapTypes f, access, mapTypesAll f children⟩

def mapTypesAll (f : String → String) : List Entity → List Entity
  | [] => []
  | e :: es => mapTypes f e :: mapTypesAll f es

end

end Entity

/-! ## Outlines -/

namespace Level

def mapTypes (f : String → String) (l : Level) : Level := { l with decl := l.decl.mapTypes f }

theorem qualify_mapTypes (f : String → String) (around : List Level) (name : String) :
    qualify (around.map (·.mapTypes f)) name = qualify around name := by
  have hscope : isNamedScope ∘ (·.mapTypes f) = isNamedScope := by
    funext l
    exact congrArg (· && !l.name.isEmpty) (l.decl.isScope_mapTypes f)
  rw [qualify, qualify, List.filter_map, List.map_map, hscope]
  rfl

end Level

namespace Outline

/-- An outline with all types in it rewritten. -/
def mapTypes (f : String → String) (o : Outline) : Outline :=
  { o with decl := o.decl.mapTypes f, around := o.around.map (·.mapTypes f) }

variable (f : String → String) (o : Outline)

theorem qualifiedName_mapTypes : (o.mapTypes f).qualifiedName = o.qualifiedName :=
  Level.qualify_mapTypes f o.around o.name

theorem parent?_mapTypes :
    (o.mapTypes f).parent? = o.parent?.map fun p => (p.1.mapTypes f, p.2) := by
  obtain ⟨name, decl, access, around⟩ := o
  cases around with
  | nil => rfl
  | cons l outer => exact congrArg (fun q => some (l.mapTypes f, q)) (Level.qualify_mapTypes f _ _)

end Outline

namespace Entity

mutual

theorem outlines_mapTypes (f : String → String) (around : List Level) :
    ∀ e : Entity, outlines (around.map (·.mapTypes f)) (mapTypes f e) =
      (outlines around e).map (·.mapTypes f)
  | ⟨name, decl, access, children⟩ => by
    rw [mapTypes, outlines, outlines, List.map_cons,
      ← outlinesAll_mapTypes f (⟨name, decl⟩ :: around) children]
    rfl

theorem outlinesAll_mapTypes (f : String → String) (around : List Level) :
    ∀ es : List Entity, outlinesAll (around.map (·.mapTypes f)) (mapTypesAll f es) =
      (outlinesAll around es).map (·.mapTypes f)
  | [] => rfl
  | e :: es => by
    rw [mapTypesAll, outlinesAll, outlinesAll, List.map_append, outlines_mapTypes f around e,
      outlinesAll_mapTypes f around es]

end

end Entity

/-! ## Spellings with the same normal form -/

theorem Spelling.isVoid_congr {t t' : String} (h : normalize t = normalize t') :
    isVoid t = isVoid t' := by
  rw [isVoid, isVoid, h]

namespace TypeTable

variable (t : TypeTable)

theorem lookup_congr {a b : String} (h : Spelling.normalize a = Spelling.normalize b) :
    t.lookup a = t.lookup b := by
  rw [lookup, lookup, h]

/-- An entry to insert, with its native type in normal spelling. -/
def normalEntry (p : String × String) : String × String := (Spelling.normalize p.1, p.2)

/-- Insertion goes by the normal spelling. -/
theorem insert_congr {p p' : String × String} (h : normalEntry p = normalEntry p') :
    t.insert p.1 p.2 = t.insert p'.1 p'.2 := by
  obtain ⟨hnative, hcType⟩ := Prod.mk.inj h
  refine TypeTable.ext ?_
  show set (Spelling.normalize p.1) p.2 t.entries = set (Spelling.normalize p'.1) p'.2 t.entries
  rw [hnative, hcType]

/-- Insertions that differ in spelling make the same table. -/
theorem insertAll_congr {ps ps' : List (String × String)}
    (h : ps.map normalEntry = ps'.map normalEntry) : t.insertAll ps = t.insertAll ps' := by
  induction ps generalizing t ps' with
  | nil => rw [List.map_eq_nil_iff.mp h.symm]
  | cons p ps ih =>
    cases ps' with
    | nil => cases h
    | cons p' ps' =>
      obtain ⟨hfirst, hrest⟩ := List.cons.inj h
      show (t.insert p.1 p.2).insertAll ps = (t.insert p'.1 p'.2).insertAll ps'
      rw [insert_congr t hfirst]
      exact ih _ hrest

end TypeTable

/-! ## Rows that agree up to a function -/

section Rows

variable {α β γ : Type} {f : α → β} {xs ys : List α}

theorem map_eq_of_map_eq {g g' : α → γ} (hg : ∀ {x y : α}, f x = f y → g x = g' y)
    (h : xs.map f = ys.map f) : xs.map g = ys.map g' := by
  rw [← List.forall₂_eq_eq_eq, List.forall₂_map_left_iff, List.forall₂_map_right_iff] at h ⊢
  exact h.imp fun _ _ hxy => hg hxy

/-- A test that does not tell apart what `f` does not tell apart finds something at the same place
in both rows, or in none. -/
theorem find?_of_map_eq {p q : α → Bool} (hpq : ∀ {x y : α}, f x = f y → p x = q y)
    (h : xs.map f = ys.map f) :
    (xs.find? p = none ∧ ys.find? q = none) ∨
      ∃ (i : Nat) (x y : α), xs[i]? = some x ∧ ys[i]? = some y ∧ f x = f y ∧
        xs.find? p = some x ∧ ys.find? q = some y := by
  induction xs generalizing ys with
  | nil =>
    rw [List.map_eq_nil_iff.mp h.symm]
    exact Or.inl ⟨rfl, rfl⟩
  | cons x xs ih =>
    cases ys with
    | nil => cases h
    | cons y ys =>
      obtain ⟨hxy, hrest⟩ := List.cons.inj h
      rw [List.find?_cons, List.find?_cons, hpq hxy]
      cases q y with
      | true => exact Or.inr ⟨0, x, y, rfl, rfl, hxy, rfl, rfl⟩
      | false =>
        rcases ih hrest with hnone | ⟨i, x', y', hx, hy, hxy', hfx, hfy⟩
        · exact Or.inl hnone
        · exact Or.inr ⟨i + 1, x', y', hx, hy, hxy', hfx, hfy⟩

end Rows

/-! ## Nodes in another spelling -/

/-- Two refusals of an entity for one reason.  Each quotes the type as its own node has it, and the
two types stand at the same place. -/
inductive Refusal.Respelled (entity : String) (n n' : Node) : Refusal → Refusal → Prop where
  | missingClass : Respelled entity n n' (.missingClass entity) (.missingClass entity)
  | unmappedType {i : Nat} {t t' : String} (type : n.decl.typesUsed[i]? = some t)
      (type' : n'.decl.typesUsed[i]? = some t')
      (same : Spelling.normalize t = Spelling.normalize t') :
      Respelled entity n n' (.unmappedType t entity) (.unmappedType t' entity)

namespace Setting

/-- Two nodes tell the same but for the spelling of types, each in its own setting. -/
structure Respelled (s : Setting) (n : Node) (s' : Setting) (n' : Node) : Prop where
  types : ∀ {t t'}, Spelling.normalize t = Spelling.normalize t' → s.types t = s'.types t'
  options : s.options = s'.options
  name : n.name = n'.name
  decl : n.decl.mapTypes Spelling.normalize = n'.decl.mapTypes Spelling.normalize
  access : n.access = n'.access
  qualifiedName : s.qualifiedName n = s'.qualifiedName n'
  parent : (s.forest.parent? n).map
      (fun c => (c.level.mapTypes Spelling.normalize, s.qualifiedName c)) =
    (s'.forest.parent? n').map fun c =>
      (c.level.mapTypes Spelling.normalize, s'.qualifiedName c)

/-- What is up for export and has no fault has a job. -/
theorem exists_job {s : Setting} {n : Node} (hn : n.isExported = true)
    (hfault : s.fault? n = none) : ∃ d, s.job n = .ok (some d) := by
  cases hjob : s.job n with
  | error r =>
    rw [(job_eq_error.mp hjob).2] at hfault
    cases hfault
  | ok d =>
    cases d with
    | none =>
      rw [job_eq_ok_none.mp hjob] at hn
      cases hn
    | some d => exact ⟨d, rfl⟩

namespace Respelled

variable {s s' : Setting} {n n' : Node}

section Parts

theorem isMember (h : Respelled s n s' n') : n.decl.isMember = n'.decl.isMember := by
  rw [← n.decl.isMember_mapTypes Spelling.normalize, h.decl, Declaration.isMember_mapTypes]

theorem isExported (h : Respelled s n s' n') : n.isExported = n'.isExported := by
  rw [Node.isExported, Node.isExported, h.access,
    ← n.decl.isExportable_mapTypes Spelling.normalize, h.decl, Declaration.isExportable_mapTypes]

theorem kind (h : Respelled s n s' n') :
    ExportKind.ofDeclaration? n.decl = ExportKind.ofDeclaration? n'.decl := by
  rw [← n.decl.ofDeclaration?_mapTypes Spelling.normalize, h.decl,
    Declaration.ofDeclaration?_mapTypes]

theorem typesUsed (h : Respelled s n s' n') :
    n.decl.typesUsed.map Spelling.normalize = n'.decl.typesUsed.map Spelling.normalize := by
  rw [← Declaration.typesUsed_mapTypes, h.decl, Declaration.typesUsed_mapTypes]

/-- Both have no parent, or their parents are called alike and are the same to their members. -/
theorem parent_cases (h : Respelled s n s' n') :
    (s.forest.parent? n = none ∧ s'.forest.parent? n' = none) ∨
      ∃ c c', s.forest.parent? n = some c ∧ s'.forest.parent? n' = some c' ∧
        c.decl.isClass = c'.decl.isClass ∧ s.options.className c = s'.options.className c' ∧
        s.qualifiedName c = s'.qualifiedName c' := by
  have hparent := h.parent
  cases hp : s.forest.parent? n with
  | none =>
    rw [hp] at hparent
    exact Or.inl ⟨rfl, Option.map_eq_none_iff.mp hparent.symm⟩
  | some c =>
    rw [hp] at hparent
    obtain ⟨c', hp', hview⟩ := Option.map_eq_some_iff.mp hparent.symm
    obtain ⟨hlevel, hqualified⟩ := Prod.mk.inj hview
    have hname : c'.name = c.name := congrArg Level.name hlevel
    have hdecl : c'.decl.mapTypes Spelling.normalize = c.decl.mapTypes Spelling.normalize :=
      congrArg Level.decl hlevel
    have hclass : c.decl.isClass = c'.decl.isClass := by
      rw [← c.decl.isClass_mapTypes Spelling.normalize, ← hdecl, Declaration.isClass_mapTypes]
    have hwrapper : c.decl.hasWrapper = c'.decl.hasWrapper := by
      rw [← c.decl.hasWrapper_mapTypes Spelling.normalize, ← hdecl,
        Declaration.hasWrapper_mapTypes]
    refine Or.inr ⟨c, c', rfl, hp', hclass, ?_, hqualified.symm⟩
    rw [Options.className, Options.className, Options.classNameIf, Options.classNameIf, h.options,
      hname, hwrapper]

theorem outsideClass (h : Respelled s n s' n') : s.outsideClass n = s'.outsideClass n' := by
  rw [Setting.outsideClass, Setting.outsideClass]
  rcases h.parent_cases with ⟨hp, hp'⟩ | ⟨c, c', hp, hp', hclass, -⟩
  · rw [hp, hp', Option.all_none]
  · rw [hp, hp', Option.all_some, Option.all_some, hclass]

theorem parentClass (h : Respelled s n s' n') {c c' : Node} (hc : s.parentClass? n = some c)
    (hc' : s'.parentClass? n' = some c') :
    s.options.className c = s'.options.className c' ∧
      s.qualifiedName c = s'.qualifiedName c' := by
  have hp : s.forest.parent? n = some c := (Option.filter_eq_some_iff.mp hc).1
  have hp' : s'.forest.parent? n' = some c' := (Option.filter_eq_some_iff.mp hc').1
  rcases h.parent_cases with ⟨hnone, -⟩ | ⟨d, d', hd, hd', -, hname, hqualified⟩
  · rw [hp] at hnone
    cases hnone
  · rw [hp] at hd
    rw [hp'] at hd'
    cases hd
    cases hd'
    exact ⟨hname, hqualified⟩

end Parts

/-- Both nodes are without a fault, or they have the same fault, each in its own spelling. -/
theorem fault_cases (h : Respelled s n s' n') :
    (s.fault? n = none ∧ s'.fault? n' = none) ∨
      ∃ r r', s.fault? n = some r ∧ s'.fault? n' = some r' ∧
        Refusal.Respelled (s.qualifiedName n) n n' r r' := by
  unfold fault? typeFault?
  rw [h.isMember, h.outsideClass, h.qualifiedName]
  by_cases hclass : (n'.decl.isMember && s'.outsideClass n') = true
  · rw [if_pos hclass, if_pos hclass]
    exact Or.inr ⟨_, _, rfl, rfl, .missingClass⟩
  · rw [if_neg hclass, if_neg hclass]
    have hmapped : ∀ {t t'}, Spelling.normalize t = Spelling.normalize t' →
        (s.types t).isNone = (s'.types t').isNone := fun ht => by rw [h.types ht]
    rcases find?_of_map_eq hmapped h.typesUsed with
      ⟨hx, hy⟩ | ⟨i, t, t', ht, ht', hsame, hx, hy⟩
    · rw [hx, hy]
      exact Or.inl ⟨rfl, rfl⟩
    · rw [hx, hy]
      exact Or.inr ⟨_, _, rfl, rfl, .unmappedType ht ht' hsame⟩

/-! ### Drafts -/

theorem names_eq_of_mapType {f : String → String} {ps ps' : List Parameter}
    (h : ps.map (·.mapType f) = ps'.map (·.mapType f)) :
    Parameter.names ps = Parameter.names ps' := by
  have hnames : ∀ qs : List Parameter,
      Parameter.names (qs.map (·.mapType f)) = Parameter.names qs := fun qs => by
    rw [Parameter.names, Parameter.names, List.mapIdx_eq_zipIdx_map, List.mapIdx_eq_zipIdx_map,
      List.zipIdx_map, List.map_map]
    rfl
  rw [← hnames ps, h, hnames]

/-- The C types of parameters, if they have some, are those of their types. -/
theorem mapM_cType_eq_ok {ps : List Parameter} {cs : List String}
    (h : ps.mapM (fun p => s.cType n p.type) = .ok cs) :
    ps.map (fun p => s.types p.type) = cs.map some := by
  induction ps generalizing cs with
  | nil =>
    cases h
    rfl
  | cons p ps ih =>
    rw [List.mapM_cons] at h
    obtain ⟨c, hc, h⟩ := bind_eq_ok.mp h
    obtain ⟨cs', hcs, h⟩ := bind_eq_ok.mp h
    cases h
    rw [List.map_cons, List.map_cons, ih hcs, cType_eq_ok.mp hc]

theorem cParams (h : Respelled s n s' n') {ps ps' : List Parameter} {cs cs' : List Param}
    (hps : ps.map (·.mapType Spelling.normalize) = ps'.map (·.mapType Spelling.normalize))
    (hcs : s.cParams n ps = .ok cs) (hcs' : s'.cParams n' ps' = .ok cs') : cs = cs' := by
  obtain ⟨types, htypes, heq⟩ := bind_eq_ok.mp hcs
  obtain ⟨types', htypes', heq'⟩ := bind_eq_ok.mp hcs'
  cases heq
  cases heq'
  have hall : ps.map (fun p => s.types p.type) = ps'.map fun p => s'.types p.type :=
    map_eq_of_map_eq (fun hp => h.types (congrArg Parameter.type hp)) hps
  rw [mapM_cType_eq_ok htypes, mapM_cType_eq_ok htypes'] at hall
  rw [List.map_injective_iff.mpr (Option.some_injective _) hall, names_eq_of_mapType hps]

theorem callStatement (h : Respelled s n s' n') {t t' : String}
    (ht : Spelling.normalize t = Spelling.normalize t') :
    s.options.callStatement t = s'.options.callStatement t' := by
  funext call
  rw [Options.callStatement, Options.callStatement, Spelling.isVoid_congr ht, h.options]

theorem arguments (h : Respelled s n s' n') {ps ps' : List Parameter}
    (hps : ps.map (·.mapType Spelling.normalize) = ps'.map (·.mapType Spelling.normalize)) :
    s.options.arguments ps = s'.options.arguments ps' := by
  rw [Options.arguments, Options.arguments, names_eq_of_mapType hps, h.options]

theorem draftFunction (h : Respelled s n s' n') {f f' : Signature}
    (hf : f.mapTypes Spelling.normalize = f'.mapTypes Spelling.normalize) {d d' : Draft}
    (hd : s.draftFunction n f = .ok d) (hd' : s'.draftFunction n' f' = .ok d') : d = d' := by
  have hreturns := congrArg Signature.returns hf
  have hparams := congrArg Signature.params hf
  obtain ⟨c, ps, hc, hps, rfl⟩ := draftFunction_ok hd
  obtain ⟨c', ps', hc', hps', rfl⟩ := draftFunction_ok hd'
  rw [h.types hreturns, hc'] at hc
  cases hc
  rw [h.cParams hparams hps hps', h.callStatement hreturns, h.arguments hparams, h.qualifiedName]

theorem draftMethod (h : Respelled s n s' n') {m m' : Method}
    (hm : m.mapTypes Spelling.normalize = m'.mapTypes Spelling.normalize)
    (hrole : m.role = .ordinary) (hrole' : m'.role = .ordinary) {d d' : Option Draft}
    (hd : s.draftMethod n m = .ok d) (hd' : s'.draftMethod n' m' = .ok d') : d = d' := by
  have hreturns := congrArg (fun m : Method => m.returns) hm
  have hparams := congrArg (fun m : Method => m.params) hm
  have hvirtual : m.isVirtual = m'.isVirtual := (congrArg Method.isVirtual hm :)
  obtain ⟨k, c, ps, hk, hc, hps, rfl⟩ := draftMethod_ok hrole hd
  obtain ⟨k', c', ps', hk', hc', hps', rfl⟩ := draftMethod_ok hrole' hd'
  rw [h.types hreturns, hc'] at hc
  cases hc
  rw [h.cParams hparams hps hps', h.callStatement hreturns, h.arguments hparams,
    h.qualifiedName, h.name, (h.parentClass hk hk').1, hvirtual]

theorem draftField (h : Respelled s n s' n') {t t' : String}
    (ht : Spelling.normalize t = Spelling.normalize t') {d d' : Draft}
    (hd : s.draftField n t = .ok d) (hd' : s'.draftField n' t' = .ok d') : d = d' := by
  obtain ⟨k, c, hk, hc, f, rfl, hbase, hclass, htype, htexts⟩ := draftField_ok hd
  obtain ⟨k', c', hk', hc', f', rfl, hbase', hclass', htype', htexts'⟩ := draftField_ok hd'
  obtain ⟨hname, hqualified⟩ := h.parentClass hk hk'
  rw [h.types ht, hc'] at hc
  cases hc
  rw [h.access, h.name, h.options, ← htexts'] at htexts
  obtain ⟨hread, hwrite⟩ := Prod.mk.inj htexts
  have hbases : f.base = f'.base := by rw [hbase, hbase', hqualified, h.name]
  have hclasses : f.className = f'.className := by rw [hclass, hclass', hname]
  have htypes : f.cType = f'.cType := by rw [htype, htype']
  cases f
  cases f'
  cases hbases
  cases hclasses
  cases htypes
  cases hread
  cases hwrite
  rfl

/-- What is drafted at all is drafted alike. -/
theorem draft (h : Respelled s n s' n') {d d' : Draft} (hd : s.draft n = .ok (some d))
    (hd' : s'.draft n' = .ok (some d')) : d = d' := by
  have hdecl := h.decl
  rcases draft_ok_some hd with ⟨f, hn, hf⟩ | ⟨m, hn, hrole, hm⟩ | ⟨t, hn, ht⟩ <;>
    rcases draft_ok_some hd' with ⟨f', hn', hf'⟩ | ⟨m', hn', hrole', hm'⟩ | ⟨t', hn', ht'⟩ <;>
    rw [hn, hn'] at hdecl
  -- a draft of another kind would be for another kind of declaration
  case inl.inl => exact h.draftFunction (Declaration.freeFunction.inj hdecl) hf hf'
  case inr.inl.inr.inl =>
    have hmethod := Declaration.memberFunction.inj hdecl
    exact Option.some.inj (h.draftMethod hmethod hrole hrole' hm hm')
  case inr.inr.inr.inr => exact h.draftField (Declaration.memberVariable.inj hdecl) ht ht'
  all_goals cases hdecl

/-- Both nodes have the same job, or both are refused for the same reason. -/
theorem job_cases (h : Respelled s n s' n') :
    (∃ d, s.job n = .ok d ∧ s'.job n' = .ok d) ∨
      ∃ r r', s.job n = .error r ∧ s'.job n' = .error r' ∧
        Refusal.Respelled (s.qualifiedName n) n n' r r' := by
  cases hn : n.isExported with
  | false =>
    have hn' : n'.isExported = false := by rw [← h.isExported, hn]
    exact Or.inl ⟨none, job_eq_ok_none.mpr hn, job_eq_ok_none.mpr hn'⟩
  | true =>
    have hn' : n'.isExported = true := by rw [← h.isExported, hn]
    rcases h.fault_cases with ⟨hfault, hfault'⟩ | ⟨r, r', hr, hr', hsame⟩
    · obtain ⟨d, hd⟩ := exists_job hn hfault
      obtain ⟨d', hd'⟩ := exists_job hn' hfault'
      obtain ⟨-, hkind, hdraft, hentity⟩ := job_eq_ok_some.mp hd
      obtain ⟨-, hkind', hdraft', hentity'⟩ := job_eq_ok_some.mp hd'
      have heq : d = d' := by
        rw [h.kind, hkind'] at hkind
        cases d
        cases d'
        cases hkind
        cases h.draft hdraft hdraft'
        cases (hentity.trans h.qualifiedName).trans hentity'.symm
        rfl
      exact Or.inl ⟨some d, hd, heq ▸ hd'⟩
    · exact Or.inr ⟨r, r', job_eq_error.mpr ⟨hn, hr⟩, job_eq_error.mpr ⟨hn', hr'⟩, hsame⟩

/-- Nodes with the same outline but for the spelling of types. -/
theorem ofOutline {types types' : String → Option String} {options : Options} {f f' : Forest}
    (htypes : ∀ {t t'}, Spelling.normalize t = Spelling.normalize t' → types t = types' t')
    (hf : f.Numbered) (hf' : f'.Numbered) {i i' : Nat} (hn : f.node? i = some n)
    (hn' : f'.node? i' = some n')
    (h : (f.outline n).mapTypes Spelling.normalize =
      (f'.outline n').mapTypes Spelling.normalize) :
    Respelled { forest := f, types, options } n { forest := f', types := types', options } n' where
  types := htypes
  options := rfl
  name := congrArg Outline.name h
  decl := congrArg Outline.decl h
  access := congrArg Outline.access h
  qualifiedName := by
    show f.qualifiedName n = f'.qualifiedName n'
    rw [Forest.qualifiedName_eq_outline, Forest.qualifiedName_eq_outline,
      ← Outline.qualifiedName_mapTypes Spelling.normalize, h, Outline.qualifiedName_mapTypes]
  parent := by
    have hparent := congrArg Outline.parent? h
    rw [Outline.parent?_mapTypes, Outline.parent?_mapTypes, ← hf.parent?_eq_outline hn,
      ← hf'.parent?_eq_outline hn', Option.map_map, Option.map_map] at hparent
    exact hparent

/-- The jobs of two rows are the same, or two nodes at the same place are refused for the same
reason and end both rows. -/
theorem mapM_job_cases {ns ns' : List Node}
    (h : List.Forall₂ (fun n n' => Respelled s n s' n') ns ns') :
    (∃ ds, ns.mapM s.job = .ok ds ∧ ns'.mapM s'.job = .ok ds) ∨
      ∃ (k : Nat) (n n' : Node) (r r' : Refusal), ns[k]? = some n ∧ ns'[k]? = some n' ∧
        ns.mapM s.job = .error r ∧ ns'.mapM s'.job = .error r' ∧
        Refusal.Respelled (s.qualifiedName n) n n' r r' := by
  induction h with
  | nil => exact Or.inl ⟨[], rfl, rfl⟩
  | @cons n n' ns ns' hn _ ih =>
    rw [List.mapM_cons, List.mapM_cons]
    rcases hn.job_cases with ⟨d, hd, hd'⟩ | ⟨r, r', hr, hr', hsame⟩
    · rw [hd, hd']
      rcases ih with ⟨ds, hds, hds'⟩ | ⟨k, m, m', r, r', hm, hm', hr, hr', hsame⟩
      · rw [hds, hds']
        exact Or.inl ⟨d :: ds, rfl, rfl⟩
      · rw [hr, hr']
        exact Or.inr ⟨k + 1, m, m', r, r', hm, hm', rfl, rfl, hsame⟩
    · rw [hr, hr']
      exact Or.inr ⟨0, n, n', r, r', rfl, rfl, rfl, rfl, hsame⟩

end Respelled

end Setting

/-! ## Whole walks -/

section Walk

variable {es es' : List Entity} {types types' : String → Option String} {options : Options}

/-- The outlines of all nodes are the same but for the spelling of types. -/
theorem map_outline_respelled
    (hes : Entity.mapTypesAll Spelling.normalize es = Entity.mapTypesAll Spelling.normalize es') :
    (Forest.ofEntities es).nodes.toList.map
        (fun n => ((Forest.ofEntities es).outline n).mapTypes Spelling.normalize) =
      (Forest.ofEntities es').nodes.toList.map
        fun n => ((Forest.ofEntities es').outline n).mapTypes Spelling.normalize := by
  have hall : ∀ gs : List Entity, (Forest.ofEntities gs).nodes.toList.map
      (fun n => ((Forest.ofEntities gs).outline n).mapTypes Spelling.normalize) =
        Entity.outlinesAll [] (Entity.mapTypesAll Spelling.normalize gs) := by
    intro gs
    have hmapped := Entity.outlinesAll_mapTypes Spelling.normalize [] gs
    rw [List.map_nil, ← Forest.outlines_ofEntities gs, List.map_map] at hmapped
    exact hmapped.symm
  rw [hall, hall, hes]

/-- Entities that differ in the spelling of types have nodes that do, one by one. -/
theorem forall₂_respelled
    (htypes : ∀ {t t'}, Spelling.normalize t = Spelling.normalize t' → types t = types' t')
    (hes : Entity.mapTypesAll Spelling.normalize es = Entity.mapTypesAll Spelling.normalize es') :
    List.Forall₂ (fun n n' => (Setting.ofEntities es types options).Respelled n
        (.ofEntities es' types' options) n')
      (Forest.ofEntities es).nodes.toList (Forest.ofEntities es').nodes.toList := by
  have houtlines := map_outline_respelled hes
  rw [List.forall₂_iff_get]
  refine ⟨?_, fun i hi hi' => ?_⟩
  · simpa only [List.length_map] using congrArg List.length houtlines
  · have hn : (Forest.ofEntities es).node? i =
        some ((Forest.ofEntities es).nodes.toList.get ⟨i, hi⟩) := by
      rw [Forest.node?, ← Array.getElem?_toList]
      exact List.getElem?_eq_getElem hi
    have hn' : (Forest.ofEntities es').node? i =
        some ((Forest.ofEntities es').nodes.toList.get ⟨i, hi'⟩) := by
      rw [Forest.node?, ← Array.getElem?_toList]
      exact List.getElem?_eq_getElem hi'
    have hsame := congrArg (·[i]?) houtlines
    simp only [List.getElem?_map, List.getElem?_eq_getElem hi, List.getElem?_eq_getElem hi',
      Option.map_some, Option.some.injEq] at hsame
    exact .ofOutline htypes (Forest.numbered_ofEntities es) (Forest.numbered_ofEntities es')
      hn hn' hsame

/-- The same jobs give the same output. -/
theorem output_respelled
    (hes : Entity.mapTypesAll Spelling.normalize es = Entity.mapTypesAll Spelling.normalize es')
    (ds : List (Option Job)) :
    (Setting.ofEntities es types options).output ds =
      (Setting.ofEntities es' types' options).output ds := by
  have hflags := congrArg (List.map fun o : Outline => o.decl.hasWrapper)
    (map_outline_respelled hes)
  simp only [List.map_map, Function.comp_def, Outline.mapTypes,
    Declaration.hasWrapper_mapTypes] at hflags
  change (Forest.ofEntities es).nodes.toList.map (·.decl.hasWrapper) =
    (Forest.ofEntities es').nodes.toList.map (·.decl.hasWrapper) at hflags
  rw [Setting.output, Setting.output, Setting.listing, Setting.listing]
  simp only [Setting.ofEntities, hflags]
  rfl

end Walk

/-- **Types in another spelling.**  If all types of the entities, and the native types that are
inserted into the table, are the same up to white space, both walks have the same output, or both
are refused at the node with the same number and for the same reason. -/
theorem generate_respelled {es es' : List Entity} {ps ps' : List (String × String)}
    (hes : Entity.mapTypesAll Spelling.normalize es = Entity.mapTypesAll Spelling.normalize es')
    (hps : ps.map TypeTable.normalEntry = ps'.map TypeTable.normalEntry) (t : TypeTable)
    (options : Options) :
    let s := Setting.ofEntities es (t.insertAll ps).lookup options
    let s' := Setting.ofEntities es' (t.insertAll ps').lookup options
    (∃ out, generate s = .ok out ∧ generate s' = .ok out) ∨
      ∃ k n n' r r', s.forest.node? k = some n ∧ s'.forest.node? k = some n' ∧
        generate s = .error r ∧ generate s' = .error r' ∧
        Refusal.Respelled (s.qualifiedName n) n n' r r' := by
  intro s s'
  have htypes : ∀ {a b}, Spelling.normalize a = Spelling.normalize b →
      (t.insertAll ps).lookup a = (t.insertAll ps').lookup b := fun hab => by
    rw [t.insertAll_congr hps, TypeTable.lookup_congr _ hab]
  have hgen : generate s = s.output <$> s.jobs := generate_eq_jobs es _ options
  have hgen' : generate s' = s'.output <$> s'.jobs := generate_eq_jobs es' _ options
  rw [hgen, hgen']
  rcases Setting.Respelled.mapM_job_cases (forall₂_respelled htypes hes) with
    ⟨ds, hds, hds'⟩ | ⟨k, n, n', r, r', hn, hn', hr, hr', hsame⟩
  · have houtput : s.output ds = s'.output ds := output_respelled hes ds
    refine Or.inl ⟨s.output ds, map_eq_ok.mpr ⟨ds, hds, rfl⟩, map_eq_ok.mpr ⟨ds, hds', ?_⟩⟩
    exact houtput.symm
  · rw [Array.getElem?_toList] at hn hn'
    exact Or.inr ⟨k, n, n', r, r', hn, hn', map_eq_error.mpr hr, map_eq_error.mpr hr', hsame⟩

/-- A class with a field and two methods; one of them has a type of its own. -/
def Entity.labels (text size view : String) : List Entity :=
  [{ name := "Label", decl := .classType false, children :=
      [{ name := "text", decl := .memberVariable text },
        { name := "Resize", decl := .memberFunction
            { returns := "void", params := [{ name := "to", type := size }] } },
        { name := "Find", decl := .memberFunction { returns := view, isVirtual := true } }] }]

theorem generate_respelled_labels :
    let es := Entity.labels "const char*" "Size const&" "View*"
    let es' := Entity.labels " const  char *" "Size\tconst &" "View  *"
    let sizes := [("void", "void"), ("const char *", "const char*"), ("Size  const&", "Size*")]
    let sizes' := [("void ", "void"), ("const  char*", "const char*"), ("Size const &", "Size*")]
    let views := ("View *", "void*") :: sizes
    let views' := (" View*", "void*") :: sizes'
    let table := TypeTable.insertAll {}
    Entity.mapTypesAll Spelling.normalize es = Entity.mapTypesAll Spelling.normalize es' ∧
      views.map TypeTable.normalEntry = views'.map TypeTable.normalEntry ∧
      (∃ out, generate (.ofEntities es (table views).lookup {}) = .ok out ∧
        generate (.ofEntities es' (table views').lookup {}) = .ok out ∧
        out.exports.flatMap (·.symbols) =
          ["get_Label_text", "set_Label_text", "Label_Resize", "Label_Find",
            "set_Label_fnFind"]) ∧
      ∃ n n', Refusal.Respelled "Label::Find" n n' (.unmappedType "View*" "Label::Find")
          (.unmappedType "View  *" "Label::Find") ∧
        generate (.ofEntities es (table sizes).lookup {}) =
          .error (.unmappedType "View*" "Label::Find") ∧
        generate (.ofEntities es' (table sizes').lookup {}) =
          .error (.unmappedType "View  *" "Label::Find") := by
  intro es es' sizes sizes' views views' table
  have hes : Entity.mapTypesAll Spelling.normalize es =
      Entity.mapTypesAll Spelling.normalize es' := rfl
  have hviews : views.map TypeTable.normalEntry = views'.map TypeTable.normalEntry := by
    decide +kernel
  have hsizes : sizes.map TypeTable.normalEntry = sizes'.map TypeTable.normalEntry := by
    decide +kernel
  refine ⟨hes, hviews, ?_, ?_⟩
  · have hrun : (generate (.ofEntities es (table views).lookup {})).toOption.map
        (fun out => out.exports.flatMap (·.symbols)) =
          some ["get_Label_text", "set_Label_text", "Label_Resize", "Label_Find",
            "set_Label_fnFind"] := by decide +kernel
    obtain ⟨out, hout, hsymbols⟩ := exists_ok_of_toOption hrun
    rcases generate_respelled hes hviews {} {} with
      ⟨out', hgen, hgen'⟩ | ⟨-, -, -, r, -, -, -, hr, -⟩
    · rw [hout] at hgen
      cases hgen
      exact ⟨out, hout, hgen', hsymbols⟩
    · rw [hout] at hr
      cases hr
  · have hrefused : generate (.ofEntities es (table sizes).lookup {}) =
        .error (.unmappedType "View*" "Label::Find") :=
      (generate_eq_error _ _ _ _).mpr (by decide +kernel)
    have hrefused' : generate (.ofEntities es' (table sizes').lookup {}) =
        .error (.unmappedType "View  *" "Label::Find") :=
      (generate_eq_error _ _ _ _).mpr (by decide +kernel)
    rcases generate_respelled hes hsizes {} {} with
      ⟨out, hgen, -⟩ | ⟨-, n, n', r, r', -, -, hr, hr', hsame⟩
    · rw [hrefused] at hgen
      cases hgen
    · rw [hrefused] at hr
      rw [hrefused'] at hr'
      cases hr
      cases hr'
      generalize Setting.qualifiedName _ n = entity at hsame
      cases hsame with
      | unmappedType type type' same =>
        exact ⟨n, n', .unmappedType type type' same, hrefused, hrefused'⟩

end FlatApi
