import FlatApi.Proofs.Jobs

/-!
# Nodes that look alike

The job of a node is made from what the node itself says and from the names and declarations
around it.  Nodes of two forests that have the same outline therefore have the same job, for the
same types and options (`job_eq_of_outline`): numbers and children never matter.
-/

namespace FlatApi

open Forest (Node)

namespace Setting

/-- Two nodes tell the same, each in its own setting. -/
structure Alike (s : Setting) (n : Node) (s' : Setting) (n' : Node) : Prop where
  types : s.types = s'.types
  options : s.options = s'.options
  name : n.name = n'.name
  decl : n.decl = n'.decl
  access : n.access = n'.access
  qualifiedName : s.qualifiedName n = s'.qualifiedName n'
  parent : (s.forest.parent? n).map (fun c => (c.level, s.qualifiedName c)) =
    (s'.forest.parent? n').map fun c => (c.level, s'.qualifiedName c)

theorem className_eq_of_level (o : Options) {c c' : Node} (h : c.level = c'.level) :
    o.className c = o.className c' := by
  have hname : c.name = c'.name := congrArg Level.name h
  have hdecl : c.decl = c'.decl := congrArg Level.decl h
  rw [Options.className, Options.className, Options.classNameIf, Options.classNameIf, hname, hdecl]

namespace Alike

variable {s s' : Setting} {n n' : Node}

/-- Nodes with one outline tell the same. -/
theorem ofOutline {types : String → Option String} {options : Options} {f f' : Forest}
    (hf : f.Numbered) (hf' : f'.Numbered) {i i' : Nat} (hn : f.node? i = some n)
    (hn' : f'.node? i' = some n') (h : f.outline n = f'.outline n') :
    Alike { forest := f, types, options } n { forest := f', types, options } n' where
  types := rfl
  options := rfl
  name := congrArg Outline.name h
  decl := congrArg Outline.decl h
  access := congrArg Outline.access h
  qualifiedName := by
    show f.qualifiedName n = f'.qualifiedName n'
    rw [Forest.qualifiedName_eq_outline, Forest.qualifiedName_eq_outline, h]
  parent := by
    show (f.parent? n).map (fun c => (c.level, f.qualifiedName c)) =
      (f'.parent? n').map fun c => (c.level, f'.qualifiedName c)
    rw [hf.parent?_eq_outline hn, hf'.parent?_eq_outline hn', h]

theorem cType (h : Alike s n s' n') : s.cType n = s'.cType n' := by
  funext type
  rw [Setting.cType, Setting.cType, h.types, h.qualifiedName]

theorem cParams (h : Alike s n s' n') : s.cParams n = s'.cParams n' := by
  funext params
  rw [Setting.cParams, Setting.cParams, h.cType]

/-- Both are in a class of the same name, or both are in none. -/
theorem parentClass (h : Alike s n s' n') :
    (∃ r, s.parentClass n = .error r ∧ s'.parentClass n' = .error r) ∨
      ∃ c c', s.parentClass n = .ok c ∧ s'.parentClass n' = .ok c' ∧ c.level = c'.level ∧
        s.qualifiedName c = s'.qualifiedName c' := by
  have hparent := h.parent
  unfold Setting.parentClass parentClass?
  cases hp : s.forest.parent? n with
  | none =>
    rw [hp] at hparent
    rw [Option.map_eq_none_iff.mp hparent.symm, h.qualifiedName]
    exact Or.inl ⟨_, rfl, rfl⟩
  | some c =>
    -- the parents may be different nodes, but both are classes or none is
    rw [hp] at hparent
    obtain ⟨c', hp', hview⟩ := Option.map_eq_some_iff.mp hparent.symm
    obtain ⟨hlevel, hname⟩ := Prod.mk.inj hview
    have hdecl : c'.decl = c.decl := congrArg Level.decl hlevel
    simp only [hp', Option.filter_some, hdecl]
    cases hclass : c.decl.isClass with
    | false =>
      rw [h.qualifiedName]
      exact Or.inl ⟨_, rfl, rfl⟩
    | true => exact Or.inr ⟨c, c', rfl, rfl, hlevel.symm, hname.symm⟩

theorem draftFunction (h : Alike s n s' n') (f : Signature) :
    s.draftFunction n f = s'.draftFunction n' f := by
  rw [Setting.draftFunction, Setting.draftFunction, h.cType, h.cParams, h.qualifiedName,
    h.options]

theorem draftMethod (h : Alike s n s' n') (m : Method) :
    s.draftMethod n m = s'.draftMethod n' m := by
  rw [Setting.draftMethod, Setting.draftMethod, h.cType, h.cParams, h.qualifiedName, h.options,
    h.name]
  rcases h.parentClass with ⟨r, hr, hr'⟩ | ⟨c, c', hc, hc', hlevel, -⟩
  · rw [hr, hr']
  · rw [hc, hc']
    show (if _ then _ else s'.cType n' m.returns >>= _) =
      if _ then _ else s'.cType n' m.returns >>= _
    rw [className_eq_of_level s'.options hlevel]

theorem draftField (h : Alike s n s' n') (type : String) :
    s.draftField n type = s'.draftField n' type := by
  rw [Setting.draftField, Setting.draftField, h.cType, h.options, h.name, h.access]
  rcases h.parentClass with ⟨r, hr, hr'⟩ | ⟨c, c', hc, hc', hlevel, hname⟩
  · rw [hr, hr']
    rfl
  · rw [hc, hc']
    show (s'.cType n' type >>= _) = s'.cType n' type >>= _
    rw [className_eq_of_level s'.options hlevel, hname]

theorem draft (h : Alike s n s' n') : s.draft n = s'.draft n' := by
  rw [Setting.draft, Setting.draft, h.decl]
  cases n'.decl with
  | freeFunction f => simp only [h.draftFunction]
  | memberFunction m => simp only [h.draftMethod]
  | memberVariable type => simp only [h.draftField]
  | nameSpace | classType _ | other => rfl

theorem job (h : Alike s n s' n') : s.job n = s'.job n' := by
  rw [Setting.job, Setting.job, h.decl, h.access, h.draft, h.qualifiedName]

end Alike

end Setting

/-! ## Rows of nodes -/

section Rows

variable {es es' : List Entity} {types : String → Option String} {options : Options}

/-- Rows of nodes with the same jobs are refused alike. -/
theorem mapM_job_eq_of_map {s s' : Setting} {ns ns' : List Node}
    (h : ns.map s.job = ns'.map s'.job) : ns.mapM s.job = ns'.mapM s'.job := by
  have hrow : ∀ (t : Setting) (ms : List Node), (ms.map t.job).mapM id = ms.mapM t.job :=
    fun _ _ => List.mapM_map
  rw [← hrow, ← hrow, h]

theorem node?_of_mem_nodes {n : Node} (h : n ∈ (Forest.ofEntities es).nodes.toList) :
    ∃ i, (Forest.ofEntities es).node? i = some n := by
  obtain ⟨i, hi⟩ := List.mem_iff_getElem?.mp h
  exact ⟨i, by rwa [Array.getElem?_toList] at hi⟩

/-- Nodes of two forests with the same outlines have the same jobs. -/
theorem map_job_eq_of_outline {ns ns' : List Node}
    (hns : ns ⊆ (Forest.ofEntities es).nodes.toList)
    (hns' : ns' ⊆ (Forest.ofEntities es').nodes.toList)
    (h : ns.map (Forest.ofEntities es).outline = ns'.map (Forest.ofEntities es').outline) :
    ns.map (Setting.ofEntities es types options).job =
      ns'.map (Setting.ofEntities es' types options).job := by
  induction ns generalizing ns' with
  | nil =>
    rw [List.map_eq_nil_iff.mp h.symm]
    rfl
  | cons n ns ih =>
    cases ns' with
    | nil => cases h
    | cons n' ns' =>
      obtain ⟨hfirst, hrest⟩ := List.cons.inj h
      obtain ⟨i, hi⟩ := node?_of_mem_nodes (hns List.mem_cons_self)
      obtain ⟨i', hi'⟩ := node?_of_mem_nodes (hns' List.mem_cons_self)
      have hjob : (Setting.ofEntities es types options).job n =
          (Setting.ofEntities es' types options).job n' :=
        (Setting.Alike.ofOutline (Forest.numbered_ofEntities es) (Forest.numbered_ofEntities es')
          hi hi' hfirst).job
      have hjobs := ih (fun m hm => hns (List.mem_cons_of_mem _ hm))
        (fun m hm => hns' (List.mem_cons_of_mem _ hm)) hrest
      rw [List.map_cons, List.map_cons, hjob, hjobs]

end Rows

end FlatApi
