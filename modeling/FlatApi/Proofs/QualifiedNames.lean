import FlatApi.Proofs.Layout

/-!
# Qualified names along paths

A qualified name is put together on the way up from a node, from parent to parent.  In the nested
entities the same names stand on the path down to the entity that the node is for.

* Every node is reached along one path, and where it is reached its entity was laid out, inside
  of those on the path (`exists_reaches`, `Reaches.unique`, `Reaches.laidOut`).
* The way up ends, for a parent has a lower number, and it collects the names of the named scopes
  around the node, the innermost first (`climbs_iff`).
* Read downwards, these are the names of the named scopes on the path
  (`exists_qualifiedAlong`).
-/

namespace FlatApi

open Forest (Node)

/-! ## Named scopes -/

theorem Declaration.isScope_iff {d : Declaration} :
    d.isScope = true ↔ d = .nameSpace ∨ ∃ w, d = .classType w := by
  cases d <;> simp [isScope]

theorem Declaration.isClass_iff {d : Declaration} : d.isClass = true ↔ ∃ w, d = .classType w := by
  cases d <;> simp [isClass]

namespace Entity

/-- What the entity is for those inside it. -/
def level (e : Entity) : Level := ⟨e.name, e.decl⟩

/-- A namespace or a class that has a name. -/
def Qualifies (e : Entity) : Prop :=
  (e.decl = .nameSpace ∨ ∃ w, e.decl = .classType w) ∧ e.name ≠ ""

theorem isNamedScope_level_iff {e : Entity} : e.level.isNamedScope = true ↔ e.Qualifies := by
  simp [Level.isNamedScope, level, Qualifies, Declaration.isScope_iff]

instance : DecidablePred Qualifies := fun _ => decidable_of_iff _ isNamedScope_level_iff

/-- The name of the last entity of a path behind those of the named scopes above it. -/
def qualifiedNameBelow (above : List Entity) (e : Entity) : String :=
  "::".intercalate ((above.filter (·.Qualifies)).map (·.name) ++ [e.name])

/-- Both ways of qualifying a name join the same segments. -/
theorem qualify_levels (above : List Entity) (e : Entity) :
    Level.qualify (above.reverse.map level) e.name = qualifiedNameBelow above e := by
  have hscope : (fun a : Entity => decide a.Qualifies) = Level.isNamedScope ∘ level := by
    funext a
    rw [Function.comp_apply, Bool.eq_iff_iff, decide_eq_true_iff, isNamedScope_level_iff]
  rw [Level.qualify, qualifiedNameBelow, List.filter_map, List.map_map, List.filter_reverse,
    List.map_reverse, List.reverse_reverse, hscope]
  rfl

/-! ## Siblings -/

theorem length_firstIds (id : Nat) (es : List Entity) : (firstIds id es).length = es.length := by
  induction es generalizing id with
  | nil => rfl
  | cons e es ih => rw [firstIds, List.length_cons, List.length_cons, ih]

theorem exists_of_mem_firstIds {id i : Nat} {es : List Entity} (h : i ∈ firstIds id es) :
    ∃ (k : Nat) (e : Entity), (firstIds id es)[k]? = some i ∧ es[k]? = some e := by
  obtain ⟨k, hk⟩ := List.mem_iff_getElem?.mp h
  have hlt : k < es.length := by
    rw [← length_firstIds id es]
    exact (List.getElem?_eq_some_iff.mp hk).1
  exact ⟨k, es[k], hk, List.getElem?_eq_getElem hlt⟩

end Entity

namespace Forest

/-- Each of some siblings was laid out from its own number on. -/
theorem HasFrom.sibling {f : Forest} {parent : Option Nat} {id k i : Nat} {es : List Entity}
    {e : Entity} (h : f.HasFrom id (Entity.flattenAll parent id es))
    (hi : (Entity.firstIds id es)[k]? = some i) (he : es[k]? = some e) :
    id ≤ i ∧ f.HasFrom i (e.flatten parent i) := by
  induction es generalizing id k with
  | nil => cases he
  | cons a as ih =>
    rw [Entity.flattenAll] at h
    cases k with
    | zero =>
      cases hi
      cases he
      exact ⟨Nat.le_refl _, h.left⟩
    | succ k =>
      have hrest := h.right
      rw [Entity.length_flatten] at hrest
      obtain ⟨hle, hfrom⟩ := ih hrest hi he
      exact ⟨Nat.le_trans (Nat.le_add_right _ _) hle, hfrom⟩

/-! ## Paths -/

/-- The node `i` is for `e`, which is found among the entities `es` by way of those `above` it,
the outermost first.  Roots and children are in the order of the entities that they are for. -/
inductive Reaches (f : Forest) (es : List Entity) : List Entity → Entity → Nat → Prop
  | root {k i : Nat} {e : Entity} (hi : f.roots[k]? = some i) (he : es[k]? = some e) :
      Reaches f es [] e i
  | child {above : List Entity} {e c : Entity} {n : Node} {i j k : Nat}
      (h : Reaches f es above e i) (hn : f.node? i = some n) (hj : n.children[k]? = some j)
      (hc : e.children[k]? = some c) : Reaches f es (above ++ [e]) c j

section Paths

variable {es above : List Entity} {e : Entity} {n : Node} {i p : Nat}

theorem parent_lt_of_node? (hn : (ofEntities es).node? i = some n) (hp : n.parent = some p) :
    p < i := by
  have hlt := (numbered_ofEntities es).parent_lt hn hp
  rwa [(numbered_ofEntities es).id_eq hn] at hlt

/-- Where a node is reached, its entity was laid out, with those above around it. -/
theorem Reaches.laidOut (h : Reaches (ofEntities es) es above e i) :
    ∃ parent, (ofEntities es).HasFrom i (e.flatten parent i) ∧
      (ofEntities es).HasAround i parent (above.reverse.map Entity.level) := by
  induction h with
  | @root k i e hi he =>
    refine ⟨none, ((hasFrom_ofEntities es).sibling hi he).2, ?_⟩
    intro j _
    rw [around]
    rfl
  | @child above e c n i j k _ hn hj hc ih =>
    obtain ⟨parent, hfrom, haround⟩ := ih
    rw [Entity.flatten_eq_cons] at hfrom
    have hself : n = Entity.node parent i e := Option.some.inj (hn.symm.trans hfrom.node?)
    subst hself
    obtain ⟨hle, hchild⟩ := hfrom.tail.sibling hj hc
    have hinside := HasAround.inside (n := Entity.node parent i e) haround hn
    refine ⟨some i, hchild, ?_⟩
    rw [List.reverse_append, List.map_append]
    exact fun m hm => hinside m (Nat.le_trans hle hm)

/-- Where a node is reached, it is the node of its entity. -/
theorem Reaches.node_eq (h : Reaches (ofEntities es) es above e i)
    (hn : (ofEntities es).node? i = some n) :
    ∃ parent, n = Entity.node parent i e ∧
      (ofEntities es).HasAround i parent (above.reverse.map Entity.level) := by
  obtain ⟨parent, hfrom, haround⟩ := h.laidOut
  rw [Entity.flatten_eq_cons] at hfrom
  exact ⟨parent, Option.some.inj (hn.symm.trans hfrom.node?), haround⟩

theorem mem_roots_iff :
    i ∈ (ofEntities es).roots ↔ ∃ n, (ofEntities es).node? i = some n ∧ n.parent = none := by
  rw [roots_eq_idsUnder, mem_idsUnder]
  constructor
  · rintro ⟨n, hn, hparent, rfl⟩
    exact ⟨n, node?_id_of_mem hn, hparent⟩
  · rintro ⟨n, hn, hparent⟩
    exact ⟨n, mem_nodes_of_node? hn, hparent, (numbered_ofEntities es).id_eq hn⟩

/-- A path of entities leads to every node. -/
theorem exists_reaches (hn : (ofEntities es).node? i = some n) :
    ∃ above e, Reaches (ofEntities es) es above e i := by
  -- a parent has a lower number, and the path to the parent goes on to the child
  induction i using Nat.strongRecOn generalizing n with
  | _ i ih =>
    cases hp : n.parent with
    | none =>
      have hroot : i ∈ Entity.firstIds 0 es := mem_roots_iff.mpr ⟨n, hn, hp⟩
      obtain ⟨k, e, hi, he⟩ := Entity.exists_of_mem_firstIds hroot
      exact ⟨[], e, .root hi he⟩
    | some p =>
      have hlt := parent_lt_of_node? hn hp
      obtain ⟨m, hm⟩ := exists_parent hn hp
      obtain ⟨above, e, hreach⟩ := ih p hlt hm
      obtain ⟨parent, rfl, -⟩ := hreach.node_eq hm
      have hchild : i ∈ Entity.firstIds (p + 1) e.children := (mem_children_iff hm).mpr ⟨n, hn, hp⟩
      obtain ⟨k, c, hi, hc⟩ := Entity.exists_of_mem_firstIds hchild
      exact ⟨above ++ [e], c, .child hreach hm hi hc⟩

/-- Where a node is reached, its entity is what the forest reads back there. -/
theorem Reaches.entity?_eq (h : Reaches (ofEntities es) es above e i) :
    (ofEntities es).entity? i = some e := by
  obtain ⟨parent, hfrom, -⟩ := h.laidOut
  exact entity?_of_hasFrom _ parent i e hfrom

/-- There is one path to a node only. -/
theorem Reaches.unique {above' : List Entity} {e' : Entity}
    (h : Reaches (ofEntities es) es above e i) (h' : Reaches (ofEntities es) es above' e' i) :
    above' = above ∧ e' = e := by
  refine ⟨?_, Option.some.inj (h'.entity?_eq.symm.trans h.entity?_eq)⟩
  -- both paths end in the node `i`, so they come from the same parent, or it is a root for both
  induction h generalizing above' e' with
  | @root k i e hi he =>
    obtain ⟨n, hn, hnone⟩ := mem_roots_iff.mp (List.mem_of_getElem? hi)
    cases h' with
    | root => rfl
    | child _ hm hj _ =>
      obtain ⟨n', hn', hsome⟩ := (mem_children_iff hm).mp (List.mem_of_getElem? hj)
      cases hn.symm.trans hn'
      cases hnone.symm.trans hsome
  | @child above e c m i j k h hm hj hc ih =>
    obtain ⟨n, hn, hsome⟩ := (mem_children_iff hm).mp (List.mem_of_getElem? hj)
    cases h' with
    | root hi' he' =>
      obtain ⟨n', hn', hnone⟩ := mem_roots_iff.mp (List.mem_of_getElem? hi')
      cases hn.symm.trans hn'
      cases hnone.symm.trans hsome
    | child h' hm' hj' hc' =>
      obtain ⟨n', hn', hsome'⟩ := (mem_children_iff hm').mp (List.mem_of_getElem? hj')
      cases hn.symm.trans hn'
      cases hsome.symm.trans hsome'
      rw [ih h', Option.some.inj (h'.entity?_eq.symm.trans h.entity?_eq)]

end Paths

/-! ## The way up -/

/-- From the parent `cursor` on, the way up ends with the segments `result` if it starts with
`segments`.  Nothing but the links between the nodes leads it. -/
inductive Climbs (f : Forest) : Option Nat → List String → List String → Prop
  | top (segments : List String) : Climbs f none segments segments
  | up {p : Nat} {m : Node} {segments result : List String} (hm : f.node? p = some m)
      (h : Climbs f m.parent
        (if m.decl.isScope && !m.name.isEmpty then segments ++ [m.name] else segments) result) :
      Climbs f (some p) segments result

/-- The names of the named scopes around a node, the innermost first. -/
def scopeNames (f : Forest) (n : Node) : List String :=
  ((f.ancestors n).filter fun a => a.decl.isScope && !a.name.isEmpty).map (·.name)

section Climbing

variable {es : List Entity} {n m : Node} {i p : Nat} {segments result : List String}

theorem climbs_none_iff {f : Forest} : f.Climbs none segments result ↔ result = segments := by
  constructor
  · intro h
    cases h
    rfl
  · rintro rfl
    exact .top _

theorem climbs_some_iff {f : Forest} (hm : f.node? p = some m) :
    f.Climbs (some p) segments result ↔
      f.Climbs m.parent
        (if m.decl.isScope && !m.name.isEmpty then segments ++ [m.name] else segments) result := by
  constructor
  · intro h
    cases h with
    | up hm' h =>
      cases hm.symm.trans hm'
      exact h
  · exact .up hm

/-- The way up ends, and the segments that it adds are the names of the named scopes. -/
theorem climbs_iff (hn : (ofEntities es).node? i = some n) :
    (ofEntities es).Climbs n.parent segments result ↔
      result = segments ++ (ofEntities es).scopeNames n := by
  induction i using Nat.strongRecOn generalizing n segments with
  | _ i ih =>
    have hancestors := (numbered_ofEntities es).ancestors_eq hn
    rw [scopeNames, hancestors, parent?]
    cases hp : n.parent with
    | none => rw [climbs_none_iff, Option.bind_none, List.filter_nil, List.map_nil, List.append_nil]
    | some p =>
      have hlt := parent_lt_of_node? hn hp
      obtain ⟨m, hm⟩ := exists_parent hn hp
      rw [climbs_some_iff hm, ih p hlt hm, Option.bind_some, hm]
      cases hscope : m.decl.isScope && !m.name.isEmpty with
      | true => simp [hscope, scopeNames]
      | false => simp [hscope, scopeNames]

/-- A qualified name has the segments of the way up, turned round. -/
theorem qualifiedName_eq_scopeNames (f : Forest) (n : Node) :
    f.qualifiedName n = "::".intercalate (n.name :: f.scopeNames n).reverse := by
  rw [List.reverse_cons]
  rfl

end Climbing

/-! ## Names of nodes and names on paths -/

section Along

variable {es above : List Entity} {e : Entity} {n : Node} {i : Nat}

/-- A node is called by the names along the path that leads to it. -/
theorem qualifiedName_of_reaches (h : Reaches (ofEntities es) es above e i)
    (hn : (ofEntities es).node? i = some n) :
    (ofEntities es).qualifiedName n = Entity.qualifiedNameBelow above e := by
  obtain ⟨parent, rfl, haround⟩ := h.node_eq hn
  rw [qualifiedName_eq_outline, ← Entity.qualify_levels, ← haround i (Nat.le_refl i)]
  rfl

/-- The qualified name of the node `n` with the number `i`, and the one path to it, which leads by
way of `above` to `e`. -/
structure QualifiedAlong (es : List Entity) (i : Nat) (n : Node) (above : List Entity)
    (e : Entity) : Prop where
  reaches_iff : ∀ above' e', Reaches (ofEntities es) es above' e' i ↔ above' = above ∧ e' = e
  parent_lt : ∀ p, n.parent = some p → p < i
  /-- The way up from the node ends, in one way, and the name is made from what it collects. -/
  climbs : ∃ segments, (∀ result, (ofEntities es).Climbs n.parent [n.name] result ↔
    result = segments) ∧ (ofEntities es).qualifiedName n = "::".intercalate segments.reverse
  /-- Namespaces and classes with a name count above `e`; `e` itself counts always. -/
  name_eq : (ofEntities es).qualifiedName n =
    "::".intercalate ((above.filter (·.Qualifies)).map (·.name) ++ [e.name])

/-- **The qualified name of a node** is read off the path to its entity. -/
theorem exists_qualifiedAlong (es : List Entity) (i : Nat) (n : Node)
    (hn : (ofEntities es).node? i = some n) : ∃ above e, QualifiedAlong es i n above e := by
  obtain ⟨above, e, hreach⟩ := exists_reaches hn
  refine ⟨above, e, ?_⟩
  constructor
  case reaches_iff =>
    intro above' e'
    constructor
    · exact hreach.unique
    · rintro ⟨rfl, rfl⟩
      exact hreach
  case parent_lt =>
    intro p hp
    exact parent_lt_of_node? hn hp
  case climbs =>
    exact ⟨_, fun result => climbs_iff hn, qualifiedName_eq_scopeNames _ n⟩
  case name_eq => exact qualifiedName_of_reaches hreach hn

/-- A method in a class, with an enumeration and a namespace without a name around the class. -/
def nestedMethod : List Entity :=
  [{ name := "Urho3D", decl := .nameSpace, children := [
    { name := "", decl := .nameSpace, children := [
      { name := "Kinds", decl := .other, children := [
        { name := "Node", decl := .classType false, children := [
          { name := "GetName", decl := .memberFunction {} }] }] }] }] }]

theorem exists_qualifiedAlong_nestedMethod :
    ∃ n, (ofEntities nestedMethod).node? 4 = some n ∧
      (∃ above e, QualifiedAlong nestedMethod 4 n above e) ∧
      (ofEntities nestedMethod).qualifiedName n = "Urho3D::Node::GetName" := by
  have hurho : Reaches (ofEntities nestedMethod) nestedMethod [] _ 0 := .root (k := 0) rfl rfl
  have hunnamed := Reaches.child (k := 0) hurho rfl rfl rfl
  have hkinds := Reaches.child (k := 0) hunnamed rfl rfl rfl
  have hnode := Reaches.child (k := 0) hkinds rfl rfl rfl
  have hmethod := Reaches.child (k := 0) hnode rfl rfl rfl
  obtain ⟨above, e, h⟩ := exists_qualifiedAlong nestedMethod 4 _ rfl
  obtain ⟨rfl, rfl⟩ := (h.reaches_iff _ _).mp hmethod
  exact ⟨_, rfl, ⟨_, _, h⟩, h.name_eq⟩

end Along

end Forest

end FlatApi
