import FlatApi.Proofs.Walk

/-!
# Nodes without their numbers

A node finds those around it by their numbers.  Its outline has their names and declarations at
hand instead, the innermost first, and leaves out numbers and children.

* A node has the number of its place, and its parent has a lower one (`numbered_ofEntities`), so
  going from parent to parent ends and passes everything that is around a node (`ancestors_eq`).
* The outlines of all nodes are read off the entities as they are written
  (`outlines_ofEntities`).
* Qualified names and parents are read off outlines (`qualifiedName_eq_outline`,
  `parent?_eq_outline`).

What depends on outlines alone is therefore the same in two forests wherever their entities are,
no matter how they are numbered.
-/

namespace FlatApi

open Forest (Node)

/-! ## Outlines -/

/-- What a node is for those inside it. -/
structure Level where
  name : String
  decl : Declaration
  deriving DecidableEq

namespace Level

/-- Levels that qualify the names of what they contain. -/
def isNamedScope (l : Level) : Bool := l.decl.isScope && !l.name.isEmpty

/-- A name behind those of the scopes around it, of which the innermost comes first. -/
def qualify (around : List Level) (name : String) : String :=
  "::".intercalate (((around.filter isNamedScope).map (·.name)).reverse ++ [name])

end Level

structure Outline where
  name : String
  decl : Declaration
  access : Access
  /-- The innermost first. -/
  around : List Level
  deriving DecidableEq

namespace Outline

def qualifiedName (o : Outline) : String := Level.qualify o.around o.name

/-- What a node is directly inside, with its qualified name. -/
def parent? (o : Outline) : Option (Level × String) :=
  match o.around with
  | [] => none
  | l :: outer => some (l, Level.qualify outer l.name)

end Outline

namespace Entity

mutual

/-- The outlines of an entity and of all inside it, in the order in which they are written. -/
def outlines (around : List Level) : Entity → List Outline
  | ⟨name, decl, access, children⟩ =>
    ⟨name, decl, access, around⟩ :: outlinesAll (⟨name, decl⟩ :: around) children

def outlinesAll (around : List Level) : List Entity → List Outline
  | [] => []
  | e :: es => outlines around e ++ outlinesAll around es

end

end Entity

namespace Forest

def Node.level (n : Node) : Level := ⟨n.name, n.decl⟩

def outline (f : Forest) (n : Node) : Outline :=
  { name := n.name, decl := n.decl, access := n.access,
    around := (f.ancestors n).map Node.level }

end Forest

/-! ## Numbers -/

namespace Entity

mutual

theorem ids_flatten (parent : Option Nat) (id : Nat) :
    ∀ e : Entity, (flatten parent id e).map (·.id) = List.range' id e.size
  | ⟨name, decl, access, children⟩ => by
    rw [flatten, size, Nat.add_comm 1 (sizeAll children), List.range'_succ, List.map_cons,
      ids_flattenAll (some id) (id + 1) children]

theorem ids_flattenAll (parent : Option Nat) (id : Nat) :
    ∀ es : List Entity, (flattenAll parent id es).map (·.id) = List.range' id (sizeAll es)
  | [] => rfl
  | e :: es => by
    rw [flattenAll, sizeAll, List.map_append, ids_flatten parent id e,
      ids_flattenAll parent (id + e.size) es, List.range'_append_1]

end

/-- The parent of a node is the one that is given, or a node of the same entities. -/
def ParentBelow (parent : Option Nat) (id : Nat) (n : Node) : Prop :=
  n.parent = parent ∨ ∃ p, n.parent = some p ∧ id ≤ p ∧ p < n.id

theorem ParentBelow.inside {parent : Option Nat} {id : Nat} {n : Node} (hid : id < n.id)
    (h : ParentBelow (some id) (id + 1) n) : ParentBelow parent id n := by
  rcases h with h | ⟨p, h, hp, hlt⟩
  · exact Or.inr ⟨id, h, Nat.le_refl id, hid⟩
  · exact Or.inr ⟨p, h, by omega, hlt⟩

theorem ParentBelow.behind {parent : Option Nat} {id k : Nat} {n : Node}
    (h : ParentBelow parent (id + k) n) : ParentBelow parent id n := by
  rcases h with h | ⟨p, h, hp, hlt⟩
  · exact Or.inl h
  · exact Or.inr ⟨p, h, by omega, hlt⟩

theorem le_id_of_mem_flattenAll {parent : Option Nat} {id : Nat} {es : List Entity} {n : Node}
    (h : n ∈ flattenAll parent id es) : id ≤ n.id := by
  have hid : n.id ∈ (flattenAll parent id es).map (·.id) := List.mem_map_of_mem h
  rw [ids_flattenAll] at hid
  exact (List.mem_range'_1.mp hid).1

mutual

/-- Inside a part parents are above their children, or around the whole part. -/
theorem parentBelow_of_mem_flatten (parent : Option Nat) (id : Nat) {n : Node} :
    ∀ e : Entity, n ∈ flatten parent id e → ParentBelow parent id n
  | ⟨name, decl, access, children⟩, h => by
    rw [flatten] at h
    rcases List.mem_cons.mp h with rfl | h
    · exact Or.inl rfl
    · exact ParentBelow.inside (le_id_of_mem_flattenAll h)
        (parentBelow_of_mem_flattenAll (some id) (id + 1) children h)

theorem parentBelow_of_mem_flattenAll (parent : Option Nat) (id : Nat) {n : Node} :
    ∀ es : List Entity, n ∈ flattenAll parent id es → ParentBelow parent id n
  | e :: es, h => by
    rw [flattenAll] at h
    rcases List.mem_append.mp h with h | h
    · exact parentBelow_of_mem_flatten parent id e h
    · exact (parentBelow_of_mem_flattenAll parent (id + e.size) es h).behind

end

end Entity

namespace Forest

/-- The numbers in a forest: each node has that of its place, and its parent has a lower one. -/
structure Numbered (f : Forest) : Prop where
  id_eq : ∀ {i : Nat} {n : Node}, f.node? i = some n → n.id = i
  parent_lt : ∀ {i : Nat} {n : Node} {p : Nat}, f.node? i = some n → n.parent = some p → p < n.id

/-- Forests of entities are numbered in preorder. -/
theorem numbered_ofEntities (es : List Entity) : (ofEntities es).Numbered := by
  constructor
  · intro i n h
    have hplace : (Entity.flattenAll none 0 es)[i]? = some n := by simpa [node?, ofEntities] using h
    have hid : ((Entity.flattenAll none 0 es).map (·.id))[i]? = some n.id := by
      rw [List.getElem?_map, hplace]
      rfl
    rw [Entity.ids_flattenAll] at hid
    obtain ⟨hlt, hid⟩ := List.getElem?_eq_some_iff.mp hid
    rw [List.getElem_range', Nat.zero_add, Nat.one_mul] at hid
    exact hid.symm
  · intro i n p h hp
    have hmem : n ∈ Entity.flattenAll none 0 es := by
      have hplace : (Entity.flattenAll none 0 es)[i]? = some n := by
        simpa [node?, ofEntities] using h
      exact List.mem_of_getElem? hplace
    rcases Entity.parentBelow_of_mem_flattenAll none 0 es hmem with hnone | ⟨q, hq, -, hlt⟩
    · rw [hp] at hnone
      cases hnone
    · rw [hp] at hq
      cases hq
      exact hlt

variable {f : Forest} {n : Node}

/-- The nodes around a node are its parent and those around the parent. -/
theorem Numbered.ancestors_eq (h : f.Numbered) {i : Nat} (hn : f.node? i = some n) :
    f.ancestors n =
      match f.parent? n with
      | none => []
      | some c => c :: f.ancestors c := by
  rw [ancestors, parent?]
  cases hp : n.parent with
  | none =>
    rw [around]
    rfl
  | some p =>
    rw [around, if_pos (h.parent_lt hn hp), Option.bind_some]
    cases hc : f.node? p with
    | none => rfl
    | some c => simp only [ancestors, h.id_eq hc]

/-! ## Outlines of entities -/

/-- Below the number `id`, these levels are around what has this parent. -/
def HasAround (f : Forest) (id : Nat) (parent : Option Nat) (levels : List Level) : Prop :=
  ∀ j, id ≤ j → (f.around j parent).map Node.level = levels

theorem HasAround.mono {id k : Nat} {parent : Option Nat} {levels : List Level}
    (h : f.HasAround id parent levels) : f.HasAround (id + k) parent levels :=
  fun j hj => h j (by omega)

/-- Inside a node, the node itself is the innermost level. -/
theorem HasAround.inside {id : Nat} {levels : List Level} (h : f.HasAround id n.parent levels)
    (hn : f.node? id = some n) :
    f.HasAround (id + 1) (some id) (n.level :: levels) := by
  intro j hj
  -- the bound `j` drops to `id` on the way from the node to what is around it
  have hlt : id < j := by omega
  rw [around, if_pos hlt]
  simp only [hn, List.map_cons, h id (Nat.le_refl id)]

mutual

/-- Where an entity was laid out, its nodes have its outlines. -/
theorem outlines_of_hasFrom (f : Forest) (parent : Option Nat) (id : Nat) (levels : List Level) :
    ∀ e : Entity, f.HasFrom id (e.flatten parent id) → f.HasAround id parent levels →
      (e.flatten parent id).map f.outline = e.outlines levels
  | ⟨name, decl, access, children⟩, hfrom, haround => by
    rw [Entity.flatten_eq_cons] at hfrom ⊢
    have hself : f.outline (Entity.node parent id ⟨name, decl, access, children⟩) =
        ⟨name, decl, access, levels⟩ := by
      simp only [outline, ancestors, Entity.node, haround id (Nat.le_refl id)]
    have hinside := HasAround.inside (n := Entity.node parent id _) haround hfrom.node?
    rw [Entity.outlines, List.map_cons, hself,
      outlinesAll_of_hasFrom f (some id) (id + 1) _ children hfrom.tail hinside]
    rfl

theorem outlinesAll_of_hasFrom (f : Forest) (parent : Option Nat) (id : Nat)
    (levels : List Level) :
    ∀ es : List Entity, f.HasFrom id (Entity.flattenAll parent id es) →
      f.HasAround id parent levels →
      (Entity.flattenAll parent id es).map f.outline = Entity.outlinesAll levels es
  | [], _, _ => rfl
  | e :: es, hfrom, haround => by
    rw [Entity.flattenAll] at hfrom
    have hrest := hfrom.right
    rw [Entity.length_flatten] at hrest
    rw [Entity.flattenAll, Entity.outlinesAll, List.map_append,
      outlines_of_hasFrom f parent id levels e hfrom.left haround,
      outlinesAll_of_hasFrom f parent (id + e.size) levels es hrest haround.mono]

end

/-- The outlines of the nodes, in the order of their numbers, are those of the entities. -/
theorem outlines_ofEntities (es : List Entity) :
    (ofEntities es).nodes.toList.map (ofEntities es).outline = Entity.outlinesAll [] es := by
  have hfrom : (ofEntities es).HasFrom 0 (Entity.flattenAll none 0 es) := by
    simp [HasFrom, ofEntities]
  have haround : (ofEntities es).HasAround 0 none [] := by
    intro j _
    rw [around]
    rfl
  exact outlinesAll_of_hasFrom (ofEntities es) none 0 [] es hfrom haround

/-! ## What outlines tell -/

theorem qualifiedName_eq_outline (f : Forest) (n : Node) :
    f.qualifiedName n = (f.outline n).qualifiedName := by
  rw [qualifiedName, Outline.qualifiedName, Level.qualify, outline, List.filter_map, List.map_map]
  rfl

/-- What is used of the parent is told by the outline. -/
theorem Numbered.parent?_eq_outline (h : f.Numbered) {i : Nat} (hn : f.node? i = some n) :
    (f.parent? n).map (fun c => (c.level, f.qualifiedName c)) = (f.outline n).parent? := by
  rw [outline, Outline.parent?, h.ancestors_eq hn]
  cases f.parent? n with
  | none => rfl
  | some c =>
    simp only [Option.map_some, List.map_cons, qualifiedName_eq_outline]
    rfl

end Forest

end FlatApi
