import FlatApi.Proofs.Outline
import Mathlib.Logic.Relation

/-!
# The layout of a forest

* The children of a node are the nodes that have it as their parent, in order, and the roots are
  those that have none (`children_eq_idsUnder`, `roots_eq_idsUnder`).
* By following children the entities are read back (`entity?`, `mapM_entity?_roots`), and the
  number of a node is the place of its entity in the order of writing (`entity?_ofEntities`).
* A node and all nodes below it have consecutive numbers (`reaches_iff`).
-/

namespace FlatApi

open Forest (Node)

/-! ## Entities in the order of writing -/

namespace Entity

mutual

/-- An entity and all inside it, each before what it contains. -/
def preorder : Entity → List Entity
  | ⟨name, decl, access, children⟩ => ⟨name, decl, access, children⟩ :: preorderAll children

def preorderAll : List Entity → List Entity
  | [] => []
  | e :: es => preorder e ++ preorderAll es

end

mutual

theorem length_preorder : ∀ e : Entity, (preorder e).length = e.size
  | ⟨name, decl, access, children⟩ => by
    rw [preorder, size, List.length_cons, length_preorderAll children, Nat.add_comm]

theorem length_preorderAll : ∀ es : List Entity, (preorderAll es).length = sizeAll es
  | [] => rfl
  | e :: es => by
    rw [preorderAll, sizeAll, List.length_append, length_preorder e, length_preorderAll es]

end

end Entity

/-! ## Parents and children -/

namespace Forest

/-- The numbers of the nodes with the given parent. -/
def idsUnder (parent : Option Nat) (ns : List Node) : List Nat :=
  (ns.filter fun n => n.parent = parent).map (·.id)

section IdsUnder

variable {parent : Option Nat} {n : Node} {ns ms : List Node}

theorem idsUnder_append :
    idsUnder parent (ns ++ ms) = idsUnder parent ns ++ idsUnder parent ms := by
  rw [idsUnder, List.filter_append, List.map_append]
  rfl

theorem idsUnder_cons_of_ne (h : n.parent ≠ parent) :
    idsUnder parent (n :: ns) = idsUnder parent ns := by
  rw [idsUnder, List.filter_cons_of_neg (by simpa using h)]
  rfl

theorem idsUnder_eq_nil (h : ∀ n ∈ ns, n.parent ≠ parent) : idsUnder parent ns = [] := by
  rw [idsUnder, List.filter_eq_nil_iff.mpr (by simpa using h)]
  rfl

theorem mem_idsUnder {c : Nat} :
    c ∈ idsUnder parent ns ↔ ∃ n ∈ ns, n.parent = parent ∧ n.id = c := by
  simp only [idsUnder, List.mem_map, List.mem_filter, decide_eq_true_eq, and_assoc]

end IdsUnder

end Forest

namespace Entity

open Forest (idsUnder idsUnder_append idsUnder_cons_of_ne idsUnder_eq_nil)

section Ids

variable {parent : Option Nat} {id : Nat} {n : Node}

/-- The numbers of a part are a row from its first one on. -/
theorem id_of_mem_flatten {e : Entity} (h : n ∈ flatten parent id e) :
    id ≤ n.id ∧ n.id < id + e.size := by
  have hid : n.id ∈ (flatten parent id e).map (·.id) := List.mem_map_of_mem h
  rwa [ids_flatten, List.mem_range'_1] at hid

theorem id_of_mem_flattenAll {es : List Entity} (h : n ∈ flattenAll parent id es) :
    id ≤ n.id ∧ n.id < id + sizeAll es := by
  have hid : n.id ∈ (flattenAll parent id es).map (·.id) := List.mem_map_of_mem h
  rwa [ids_flattenAll, List.mem_range'_1] at hid

end Ids

/-- A parent that was written before the node with this number. -/
def Before (parent : Option Nat) (id : Nat) : Prop := ∀ p, parent = some p → p < id

section Under

variable {parent : Option Nat} {id : Nat}

theorem Before.mono {k : Nat} (h : Before parent id) (hk : id ≤ k) : Before parent k :=
  fun p hp => Nat.lt_of_lt_of_le (h p hp) hk

theorem before_none (id : Nat) : Before none id := fun _ hp => nomatch hp

theorem before_some (id : Nat) : Before (some id) (id + 1) := by
  intro p hp
  cases hp
  exact Nat.lt_succ_self id

theorem Before.ne_some {q : Nat} (h : Before parent id) (hq : id ≤ q) : parent ≠ some q := by
  intro hp
  have := h q hp
  omega

/-- What was laid out from `id` on has no parents with lower numbers but the one given. -/
theorem parent_ne_of_lt {n : Node} {q : Nat} (h : ParentBelow parent id n)
    (hparent : parent ≠ some q) (hq : q < id) : n.parent ≠ some q := by
  rcases h with h | ⟨p, h, hp, -⟩
  · rwa [h]
  · intro hn
    rw [h] at hn
    cases hn
    omega

/-- The parent of a node that is inside has a lower number than the node. -/
theorem parent_ne_of_le {n : Node} {q : Nat} (h : ParentBelow parent id n)
    (hparent : Before parent id) (hid : id ≤ n.id) (hq : n.id ≤ q) : n.parent ≠ some q := by
  rcases h with h | ⟨p, h, -, hp⟩
  · rw [h]
    exact hparent.ne_some (Nat.le_trans hid hq)
  · intro hn
    rw [h] at hn
    cases hn
    omega

/-- Only the siblings themselves have the parent of the siblings. -/
theorem idsUnder_flattenAll (es : List Entity) (h : Before parent id) :
    idsUnder parent (flattenAll parent id es) = firstIds id es := by
  induction es generalizing id with
  | nil => rfl
  | cons e es ih =>
    have hinside : idsUnder parent (flattenAll (some id) (id + 1) e.children) = [] := by
      apply idsUnder_eq_nil
      intro n hn hparent
      have hbelow := parentBelow_of_mem_flattenAll (some id) (id + 1) e.children hn
      rcases hbelow with hbelow | ⟨p, hbelow, hp, -⟩
      · exact h.ne_some (Nat.le_refl id) (hparent.symm.trans hbelow)
      · exact h.ne_some (by omega) (hparent.symm.trans hbelow)
    have hself : idsUnder parent (flatten parent id e) = [id] := by
      rw [flatten_eq_cons, idsUnder, List.filter_cons_of_pos (by simp [node]), List.map_cons]
      exact congrArg (id :: ·) hinside
    rw [flattenAll, firstIds, idsUnder_append, hself, ih (h.mono (Nat.le_add_right _ _))]
    rfl

mutual

theorem children_of_mem_flatten (parent : Option Nat) (id : Nat) (h : Before parent id)
    {n : Node} :
    ∀ e : Entity, n ∈ flatten parent id e → n.children = idsUnder (some n.id) (flatten parent id e)
  | ⟨name, decl, access, children⟩, hn => by
    rw [flatten_eq_cons] at hn ⊢
    rcases List.mem_cons.mp hn with rfl | hn
    · rw [idsUnder_cons_of_ne (h.ne_some (Nat.le_refl id))]
      exact (idsUnder_flattenAll children (before_some id)).symm
    · have hid := (id_of_mem_flattenAll hn).1
      rw [idsUnder_cons_of_ne (h.ne_some (by omega))]
      exact children_of_mem_flattenAll (some id) (id + 1) (before_some id) children hn

/-- The children of a node are those among the nodes that have it as their parent. -/
theorem children_of_mem_flattenAll (parent : Option Nat) (id : Nat) (h : Before parent id)
    {n : Node} :
    ∀ es : List Entity, n ∈ flattenAll parent id es →
      n.children = idsUnder (some n.id) (flattenAll parent id es)
  | e :: es, hn => by
    rw [flattenAll] at hn ⊢
    rw [idsUnder_append]
    -- no node on one side has its parent on the other
    rcases List.mem_append.mp hn with hn | hn
    · obtain ⟨hle, hlt⟩ := id_of_mem_flatten hn
      have hrest : idsUnder (some n.id) (flattenAll parent (id + e.size) es) = [] :=
        idsUnder_eq_nil fun m hm => parent_ne_of_lt
          (parentBelow_of_mem_flattenAll parent (id + e.size) es hm) (h.ne_some hle) hlt
      rw [hrest, List.append_nil, ← children_of_mem_flatten parent id h e hn]
    · have hle := (id_of_mem_flattenAll hn).1
      have hfront : idsUnder (some n.id) (flatten parent id e) = [] :=
        idsUnder_eq_nil fun m hm => by
          obtain ⟨hm₁, hm₂⟩ := id_of_mem_flatten hm
          exact parent_ne_of_le (parentBelow_of_mem_flatten parent id e hm) h hm₁ (by omega)
      rw [hfront, List.nil_append]
      exact children_of_mem_flattenAll parent (id + e.size) (h.mono (Nat.le_add_right _ _)) es hn

end

end Under

end Entity

namespace Forest

section Links

variable {es : List Entity} {i p : Nat} {n m : Node}

theorem mem_nodes_of_node? (h : (ofEntities es).node? i = some n) :
    n ∈ Entity.flattenAll none 0 es := by
  have hplace : (Entity.flattenAll none 0 es)[i]? = some n := by simpa [node?, ofEntities] using h
  exact List.mem_of_getElem? hplace

theorem node?_id_of_mem (h : n ∈ Entity.flattenAll none 0 es) :
    (ofEntities es).node? n.id = some n := by
  obtain ⟨i, hi⟩ := List.mem_iff_getElem?.mp h
  have hn : (ofEntities es).node? i = some n := by simpa [node?, ofEntities] using hi
  rwa [(numbered_ofEntities es).id_eq hn]

theorem children_eq_idsUnder (h : (ofEntities es).node? p = some m) :
    m.children = idsUnder (some p) (ofEntities es).nodes.toList := by
  rw [← (numbered_ofEntities es).id_eq h]
  exact Entity.children_of_mem_flattenAll none 0 (Entity.before_none 0) es (mem_nodes_of_node? h)

theorem roots_eq_idsUnder (es : List Entity) :
    (ofEntities es).roots = idsUnder none (ofEntities es).nodes.toList :=
  (Entity.idsUnder_flattenAll es (Entity.before_none 0)).symm

/-- Children and parents tell the same. -/
theorem mem_children_iff (hm : (ofEntities es).node? p = some m) {c : Nat} :
    c ∈ m.children ↔ ∃ n, (ofEntities es).node? c = some n ∧ n.parent = some p := by
  rw [children_eq_idsUnder hm, mem_idsUnder]
  constructor
  · rintro ⟨n, hn, hparent, rfl⟩
    exact ⟨n, node?_id_of_mem hn, hparent⟩
  · rintro ⟨n, hn, hparent⟩
    exact ⟨n, mem_nodes_of_node? hn, hparent, (numbered_ofEntities es).id_eq hn⟩

/-- Whatever has a parent finds it. -/
theorem exists_parent (hn : (ofEntities es).node? i = some n) (hp : n.parent = some p) :
    ∃ m, (ofEntities es).node? p = some m := by
  have hlt : p < (ofEntities es).nodes.size := by
    have hi := (Array.getElem?_eq_some_iff.mp hn).1
    have hpi := (numbered_ofEntities es).parent_lt hn hp
    rw [(numbered_ofEntities es).id_eq hn] at hpi
    exact Nat.lt_trans hpi hi
  exact ⟨_, Array.getElem?_eq_getElem hlt⟩

theorem pairwise_idsUnder (parent : Option Nat) (es : List Entity) :
    (idsUnder parent (ofEntities es).nodes.toList).Pairwise (· < ·) := by
  have hids : ((ofEntities es).nodes.toList.map (·.id)).Pairwise (· < ·) := by
    show ((Entity.flattenAll none 0 es).map (·.id)).Pairwise (· < ·)
    rw [Entity.ids_flattenAll]
    exact List.pairwise_lt_range'
  exact hids.sublist (List.filter_sublist.map _)

end Links

end Forest

/-! ## Reading entities back -/

theorem mapM_congr_of_mem {α β : Type} {g g' : α → Option β} {as : List α}
    (h : ∀ a ∈ as, g a = g' a) : as.mapM g = as.mapM g' := by
  have hrow : ∀ k : α → Option β, (as.map k).mapM id = as.mapM k := fun _ => List.mapM_map
  rw [← hrow g, ← hrow g', List.map_congr_left h]

namespace Forest

/-- The entity of a node, put together from the nodes that are reached through its children. -/
def entity? (f : Forest) (id : Nat) : Option Entity :=
  if id < f.size then
    match f.node? id with
    | none => none
    | some n => do
      let children ← n.children.mapM fun c => if id < c then f.entity? c else none
      return { name := n.name, decl := n.decl, access := n.access, children }
  else none
termination_by f.size - id

theorem entity?_of_node? {f : Forest} {id : Nat} {n : Node} (hlt : id < f.size)
    (hn : f.node? id = some n) :
    f.entity? id = (do
      let children ← n.children.mapM fun c => if id < c then f.entity? c else none
      return { name := n.name, decl := n.decl, access := n.access, children }) := by
  rw [entity?, if_pos hlt, hn]

mutual

/-- Where an entity was laid out, it is read back. -/
theorem entity?_of_hasFrom (f : Forest) (parent : Option Nat) (id : Nat) :
    ∀ e : Entity, f.HasFrom id (e.flatten parent id) → f.entity? id = some e
  | ⟨name, decl, access, children⟩, h => by
    rw [Entity.flatten_eq_cons] at h
    have hguard : (Entity.firstIds (id + 1) children).mapM
        (fun c => if id < c then f.entity? c else none) =
          (Entity.firstIds (id + 1) children).mapM f.entity? :=
      mapM_congr_of_mem fun c hc => if_pos (Entity.le_of_mem_firstIds hc)
    rw [entity?_of_node? h.lt_size h.node?]
    simp only [Entity.node, hguard, mapM_entity?_of_hasFrom f (some id) (id + 1) children h.tail]
    rfl

/-- Where a forest has entities, they are rebuilt as they were. -/
theorem mapM_entity?_of_hasFrom (f : Forest) (parent : Option Nat) (id : Nat) :
    ∀ es : List Entity, f.HasFrom id (Entity.flattenAll parent id es) →
      (Entity.firstIds id es).mapM f.entity? = some es
  | [], _ => rfl
  | e :: es, h => by
    rw [Entity.flattenAll] at h
    have hrest := h.right
    rw [Entity.length_flatten] at hrest
    rw [Entity.firstIds, List.mapM_cons, entity?_of_hasFrom f parent id e h.left,
      mapM_entity?_of_hasFrom f parent (id + e.size) es hrest]
    rfl

end

mutual

/-- The entities that are rebuilt are those of the part, in preorder. -/
theorem map_entity?_of_hasFrom (f : Forest) (parent : Option Nat) (id : Nat) :
    ∀ e : Entity, f.HasFrom id (e.flatten parent id) →
      (List.range' id e.size).map f.entity? = e.preorder.map some
  | ⟨name, decl, access, children⟩, h => by
    have hself := entity?_of_hasFrom f parent id ⟨name, decl, access, children⟩ h
    rw [Entity.flatten_eq_cons] at h
    rw [Entity.size, Nat.add_comm 1, List.range'_succ, List.map_cons, hself,
      mapAll_entity?_of_hasFrom f (some id) (id + 1) children h.tail]
    rfl

theorem mapAll_entity?_of_hasFrom (f : Forest) (parent : Option Nat) (id : Nat) :
    ∀ es : List Entity, f.HasFrom id (Entity.flattenAll parent id es) →
      (List.range' id (Entity.sizeAll es)).map f.entity? = (Entity.preorderAll es).map some
  | [], _ => rfl
  | e :: es, h => by
    rw [Entity.flattenAll] at h
    have hrest := h.right
    rw [Entity.length_flatten] at hrest
    rw [Entity.sizeAll, Entity.preorderAll, ← List.range'_append_1, List.map_append,
      List.map_append, map_entity?_of_hasFrom f parent id e h.left,
      mapAll_entity?_of_hasFrom f parent (id + e.size) es hrest]

end

section Whole

variable (es : List Entity)

theorem hasFrom_ofEntities : (ofEntities es).HasFrom 0 (Entity.flattenAll none 0 es) := by
  simp [HasFrom, ofEntities]

theorem size_ofEntities : (ofEntities es).size = (Entity.preorderAll es).length := by
  rw [Entity.length_preorderAll, ← Entity.length_flattenAll none 0 es]
  exact List.size_toArray

/-- The number of a node is the place of its entity in the order of writing. -/
theorem entity?_ofEntities (i : Nat) : (ofEntities es).entity? i = (Entity.preorderAll es)[i]? := by
  have hall := congrArg (·[i]?) (mapAll_entity?_of_hasFrom _ none 0 es (hasFrom_ofEntities es))
  have hsize := size_ofEntities es
  rw [Entity.length_preorderAll] at hsize
  simp only [List.getElem?_map] at hall
  by_cases hi : i < Entity.sizeAll es
  · rw [List.getElem?_range' hi] at hall
    obtain ⟨e, he, heq⟩ := Option.map_eq_some_iff.mp hall.symm
    rw [he, heq, Nat.one_mul, Nat.zero_add]
  · rw [List.getElem?_eq_none (by rw [Entity.length_preorderAll]; omega), entity?,
      if_neg (by omega)]

theorem mapM_entity?_roots : (ofEntities es).roots.mapM (ofEntities es).entity? = some es :=
  mapM_entity?_of_hasFrom _ none 0 es (hasFrom_ofEntities es)

end Whole

end Forest

/-! ## Nodes below a node -/

namespace Forest

/-- One node is directly inside the other. -/
def IsParent (f : Forest) (p c : Nat) : Prop := ∃ n, f.node? c = some n ∧ n.parent = some p

namespace HasFrom

variable {f : Forest} {id : Nat} {ns : List Node}

theorem node?_add (h : f.HasFrom id ns) {k : Nat} (hk : k < ns.length) :
    f.node? (id + k) = ns[k]? := by
  obtain ⟨rest, hrest⟩ := h
  rw [Forest.node?, ← Array.getElem?_toList, ← List.getElem?_drop, ← hrest,
    List.getElem?_append_left hk]

theorem mem_of_node? (h : f.HasFrom id ns) {i : Nat} {n : Node} (hn : f.node? i = some n)
    (hle : id ≤ i) (hlt : i < id + ns.length) : n ∈ ns := by
  obtain ⟨k, rfl⟩ := Nat.exists_eq_add_of_le hle
  rw [h.node?_add (by omega)] at hn
  exact List.mem_of_getElem? hn

theorem exists_node? (h : f.HasFrom id ns) {i : Nat} (hle : id ≤ i) (hlt : i < id + ns.length) :
    ∃ n, f.node? i = some n := by
  obtain ⟨k, rfl⟩ := Nat.exists_eq_add_of_le hle
  rw [h.node?_add (by omega)]
  exact ⟨_, List.getElem?_eq_getElem (by omega)⟩

end HasFrom

mutual

/-- A node among those of an entity stands for an entity of its own, which was laid out from the
number of the node on and whose events are a part of the events around it. -/
theorem exists_entity_of_mem_flatten (f : Forest) (parent : Option Nat) (id : Nat) {n : Node} :
    ∀ e : Entity, f.HasFrom id (e.flatten parent id) → n ∈ e.flatten parent id →
      ∃ parent' e', n = Entity.node parent' n.id e' ∧ f.HasFrom n.id (e'.flatten parent' n.id) ∧
        e'.tour parent' n.id <:+: e.tour parent id
  | ⟨name, decl, access, children⟩, h, hn => by
    have hself := h
    rw [Entity.flatten_eq_cons] at h hn
    rcases List.mem_cons.mp hn with rfl | hn
    · exact ⟨parent, _, rfl, hself, List.infix_refl _⟩
    · obtain ⟨parent', e', heq, hfrom, htour⟩ :=
        exists_entity_of_mem_flattenAll f (some id) (id + 1) children h.tail hn
      refine ⟨parent', e', heq, hfrom, ?_⟩
      cases hc : (Entity.node parent id ⟨name, decl, access, children⟩).isContainer with
      | true =>
        rw [Entity.tour_of_container hc]
        exact htour.trans ⟨[_], [_], rfl⟩
      | false =>
        have hnone : children = [] := Entity.children_of_leaf hc
        rw [hnone] at hn
        cases hn

/-- Each node is the first one of the part of an entity, and the tour goes through this part in one
piece. -/
theorem exists_entity_of_mem_flattenAll (f : Forest) (parent : Option Nat) (id : Nat)
    {n : Node} :
    ∀ es : List Entity, f.HasFrom id (Entity.flattenAll parent id es) →
      n ∈ Entity.flattenAll parent id es →
      ∃ parent' e', n = Entity.node parent' n.id e' ∧ f.HasFrom n.id (e'.flatten parent' n.id) ∧
        e'.tour parent' n.id <:+: Entity.tourAll parent id es
  | e :: es, h, hn => by
    rw [Entity.flattenAll] at h hn
    rw [Entity.tourAll]
    rcases List.mem_append.mp hn with hn | hn
    · obtain ⟨parent', e', heq, hfrom, htour⟩ :=
        exists_entity_of_mem_flatten f parent id e h.left hn
      exact ⟨parent', e', heq, hfrom, htour.trans (List.prefix_append _ _).isInfix⟩
    · have hrest := h.right
      rw [Entity.length_flatten] at hrest
      obtain ⟨parent', e', heq, hfrom, htour⟩ :=
        exists_entity_of_mem_flattenAll f parent (id + e.size) es hrest hn
      exact ⟨parent', e', heq, hfrom, htour.trans (List.suffix_append _ _).isInfix⟩

end

section Reach

variable {es : List Entity} {parent : Option Nat} {i j : Nat} {e : Entity}

theorem before_of_hasFrom (h : (ofEntities es).HasFrom i (e.flatten parent i)) :
    Entity.Before parent i := by
  intro p hp
  rw [Entity.flatten_eq_cons] at h
  exact (numbered_ofEntities es).parent_lt h.node? hp

/-- The nodes of an entity are closed under children. -/
theorem lt_of_isParent (h : (ofEntities es).HasFrom i (e.flatten parent i)) {p c : Nat}
    (hi : i ≤ p) (hp : p < i + e.size) (hc : (ofEntities es).IsParent p c) : c < i + e.size := by
  have hlen : (e.flatten parent i).length = e.size := Entity.length_flatten parent i e
  obtain ⟨m, hm⟩ := h.exists_node? hi (by omega)
  have hmem : m ∈ e.flatten parent i := h.mem_of_node? hm hi (by omega)
  have hchild : c ∈ m.children := (mem_children_iff hm).mpr hc
  rw [Entity.children_of_mem_flatten parent i (before_of_hasFrom h) e hmem, mem_idsUnder] at hchild
  obtain ⟨n, hn, -, rfl⟩ := hchild
  exact (Entity.id_of_mem_flatten hn).2

/-- A node inside an entity has its parent there. -/
theorem exists_isParent (h : (ofEntities es).HasFrom i (e.flatten parent i)) (hi : i < j)
    (hj : j < i + e.size) : ∃ p, i ≤ p ∧ p < j ∧ (ofEntities es).IsParent p j := by
  have hlen : (e.flatten parent i).length = e.size := Entity.length_flatten parent i e
  obtain ⟨n, hn⟩ := h.exists_node? (Nat.le_of_lt hi) (by omega)
  have hid : n.id = j := (numbered_ofEntities es).id_eq hn
  have hmem : n ∈ e.flatten parent i := h.mem_of_node? hn (Nat.le_of_lt hi) (by omega)
  rw [Entity.flatten_eq_cons] at hmem
  rcases List.mem_cons.mp hmem with rfl | hmem
  · exact absurd hid (Nat.ne_of_lt hi)
  · rcases Entity.parentBelow_of_mem_flattenAll (some i) (i + 1) e.children hmem with
      hp | ⟨p, hp, hip, hlt⟩
    · exact ⟨i, Nat.le_refl i, hi, n, hn, hp⟩
    · exact ⟨p, by omega, by omega, n, hn, hp⟩

/-- A node and the nodes below it have the numbers of the entity that was laid out there. -/
theorem reaches_iff (h : (ofEntities es).HasFrom i (e.flatten parent i)) :
    Relation.ReflTransGen (ofEntities es).IsParent i j ↔ i ≤ j ∧ j < i + e.size := by
  constructor
  · intro hreach
    induction hreach with
    | refl =>
      have hpos : 0 < e.size := by
        rw [← Entity.length_flatten parent i e, Entity.flatten_eq_cons]
        exact Nat.succ_pos _
      omega
    | tail _ hc ih =>
      obtain ⟨n, hn, hp⟩ := hc
      have hlt := (numbered_ofEntities es).parent_lt hn hp
      rw [(numbered_ofEntities es).id_eq hn] at hlt
      exact ⟨by omega, lt_of_isParent h ih.1 ih.2 ⟨n, hn, hp⟩⟩
  · -- from parent to parent the numbers go down to `i`
    induction j using Nat.strongRecOn with
    | _ j ih =>
      rintro ⟨hi, hj⟩
      rcases Nat.eq_or_lt_of_le hi with rfl | hi
      · exact .refl
      · obtain ⟨p, hip, hpj, hparent⟩ := exists_isParent h hi hj
        exact (ih p hpj ⟨hip, by omega⟩).tail hparent

end Reach

/-- The entity that is read back from a node was laid out there. -/
theorem hasFrom_of_entity? {es : List Entity} {i : Nat} {e : Entity}
    (h : (ofEntities es).entity? i = some e) :
    ∃ parent, (ofEntities es).HasFrom i (e.flatten parent i) := by
  by_cases hi : i < (ofEntities es).size
  · have hn : (ofEntities es).node? i = some (ofEntities es).nodes[i] :=
      Array.getElem?_eq_getElem hi
    obtain ⟨parent, e', -, hfrom, -⟩ := exists_entity_of_mem_flattenAll _ none 0 es
      (hasFrom_ofEntities es) (mem_nodes_of_node? hn)
    rw [(numbered_ofEntities es).id_eq hn] at hfrom
    rw [entity?_of_hasFrom _ parent i e' hfrom] at h
    cases h
    exact ⟨parent, hfrom⟩
  · rw [entity?, if_neg hi] at h
    cases h

end Forest

end FlatApi
