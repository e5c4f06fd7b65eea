import FlatApi.Proofs.Layout

/-!
# Flattening loses nothing

A forest can be grown in place.  A node is pushed before the nodes inside it, and each of these
writes its number into the children of the node around it once everything inside is pushed
(`growAll`).  However far the row of nodes has grown by then, the result is the forest that is laid
out from the sizes of the entities (`growAll_eq_ofEntities`).

`laidOut_ofEntities` says what such a forest holds: numbers, links and all that was written.
-/

namespace FlatApi

open Forest (Node)

/-! ## Growing a forest -/

namespace Forest

/-- Pushes a node that has no children yet. -/
def push (f : Forest) (parent : Option Nat) (name : String) (decl : Declaration)
    (access : Access) : Forest :=
  { f with nodes := f.nodes.push { id := f.size, name, decl, access, parent, children := [] } }

def Node.addChildren (ids : List Nat) (n : Node) : Node := { n with children := n.children ++ ids }

/-- Writes a number behind the children of the node `p`. -/
def link (f : Forest) (p c : Nat) : Forest :=
  { f with nodes := f.nodes.modify p (·.addChildren [c]) }

mutual

/-- Pushes an entity and all inside it; its own number is the size of the forest before. -/
def grow (f : Forest) (parent : Option Nat) : Entity → Forest
  | ⟨name, decl, access, children⟩ => growInside (f.push parent name decl access) f.size children

def growInside (f : Forest) (p : Nat) : List Entity → Forest
  | [] => f
  | e :: es => growInside ((f.grow (some p) e).link p f.size) p es

end

/-- Pushes entities that are inside nothing. -/
def growAll (f : Forest) : List Entity → Forest
  | [] => f
  | e :: es => growAll { f.grow none e with roots := f.roots ++ [f.size] } es

section Modify

variable {α : Type}

theorem modify_append_of_lt (g : α → α) (ys : List α) :
    ∀ {xs : List α} {i : Nat}, i < xs.length → (xs ++ ys).modify i g = xs.modify i g ++ ys
  | x :: xs, 0, _ => rfl
  | x :: xs, i + 1, h => by
    rw [List.cons_append, List.modify_succ_cons, List.modify_succ_cons,
      modify_append_of_lt g ys (Nat.lt_of_succ_lt_succ h), List.cons_append]

theorem modify_concat (g : α → α) (x : α) :
    ∀ xs : List α, (xs ++ [x]).modify xs.length g = xs ++ [g x]
  | [] => rfl
  | y :: xs => by
    rw [List.cons_append, List.length_cons, List.modify_succ_cons, modify_concat g x xs,
      List.cons_append]

end Modify

theorem addChildren_comp (ids : List Nat) (c : Nat) :
    Node.addChildren ids ∘ Node.addChildren [c] = Node.addChildren (c :: ids) := by
  funext n
  simp [Node.addChildren]

mutual

/-- What an entity adds to the nodes. -/
theorem nodes_grow (f : Forest) (parent : Option Nat) :
    ∀ e : Entity, (f.grow parent e).nodes.toList =
      f.nodes.toList ++ e.flatten parent f.size
  | ⟨name, decl, access, children⟩ => by
    have hsize : (f.push parent name decl access).size = f.size + 1 := Array.size_push _
    have hlast : f.size = f.nodes.toList.length := rfl
    rw [grow, nodes_growInside (f.push parent name decl access) f.size children (by omega),
      hsize, push, Array.toList_push, hlast, modify_concat, List.append_assoc, Entity.flatten]
    rfl

/-- What siblings add, of which the one around them learns the numbers. -/
theorem nodes_growInside (f : Forest) (p : Nat) :
    ∀ es : List Entity, p < f.size → (growInside f p es).nodes.toList =
      f.nodes.toList.modify p (Node.addChildren (Entity.firstIds f.size es)) ++
        Entity.flattenAll (some p) f.size es
  | [], _ => by
    have hid : Node.addChildren [] = id := by
      funext n
      simp [Node.addChildren]
    rw [growInside, Entity.firstIds, Entity.flattenAll, hid, List.modify_id, List.append_nil]
  | e :: es, hp => by
    have hlen : p < f.nodes.toList.length := hp
    have hnodes : ((f.grow (some p) e).link p f.size).nodes.toList =
        f.nodes.toList.modify p (Node.addChildren [f.size]) ++ e.flatten (some p) f.size := by
      rw [link, Array.toList_modify, nodes_grow f (some p) e, modify_append_of_lt _ _ hlen]
    have hsize : ((f.grow (some p) e).link p f.size).size = f.size + e.size := by
      rw [size, ← Array.length_toList, hnodes, List.length_append, List.length_modify,
        Entity.length_flatten, Array.length_toList]
      rfl
    rw [growInside, nodes_growInside _ p es (by omega), hnodes, hsize,
      modify_append_of_lt _ _ (by rwa [List.length_modify]), List.modify_modify_eq,
      addChildren_comp, List.append_assoc, Entity.firstIds, Entity.flattenAll]

end

mutual

/-- What grows below a parent is no root. -/
theorem roots_grow (f : Forest) (parent : Option Nat) :
    ∀ e : Entity, (f.grow parent e).roots = f.roots
  | ⟨name, decl, access, children⟩ => by
    rw [grow, roots_growInside _ f.size children]
    rfl

theorem roots_growInside (f : Forest) (p : Nat) :
    ∀ es : List Entity, (growInside f p es).roots = f.roots
  | [] => rfl
  | e :: es => by
    rw [growInside, roots_growInside _ p es]
    exact roots_grow f (some p) e

end

theorem growAll_eq (es : List Entity) : ∀ f : Forest, f.growAll es =
    { nodes := (f.nodes.toList ++ Entity.flattenAll none f.size es).toArray
      roots := f.roots ++ Entity.firstIds f.size es } := by
  induction es with
  | nil =>
    intro f
    simp [growAll, Entity.flattenAll, Entity.firstIds]
  | cons e es ih =>
    intro f
    have hsize : (f.grow none e).nodes.size = f.size + e.size := by
      rw [← Array.length_toList, nodes_grow, List.length_append, Entity.length_flatten,
        Array.length_toList]
      rfl
    rw [growAll, ih]
    simp only [size] at hsize ⊢
    rw [hsize, nodes_grow, Entity.flattenAll, Entity.firstIds, List.append_assoc,
      List.append_assoc]
    rfl

/-- A forest that is grown from nothing is laid out by sizes. -/
theorem growAll_eq_ofEntities (es : List Entity) :
    growAll { nodes := #[], roots := [] } es = ofEntities es := by
  rw [growAll_eq]
  rfl

end Forest

/-! ## What a forest holds -/

/-- The forest is the flat form of the entities. -/
structure Forest.LaidOut (f : Forest) (es : List Entity) : Prop where
  /-- The nodes can be pushed one by one. -/
  grown : f = growAll { nodes := #[], roots := [] } es
  id_eq : ∀ {i n}, f.node? i = some n → n.id = i
  size_eq : f.size = (Entity.preorderAll es).length
  /-- A node stands for the entity of its place in the order of writing. -/
  entity?_eq : ∀ i, f.entity? i = (Entity.preorderAll es)[i]?
  parent_iff : ∀ {i n p}, f.node? i = some n →
    (n.parent = some p ↔ ∃ m, f.node? p = some m ∧ i ∈ m.children)
  children_nodup : ∀ {p m}, f.node? p = some m → m.children.Nodup
  children_rising : ∀ {p m}, f.node? p = some m → m.children.Pairwise (· < ·)
  children_above : ∀ {p m c}, f.node? p = some m → c ∈ m.children → p < c ∧ c < f.size
  roots_eq : f.roots = idsUnder none f.nodes.toList
  /-- A node and those below it have consecutive numbers, as many as there are entities. -/
  below_iff : ∀ {i e}, f.entity? i = some e → ∀ j,
    Relation.ReflTransGen f.IsParent i j ↔ i ≤ j ∧ j < i + e.preorder.length
  /-- From the roots on, all that was written is read back. -/
  entities : f.roots.mapM f.entity? = some es

/-- **Flattening loses nothing.** -/
theorem Forest.laidOut_ofEntities (es : List Entity) : (ofEntities es).LaidOut es where
  grown := (growAll_eq_ofEntities es).symm
  id_eq := (numbered_ofEntities es).id_eq
  size_eq := size_ofEntities es
  entity?_eq := entity?_ofEntities es
  parent_iff := by
    intro i n p hn
    constructor
    · intro hp
      obtain ⟨m, hm⟩ := exists_parent hn hp
      exact ⟨m, hm, (mem_children_iff hm).mpr ⟨n, hn, hp⟩⟩
    · rintro ⟨m, hm, hi⟩
      obtain ⟨n', hn', hp⟩ := (mem_children_iff hm).mp hi
      rw [hn] at hn'
      cases hn'
      exact hp
  children_nodup := by
    intro p m hm
    rw [children_eq_idsUnder hm]
    exact (pairwise_idsUnder (some p) es).imp Nat.ne_of_lt
  children_rising := by
    intro p m hm
    rw [children_eq_idsUnder hm]
    exact pairwise_idsUnder (some p) es
  children_above := by
    intro p m c hm hc
    obtain ⟨n, hn, hp⟩ := (mem_children_iff hm).mp hc
    have hlt := (numbered_ofEntities es).parent_lt hn hp
    rw [(numbered_ofEntities es).id_eq hn] at hlt
    exact ⟨hlt, (Array.getElem?_eq_some_iff.mp hn).1⟩
  roots_eq := roots_eq_idsUnder es
  below_iff := by
    intro i e he j
    obtain ⟨parent, hfrom⟩ := hasFrom_of_entity? he
    rw [Entity.length_preorder]
    exact reaches_iff hfrom
  entities := mapM_entity?_roots es

end FlatApi
