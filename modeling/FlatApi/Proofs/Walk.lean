import FlatApi.Forest

/-!
# The walk of a laid out forest

* The events that a walk finds by following numbers are those of the entities as they are written
  (`events_ofEntities`).
* The nodes that a walk comes to, each when it is passed first, are all nodes in the order of
  their numbers (`reached_events`).

Whoever handles a node when it is reached and ignores what is left therefore handles the list of
nodes.
-/

namespace FlatApi

open Forest (Node Event)

/-! ## Sizes -/

namespace Entity

mutual

theorem length_flatten (parent : Option Nat) (id : Nat) :
    ∀ e : Entity, (flatten parent id e).length = e.size
  | ⟨name, decl, access, children⟩ => by
    rw [flatten, size, List.length_cons, length_flattenAll (some id) (id + 1) children,
      Nat.add_comm]

theorem length_flattenAll (parent : Option Nat) (id : Nat) :
    ∀ es : List Entity, (flattenAll parent id es).length = sizeAll es
  | [] => rfl
  | e :: es => by
    rw [flattenAll, sizeAll, List.length_append, length_flatten parent id e,
      length_flattenAll parent (id + e.size) es]

end

/-- Siblings are numbered from the number of the first one on. -/
theorem le_of_mem_firstIds {es : List Entity} : ∀ {id c : Nat}, c ∈ firstIds id es → id ≤ c := by
  induction es with
  | nil =>
    intro id c hc
    cases hc
  | cons e es ih =>
    intro id c hc
    rcases List.mem_cons.mp hc with rfl | hc
    · exact Nat.le_refl _
    · exact Nat.le_trans (Nat.le_add_right id e.size) (ih hc)

/-! ## The events of entities -/

/-- The node that an entity itself becomes. -/
def node (parent : Option Nat) (id : Nat) (e : Entity) : Node :=
  { id, name := e.name, decl := e.decl, access := e.access, parent,
    children := firstIds (id + 1) e.children }

mutual

/-- The events of an entity with the number `id`, as it is written. -/
def tour (parent : Option Nat) (id : Nat) : Entity → List (Node × Event)
  | ⟨name, decl, access, children⟩ =>
    let n := node parent id ⟨name, decl, access, children⟩
    if n.isContainer then (n, .enter) :: tourAll (some id) (id + 1) children ++ [(n, .leave)]
    else [(n, .leaf)]

def tourAll (parent : Option Nat) (id : Nat) : List Entity → List (Node × Event)
  | [] => []
  | e :: es => tour parent id e ++ tourAll parent (id + e.size) es

end

/-- An entity comes before its children. -/
theorem flatten_eq_cons (parent : Option Nat) (id : Nat) (e : Entity) :
    flatten parent id e =
      node parent id e :: flattenAll (some id) (id + 1) e.children := by
  cases e
  rw [flatten]
  rfl

/-- A container is entered before its children and left behind them. -/
theorem tour_of_container {parent : Option Nat} {id : Nat} {e : Entity}
    (h : (node parent id e).isContainer = true) :
    tour parent id e = (node parent id e, .enter) :: tourAll (some id) (id + 1) e.children ++
      [(node parent id e, .leave)] := by
  cases e
  rw [tour]
  exact if_pos h

theorem tour_of_leaf {parent : Option Nat} {id : Nat} {e : Entity}
    (h : (node parent id e).isContainer = false) :
    tour parent id e = [(node parent id e, .leaf)] := by
  cases e
  rw [tour]
  exact if_neg (by rw [h]; exact Bool.false_ne_true)

/-- What is no container has no children. -/
theorem children_of_leaf {parent : Option Nat} {id : Nat} {e : Entity}
    (h : (node parent id e).isContainer = false) : e.children = [] := by
  simp only [Node.isContainer, node, Bool.or_eq_false_iff, Bool.not_eq_false',
    List.isEmpty_iff] at h
  cases hc : e.children with
  | nil => rfl
  | cons c cs =>
    rw [hc] at h
    cases h.2

end Entity

/-! ## Nodes reached -/

namespace Forest

/-- The nodes of those events that come to a node for the first time. -/
def reached (events : List (Node × Event)) : List Node :=
  (events.filter fun ne => ne.2 ≠ .leave).map (·.1)

theorem reached_append (es fs : List (Node × Event)) :
    reached (es ++ fs) = reached es ++ reached fs := by
  rw [reached, List.filter_append, List.map_append]
  rfl

theorem reached_enter (n : Node) (es : List (Node × Event)) :
    reached ((n, .enter) :: es ++ [(n, .leave)]) = n :: reached es := by
  simp [reached, List.filter_append]

end Forest

namespace Entity

mutual

/-- A tour reaches the nodes of its part in preorder. -/
theorem reached_tour (parent : Option Nat) (id : Nat) :
    ∀ e : Entity, Forest.reached (tour parent id e) = flatten parent id e
  | ⟨name, decl, access, children⟩ => by
    rw [flatten_eq_cons]
    cases h : (node parent id ⟨name, decl, access, children⟩).isContainer with
    | true =>
      rw [tour_of_container h, Forest.reached_enter, reached_tourAll (some id) (id + 1) children]
    | false =>
      rw [tour_of_leaf h, children_of_leaf h]
      rfl

theorem reached_tourAll (parent : Option Nat) (id : Nat) :
    ∀ es : List Entity, Forest.reached (tourAll parent id es) = flattenAll parent id es
  | [] => rfl
  | e :: es => by
    rw [tourAll, flattenAll, Forest.reached_append, reached_tour parent id e,
      reached_tourAll parent (id + e.size) es]

end

end Entity

/-! ## Walking by numbers -/

namespace Forest

/-- From the number `id` on, the forest has these nodes. -/
def HasFrom (f : Forest) (id : Nat) (ns : List Node) : Prop := ns <+: f.nodes.toList.drop id

namespace HasFrom

variable {f : Forest} {id : Nat}

theorem left {ns ms : List Node} (h : f.HasFrom id (ns ++ ms)) : f.HasFrom id ns :=
  (List.prefix_append ns ms).trans h

theorem right {ns ms : List Node} (h : f.HasFrom id (ns ++ ms)) :
    f.HasFrom (id + ns.length) ms := by
  obtain ⟨rest, hrest⟩ := h
  refine ⟨rest, ?_⟩
  rw [← List.drop_drop, ← hrest, List.append_assoc, List.drop_left]

theorem tail {n : Node} {ns : List Node} (h : f.HasFrom id (n :: ns)) : f.HasFrom (id + 1) ns :=
  right (show f.HasFrom id ([n] ++ ns) from h)

theorem node? {n : Node} {ns : List Node} (h : f.HasFrom id (n :: ns)) :
    f.node? id = some n := by
  obtain ⟨rest, hrest⟩ := h
  have hhead : (f.nodes.toList.drop id)[0]? = some n := by rw [← hrest]; rfl
  rw [List.getElem?_drop, Nat.add_zero, Array.getElem?_toList] at hhead
  exact hhead

theorem lt_size {n : Node} {ns : List Node} (h : f.HasFrom id (n :: ns)) : id < f.size :=
  (Array.getElem?_eq_some_iff.mp h.node?).1

end HasFrom

/-- A container has the events of its children between its own two, and a leaf has one. -/
theorem eventsFrom_of_node? {f : Forest} {id : Nat} {n : Node} (hlt : id < f.size)
    (hn : f.node? id = some n) :
    f.eventsFrom id =
      if n.isContainer then
        (n, .enter) :: (n.children.map fun c => if id < c then f.eventsFrom c else []).flatten ++
          [(n, .leave)]
      else [(n, .leaf)] := by
  rw [eventsFrom, if_pos hlt, hn]

mutual

/-- Where an entity was laid out, the walk finds its events. -/
theorem eventsFrom_eq_tour (f : Forest) (parent : Option Nat) (id : Nat) :
    ∀ e : Entity, f.HasFrom id (e.flatten parent id) → f.eventsFrom id = e.tour parent id
  | ⟨name, decl, access, children⟩, h => by
    rw [Entity.flatten_eq_cons] at h
    rw [eventsFrom_of_node? h.lt_size h.node?]
    cases hc : (Entity.node parent id ⟨name, decl, access, children⟩).isContainer with
    | true =>
      have hinner := eventsFrom_eq_tourAll f (some id) (id + 1) children h.tail
      have hguard : (Entity.firstIds (id + 1) children).map
          (fun c => if id < c then f.eventsFrom c else []) =
            (Entity.firstIds (id + 1) children).map f.eventsFrom :=
        List.map_congr_left fun c hc => if_pos (Entity.le_of_mem_firstIds hc)
      rw [if_pos rfl, Entity.tour_of_container hc, ← hinner]
      simp only [Entity.node, hguard, List.flatMap]
    | false => rw [if_neg Bool.false_ne_true, Entity.tour_of_leaf hc]

theorem eventsFrom_eq_tourAll (f : Forest) (parent : Option Nat) (id : Nat) :
    ∀ es : List Entity, f.HasFrom id (Entity.flattenAll parent id es) →
      (Entity.firstIds id es).flatMap f.eventsFrom = Entity.tourAll parent id es
  | [], _ => rfl
  | e :: es, h => by
    rw [Entity.flattenAll] at h
    have hrest := h.right
    rw [Entity.length_flatten] at hrest
    rw [Entity.firstIds, Entity.tourAll, List.flatMap_cons,
      eventsFrom_eq_tour f parent id e h.left,
      eventsFrom_eq_tourAll f parent (id + e.size) es hrest]

end

/-- A walk by numbers passes the entities as they are written. -/
theorem events_ofEntities (es : List Entity) :
    (ofEntities es).events = Entity.tourAll none 0 es :=
  eventsFrom_eq_tourAll (ofEntities es) none 0 es (by simp [HasFrom, ofEntities])

/-- A walk comes to each node once, in the order of their numbers. -/
theorem reached_events (es : List Entity) :
    reached (ofEntities es).events = (ofEntities es).nodes.toList := by
  rw [events_ofEntities, Entity.reached_tourAll]
  rfl

end Forest

end FlatApi
