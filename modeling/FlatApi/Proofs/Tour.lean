import FlatApi.Forest
import FlatApi.Proofs.Actions
import FlatApi.Proofs.Layout

/-!
# What a visitor is told

* A walk that tells a visitor of each event on the way tells it the list of events
  (`visit_eq_tell`).
* In this list a leaf occurs once and a container twice, with the events of the nodes below it in
  between (`isTour_ofEntities`).
* A visitor that fails ends the walk wherever it is: it was told the events up to the one that it
  fails on (`exists_told`).

`visit_ofEntities` is about any visitor with a state of its own.
-/

namespace FlatApi

open Forest (Node Event)

/-! ## Walking is telling the events in order -/

namespace Forest

section Telling

variable {m : Type → Type} [Monad m] (v : Node → Event → m Unit)

/-- Tells a visitor these events in order until it fails. -/
def tell (events : List (Node × Event)) : m Unit := events.forM fun ne => v ne.1 ne.2

theorem tell_nil : tell v [] = pure () := rfl

theorem tell_cons (n : Node) (e : Event) (events : List (Node × Event)) :
    tell v ((n, e) :: events) = v n e >>= fun _ => tell v events := rfl

variable [LawfulMonad m]

theorem tell_singleton (n : Node) (e : Event) : tell v [(n, e)] = v n e := by
  rw [tell_cons, tell_nil]
  exact bind_pure_unit

theorem tell_append (before behind : List (Node × Event)) :
    tell v (before ++ behind) = tell v before >>= fun _ => tell v behind := by
  simp only [tell, List.forM_eq_forM, List.forM_append]

/-- Being told of several rows of events is being told of one long row. -/
theorem forM_tell {α : Type} (events : α → List (Node × Event)) (xs : List α) :
    (xs.forM fun x => tell v (events x)) = tell v (xs.flatMap events) := by
  induction xs with
  | nil => rfl
  | cons x xs ih =>
    rw [List.flatMap_cons, tell_append, ← ih]
    rfl

variable (f : Forest)

/-- What is told about a node and all below it. -/
theorem walk_eq_tell (id : Nat) : f.walk v id = tell v (f.eventsFrom id) := by
  -- a child has a higher number than the node around it
  induction hroom : f.size - id using Nat.strongRecOn generalizing id with
  | _ room ih =>
    unfold walk eventsFrom
    by_cases hid : id < f.size
    · rw [if_pos hid, if_pos hid]
      cases hn : f.node? id with
      | none => rfl
      | some n =>
        have hchild : ∀ c : Nat, (if id < c then f.walk v c else return ()) =
            tell v (if id < c then f.eventsFrom c else []) := by
          intro c
          by_cases hc : id < c
          · rw [if_pos hc, if_pos hc, ih (f.size - c) (by omega) c rfl]
          · rw [if_neg hc, if_neg hc, tell_nil]
        cases hcontainer : n.isContainer with
        | true =>
          simp only [hcontainer, if_true, hchild, forM_tell, List.cons_append, tell_cons,
            tell_append, tell_nil, bind_pure_unit, List.flatMap]
        | false => simp only [hcontainer, Bool.false_eq_true, if_false, tell_singleton]
    · rw [if_neg hid, if_neg hid]
      rfl

/-- A visit of a forest tells the visitor of its events. -/
theorem visit_eq_tell : f.visit v = tell v f.events := by
  have hwalk : f.walk v = fun id => tell v (f.eventsFrom id) := funext (walk_eq_tell v f)
  rw [visit, hwalk, forM_tell]
  rfl

end Telling

end Forest

/-! ## Entering and leaving -/

namespace Forest

/-- What is entered is left again, with nested events in between. -/
inductive Nested : List (Node × Event) → Prop where
  | nil : Nested []
  | leaf (n : Node) {rest : List (Node × Event)} : Nested rest → Nested ((n, .leaf) :: rest)
  | block (n : Node) {inner rest : List (Node × Event)} :
      Nested inner → Nested rest → Nested ((n, .enter) :: inner ++ (n, .leave) :: rest)

theorem Nested.append {before behind : List (Node × Event)} (h : Nested before)
    (hbehind : Nested behind) : Nested (before ++ behind) := by
  induction h with
  | nil => exact hbehind
  | leaf n _ ih => exact .leaf n ih
  | block n hinner _ _ ih =>
    rw [List.append_assoc]
    exact .block n hinner ih

/-- The events of the node with this number. -/
def eventsOf (id : Nat) (events : List (Node × Event)) : List (Node × Event) :=
  events.filter fun ne => ne.1.id = id

section EventsOf

variable {id : Nat} {n : Node} {e : Event} {events behind : List (Node × Event)}

theorem eventsOf_append :
    eventsOf id (events ++ behind) = eventsOf id events ++ eventsOf id behind :=
  List.filter_append events behind

theorem eventsOf_eq_nil (h : ∀ ne ∈ events, ne.1.id ≠ id) : eventsOf id events = [] :=
  List.filter_eq_nil_iff.mpr (by simpa using h)

theorem mem_eventsOf : (n, e) ∈ eventsOf n.id events ↔ (n, e) ∈ events := by
  simp [eventsOf]

theorem eventsOf_block (h : eventsOf n.id events = []) :
    eventsOf n.id ((n, .enter) :: events ++ [(n, .leave)]) = [(n, .enter), (n, .leave)] := by
  have hself : ∀ e, eventsOf n.id [(n, e)] = [(n, e)] := fun e => by simp [eventsOf]
  rw [← List.singleton_append, eventsOf_append, eventsOf_append, hself, hself, h]
  rfl

theorem eventsOf_block_of_ne (h : n.id ≠ id) :
    eventsOf id ((n, .enter) :: events ++ [(n, .leave)]) = eventsOf id events := by
  simp [eventsOf, h]

end EventsOf

/-- All that a visitor is told about a node, in order. -/
def Node.events (n : Node) : List (Node × Event) :=
  if n.isContainer then [(n, .enter), (n, .leave)] else [(n, .leaf)]

end Forest

namespace Entity

open Forest (Nested eventsOf eventsOf_append eventsOf_eq_nil eventsOf_block eventsOf_block_of_ne)

section Tour

variable {n : Node} {e : Event}

mutual

/-- What is entered is left, after all parts and before anything else. -/
theorem nested_tour (parent : Option Nat) (id : Nat) : ∀ e : Entity, Nested (tour parent id e)
  | ⟨name, decl, access, children⟩ => by
    cases h : (node parent id ⟨name, decl, access, children⟩).isContainer with
    | true =>
      rw [tour_of_container h]
      exact .block _ (nested_tourAll (some id) (id + 1) children) .nil
    | false =>
      rw [tour_of_leaf h]
      exact .leaf _ .nil

theorem nested_tourAll (parent : Option Nat) (id : Nat) :
    ∀ es : List Entity, Nested (tourAll parent id es)
  | [] => .nil
  | e :: es => by
    rw [tourAll]
    exact (nested_tour parent id e).append (nested_tourAll parent (id + e.size) es)

end

mutual

theorem mem_flatten_of_mem_tour (parent : Option Nat) (id : Nat) :
    ∀ x : Entity, (n, e) ∈ tour parent id x → n ∈ flatten parent id x
  | ⟨name, decl, access, children⟩, h => by
    rw [flatten_eq_cons]
    cases hc : (node parent id ⟨name, decl, access, children⟩).isContainer with
    | true =>
      rw [tour_of_container hc, List.mem_append, List.mem_cons, List.mem_singleton] at h
      rcases h with (h | h) | h
      · cases h
        exact List.mem_cons_self
      · exact List.mem_cons_of_mem _
          (mem_flattenAll_of_mem_tourAll (some id) (id + 1) children h)
      · cases h
        exact List.mem_cons_self
    | false =>
      rw [tour_of_leaf hc, List.mem_singleton] at h
      cases h
      exact List.mem_cons_self

theorem mem_flattenAll_of_mem_tourAll (parent : Option Nat) (id : Nat) :
    ∀ xs : List Entity, (n, e) ∈ tourAll parent id xs → n ∈ flattenAll parent id xs
  | x :: xs, h => by
    rw [tourAll] at h
    rw [flattenAll]
    rcases List.mem_append.mp h with h | h
    · exact List.mem_append_left _ (mem_flatten_of_mem_tour parent id x h)
    · exact List.mem_append_right _ (mem_flattenAll_of_mem_tourAll parent (id + x.size) xs h)

end

/-- Nodes with other numbers have no events here. -/
theorem eventsOf_tour_eq_nil {parent : Option Nat} {id k : Nat} {x : Entity}
    (h : k < id ∨ id + x.size ≤ k) : eventsOf k (tour parent id x) = [] := by
  apply eventsOf_eq_nil
  rintro ⟨n, e⟩ hne hk
  have hid := id_of_mem_flatten (mem_flatten_of_mem_tour parent id x hne)
  rw [hk] at hid
  omega

theorem eventsOf_tourAll_eq_nil {parent : Option Nat} {id k : Nat} {xs : List Entity}
    (h : k < id ∨ id + sizeAll xs ≤ k) : eventsOf k (tourAll parent id xs) = [] := by
  apply eventsOf_eq_nil
  rintro ⟨n, e⟩ hne hk
  have hid := id_of_mem_flattenAll (mem_flattenAll_of_mem_tourAll parent id xs hne)
  rw [hk] at hid
  omega

mutual

/-- Each node of a part has the events that it should have, and no others. -/
theorem eventsOf_tour (parent : Option Nat) (id : Nat) :
    ∀ x : Entity, n ∈ flatten parent id x → eventsOf n.id (tour parent id x) = n.events
  | ⟨name, decl, access, children⟩, hn => by
    rw [flatten_eq_cons] at hn
    rw [Node.events]
    cases hc : (node parent id ⟨name, decl, access, children⟩).isContainer with
    | true =>
      rw [tour_of_container hc]
      rcases List.mem_cons.mp hn with rfl | hn
      · rw [eventsOf_block (eventsOf_tourAll_eq_nil (.inl (Nat.lt_succ_self id))), if_pos hc]
      · have hid := (id_of_mem_flattenAll hn).1
        rw [eventsOf_block_of_ne (Nat.ne_of_lt hid),
          eventsOf_tourAll (some id) (id + 1) children hn, Node.events]
    | false =>
      have hnone : children = [] := children_of_leaf hc
      subst hnone
      rw [flattenAll, List.mem_singleton] at hn
      subst hn
      rw [tour_of_leaf hc, hc]
      simp [eventsOf]

theorem eventsOf_tourAll (parent : Option Nat) (id : Nat) :
    ∀ xs : List Entity, n ∈ flattenAll parent id xs →
      eventsOf n.id (tourAll parent id xs) = n.events
  | x :: xs, hn => by
    rw [flattenAll] at hn
    rw [tourAll, eventsOf_append]
    rcases List.mem_append.mp hn with hn | hn
    · have hid := (id_of_mem_flatten hn).2
      rw [eventsOf_tour parent id x hn, eventsOf_tourAll_eq_nil (.inl hid), List.append_nil]
    · have hid := (id_of_mem_flattenAll hn).1
      rw [eventsOf_tour_eq_nil (.inr hid), List.nil_append,
        eventsOf_tourAll parent (id + x.size) xs hn]

end

end Tour

end Entity

namespace Forest

/-- The events that a walk through all of a forest consists of. -/
structure IsTour (f : Forest) (events : List (Node × Event)) : Prop where
  /-- Only nodes of the forest are passed. -/
  node : ∀ {n e}, (n, e) ∈ events → f.node? n.id = some n
  leaf_once : ∀ {i n}, f.node? i = some n → n.decl.isScope = false → n.children = [] →
    eventsOf i events = [(n, .leaf)]
  container_twice : ∀ {i n}, f.node? i = some n → n.decl.isScope = true ∨ n.children ≠ [] →
    eventsOf i events = [(n, .enter), (n, .leave)]
  in_order : (reached events).map (·.id) = List.range f.size
  nested : Nested events
  /-- Between the two events of a container are those of the nodes below it and no others. -/
  inside : ∀ {i n}, f.node? i = some n → (n, .enter) ∈ events →
    ∃ before inner behind,
      events = before ++ ((n, .enter) :: inner ++ (n, .leave) :: behind) ∧ Nested inner ∧
      ∀ m e, (m, e) ∈ events → ((m, e) ∈ inner ↔ Relation.TransGen f.IsParent i m.id)

section Tour

variable {es : List Entity} {i : Nat} {n : Node}

theorem eventsOf_events (h : (ofEntities es).node? i = some n) :
    eventsOf i (ofEntities es).events = n.events := by
  rw [← (numbered_ofEntities es).id_eq h, events_ofEntities]
  exact Entity.eventsOf_tourAll none 0 es (mem_nodes_of_node? h)

theorem node?_of_mem_events {e : Event} (h : (n, e) ∈ (ofEntities es).events) :
    (ofEntities es).node? n.id = some n := by
  rw [events_ofEntities] at h
  exact node?_id_of_mem (Entity.mem_flattenAll_of_mem_tourAll none 0 es h)

/-- A node below another one has a higher number. -/
theorem Numbered.transGen_iff {f : Forest} (h : f.Numbered) {j : Nat} :
    Relation.TransGen f.IsParent i j ↔ Relation.ReflTransGen f.IsParent i j ∧ i < j := by
  constructor
  · intro hbelow
    refine ⟨hbelow.to_reflTransGen, ?_⟩
    have hstep : ∀ {p c}, f.IsParent p c → p < c := by
      rintro p c ⟨n, hn, hp⟩
      rw [← h.id_eq hn]
      exact h.parent_lt hn hp
    induction hbelow with
    | single hc => exact hstep hc
    | tail _ hc ih => exact Nat.lt_trans ih (hstep hc)
  · rintro ⟨hbelow, hlt⟩
    rcases Relation.reflTransGen_iff_eq_or_transGen.mp hbelow with rfl | hbelow
    · exact absurd hlt (Nat.lt_irrefl _)
    · exact hbelow

/-- The events between the two of a container. -/
theorem exists_inner (hn : (ofEntities es).node? i = some n) (hc : n.isContainer = true) :
    ∃ before inner behind,
      (ofEntities es).events = before ++ ((n, .enter) :: inner ++ (n, .leave) :: behind) ∧
      Nested inner ∧ ∀ m e, (m, e) ∈ (ofEntities es).events →
        ((m, e) ∈ inner ↔ Relation.TransGen (ofEntities es).IsParent i m.id) := by
  have hid := (numbered_ofEntities es).id_eq hn
  obtain ⟨parent, x, heq, hfrom, before, behind, htour⟩ :=
    exists_entity_of_mem_flattenAll _ none 0 es (hasFrom_ofEntities es) (mem_nodes_of_node? hn)
  rw [hid] at heq hfrom htour
  subst heq
  rw [Entity.tour_of_container hc] at htour
  refine ⟨before, Entity.tourAll (some i) (i + 1) x.children, behind, ?_,
    Entity.nested_tourAll _ _ _, ?_⟩
  · rw [events_ofEntities, ← htour]
    simp
  · intro m e hme
    have hm : (ofEntities es).node? m.id = some m := node?_of_mem_events hme
    have hsize : x.size = 1 + Entity.sizeAll x.children := by
      cases x
      rw [Entity.size]
    rw [(numbered_ofEntities es).transGen_iff, reaches_iff hfrom]
    constructor
    · intro hinner
      have hid := Entity.id_of_mem_flattenAll (Entity.mem_flattenAll_of_mem_tourAll _ _ _ hinner)
      omega
    · rintro ⟨⟨-, hlt⟩, hgt⟩
      -- a node inside has the same events in the whole walk and in this part of it
      rw [Entity.flatten_eq_cons] at hfrom
      have hmem := hfrom.tail.mem_of_node? hm hgt (by rw [Entity.length_flattenAll]; omega)
      rw [← mem_eventsOf, Entity.eventsOf_tourAll _ _ _ hmem, ← eventsOf_events hm, mem_eventsOf]
      exact hme

/-- The events of a forest are a tour through it. -/
theorem isTour_ofEntities (es : List Entity) : (ofEntities es).IsTour (ofEntities es).events where
  node := node?_of_mem_events
  leaf_once := by
    intro i n hn hscope hnone
    rw [eventsOf_events hn, Node.events, Node.isContainer, hscope, hnone]
    rfl
  container_twice := by
    intro i n hn h
    have hc : n.isContainer = true := by simpa [Node.isContainer] using h
    rw [eventsOf_events hn, Node.events, if_pos hc]
  in_order := by
    have hsize : Entity.sizeAll es = (ofEntities es).size := by
      rw [← Entity.length_flattenAll none 0 es]
      exact List.size_toArray.symm
    rw [events_ofEntities, Entity.reached_tourAll, Entity.ids_flattenAll, hsize,
      List.range_eq_range']
  nested := by
    rw [events_ofEntities]
    exact Entity.nested_tourAll none 0 es
  inside := by
    intro i n hn hentered
    refine exists_inner hn ?_
    rw [← (numbered_ofEntities es).id_eq hn] at hn
    rw [← mem_eventsOf, eventsOf_events hn, Node.events] at hentered
    cases hc : n.isContainer with
    | true => rfl
    | false => simp [hc] at hentered

end Tour

end Forest

/-! ## Visitors that fail -/

/-- A callback with a state of its own. -/
abbrev Visitor (σ ε : Type) := Node → Event → ExceptT ε (StateM σ) Unit

namespace Visitor

variable {σ ε : Type} (v : Visitor σ ε)

/-- The same visitor, which also lists what it is told. -/
def noting : Visitor (σ × List (Node × Event)) ε := fun n e =>
  ExceptT.mk fun (s, told) =>
    let (answer, s') := runFrom s (v n e)
    (answer, s', told ++ [(n, e)])

/-- From the first state on the visitor fails on none of the events, and behind them it is in the
last state. -/
inductive Accepts : σ → List (Node × Event) → σ → Prop where
  | nil (s : σ) : Accepts s [] s
  | cons {s s₁ s' : σ} {n : Node} {e : Event} {events : List (Node × Event)} :
      runFrom s (v n e) = (.ok (), s₁) → Accepts s₁ events s' → Accepts s ((n, e) :: events) s'

/-- What a visitor answers to events, the state behind it, and those events that it was told. -/
inductive Told (s : σ) (events : List (Node × Event)) :
    Except ε Unit → σ → List (Node × Event) → Prop where
  | all {s' : σ} : v.Accepts s events s' → Told s events (.ok ()) s' events
  | stopped {before behind : List (Node × Event)} {n : Node} {e : Event} {s₁ s' : σ} {x : ε} :
      events = before ++ (n, e) :: behind → v.Accepts s before s₁ →
      runFrom s₁ (v n e) = (.error x, s') → Told s events (.error x) s' (before ++ [(n, e)])

variable {v}

theorem Told.cons {s s₁ s' : σ} {n : Node} {e : Event} {events told : List (Node × Event)}
    {answer : Except ε Unit} (h : runFrom s (v n e) = (.ok (), s₁))
    (hrest : v.Told s₁ events answer s' told) :
    v.Told s ((n, e) :: events) answer s' ((n, e) :: told) := by
  cases hrest with
  | all hall => exact .all (.cons h hall)
  | stopped hevents hbefore hfails =>
    exact .stopped (congrArg ((n, e) :: ·) hevents) (.cons h hbefore) hfails

/-- A visitor that notes what it is told answers as before. -/
theorem runFrom_noting {s s' : σ} {n : Node} {e : Event} {answer : Except ε Unit}
    (h : runFrom s (v n e) = (answer, s')) (told : List (Node × Event)) :
    runFrom (s, told) (v.noting n e) = (answer, s', told ++ [(n, e)]) := by
  show (match runFrom s (v n e) with
    | (answer, s') => (answer, s', told ++ [(n, e)])) = _
  rw [h]

variable (v)

/-- Events are told until one is answered with an error. -/
theorem exists_told (events : List (Node × Event)) : ∀ (s : σ) (before : List (Node × Event)),
    ∃ answer s' told, runFrom s (Forest.tell v events) = (answer, s') ∧
      runFrom (s, before) (Forest.tell v.noting events) = (answer, s', before ++ told) ∧
      v.Told s events answer s' told := by
  induction events with
  | nil =>
    intro s before
    exact ⟨.ok (), s, [], rfl, by rw [List.append_nil]; rfl, .all (.nil s)⟩
  | cons ne events ih =>
    intro s before
    obtain ⟨n, e⟩ := ne
    rw [Forest.tell_cons, Forest.tell_cons]
    rcases hcall : runFrom s (v n e) with ⟨answer, s₁⟩
    have hnoting := runFrom_noting hcall before
    cases answer with
    | error x =>
      have hfirst : (n, e) :: events = [] ++ (n, e) :: events := rfl
      exact ⟨.error x, s₁, [(n, e)], runFrom_bind_of_error hcall, runFrom_bind_of_error hnoting,
        .stopped hfirst (.nil s) hcall⟩
    | ok =>
      obtain ⟨answer, s', told, hrun, hnoted, htold⟩ := ih s₁ (before ++ [(n, e)])
      refine ⟨answer, s', (n, e) :: told, ?_, ?_, htold.cons hcall⟩
      · rw [runFrom_bind_of_ok hcall, hrun]
      · rw [runFrom_bind_of_ok hnoting, hnoted, List.append_assoc]
        rfl

end Visitor

namespace Forest

/-- **A visit** of a forest tells the events of a tour through it, all of them or those up to the
first on which the visitor fails. -/
theorem visit_ofEntities {σ ε : Type} (es : List Entity) (v : Visitor σ ε) (s : σ) :
    let f := ofEntities es
    f.IsTour f.events ∧
    ∃ answer s' told, runFrom s (f.visit v) = (answer, s') ∧
      runFrom (s, []) (f.visit v.noting) = (answer, s', told) ∧
      v.Told s f.events answer s' told := by
  intro f
  rw [visit_eq_tell, visit_eq_tell]
  exact ⟨isTour_ofEntities es, v.exists_told f.events s []⟩

end Forest

end FlatApi
