import FlatApi.Entity

/-!
# Numbered entities

A forest is a list of entities laid out flat: its nodes are numbered in the order in which the
entities are written, each node before its children, and know their parent and children by number.
A walk passes the nodes in the order of their numbers; a node that can contain others is passed
twice, before its children and behind them.
-/

namespace FlatApi

namespace Entity

mutual

/-- The number of nodes that an entity makes up. -/
def size : Entity → Nat
  | ⟨_, _, _, children⟩ => 1 + sizeAll children

def sizeAll : List Entity → Nat
  | [] => 0
  | e :: es => size e + sizeAll es

end

/-- The numbers of siblings if the first one has the number `id`. -/
def firstIds (id : Nat) : List Entity → List Nat
  | [] => []
  | e :: es => id :: firstIds (id + e.size) es

end Entity

namespace Forest

structure Node where
  id : Nat
  name : String
  decl : Declaration
  access : Access
  parent : Option Nat
  children : List Nat
  deriving DecidableEq

namespace Node

/-- A namespace, a class, or whatever else has children. -/
def isContainer (n : Node) : Bool := n.decl.isScope || !n.children.isEmpty

end Node

end Forest

namespace Entity

mutual

/-- The nodes of an entity with the number `id`. -/
def flatten (parent : Option Nat) (id : Nat) : Entity → List Forest.Node
  | ⟨name, decl, access, children⟩ =>
    { id, name, decl, access, parent, children := firstIds (id + 1) children } ::
      flattenAll (some id) (id + 1) children

/-- The nodes of siblings, of which the first one has the number `id`. -/
def flattenAll (parent : Option Nat) (id : Nat) : List Entity → List Forest.Node
  | [] => []
  | e :: es => flatten parent id e ++ flattenAll parent (id + e.size) es

end

end Entity

/-- The nodes by number, and the numbers of those without a parent. -/
structure Forest where
  nodes : Array Forest.Node
  roots : List Nat

namespace Forest

def ofEntities (es : List Entity) : Forest :=
  { nodes := (Entity.flattenAll none 0 es).toArray, roots := Entity.firstIds 0 es }

def size (f : Forest) : Nat := f.nodes.size

def isEmpty (f : Forest) : Bool := f.nodes.isEmpty

def node? (f : Forest) (id : Nat) : Option Node := f.nodes[id]?

def parent? (f : Forest) (n : Node) : Option Node := n.parent.bind f.node?

/-! ## Qualified names -/

/-- The nodes around the node with the given parent, the innermost first.  A parent comes before
its children, so its number is below theirs. -/
def around (f : Forest) (below : Nat) (parent : Option Nat) : List Node :=
  match parent with
  | none => []
  | some p =>
    if p < below then
      match f.node? p with
      | none => []
      | some n => n :: f.around p n.parent
    else []
termination_by below

def ancestors (f : Forest) (n : Node) : List Node := f.around n.id n.parent

/-- The names of the scopes around a node and its own name.  Scopes without a name and ancestors
that are no scopes contribute nothing. -/
def qualifiedName (f : Forest) (n : Node) : String :=
  let scopes := (f.ancestors n).filter fun a => a.decl.isScope && !a.name.isEmpty
  "::".intercalate ((scopes.map (·.name)).reverse ++ [n.name])

/-! ## Walks -/

inductive Event where
  /-- A container, before its children. -/
  | enter
  /-- A container, behind its children. -/
  | leave
  | leaf
  deriving DecidableEq

/-- The events of the node `id` and all below it.  A child comes behind its parent, so its number
is above. -/
def eventsFrom (f : Forest) (id : Nat) : List (Node × Event) :=
  if id < f.size then
    match f.node? id with
    | none => []
    | some n =>
      if n.isContainer then
        let inner := n.children.map fun c => if id < c then f.eventsFrom c else []
        (n, .enter) :: inner.flatten ++ [(n, .leave)]
      else [(n, .leaf)]
  else []
termination_by f.size - id

/-- All events of a walk. -/
def events (f : Forest) : List (Node × Event) := f.roots.flatMap f.eventsFrom

section Visit

variable {m : Type → Type} [Monad m]

/-- Tells `visitor` the events of the node `id` and all below it, until it fails. -/
def walk (f : Forest) (visitor : Node → Event → m Unit) (id : Nat) : m Unit :=
  if id < f.size then
    match f.node? id with
    | none => return ()
    | some n =>
      if n.isContainer then do
        visitor n .enter
        n.children.forM fun c => if id < c then f.walk visitor c else return ()
        visitor n .leave
      else visitor n .leaf
  else return ()
termination_by f.size - id

/-- Tells `visitor` the events in order until it fails. -/
def visit (f : Forest) (visitor : Node → Event → m Unit) : m Unit := f.roots.forM (f.walk visitor)

end Visit

end Forest

end FlatApi
