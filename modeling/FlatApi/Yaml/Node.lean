import FlatApi.Yaml.Event
import FlatApi.Yaml.Token.Lexer

/-!
# Documents as trees of nodes

A document is a tree whose leaves are scalars and aliases.  An alias does not name its node but a
slot of the document, and what stands in the slot is found when the alias is read: a slot holds
the last node that was put into it, so a later anchor can change what an earlier alias means.
-/

namespace FlatApi.Yaml

inductive Node where
  | scalar (tag : Option Tag) (text : String) (style : Style)
  | sequence (tag : Option Tag) (items : List Node)
  | mapping (tag : Option Tag) (entries : List (Node × Node))
  | alias (slot : Nat)

namespace Node

/-- A scalar of which nothing is written. -/
def isBlankScalar : Node → Bool
  | .scalar _ text style => text.isEmpty && style == .plain
  | _ => false

end Node

/-- A node with an anchor: its slot, and its place among the events. -/
structure Anchored where
  slot : Nat
  place : Nat
  node : Node

structure Document where
  root : Node
  /-- All nodes with an anchor. -/
  anchored : List Anchored := []
  /-- The number of events that make up the document. -/
  size : Nat := 0

namespace Document

/-- The node that began last among those with this slot; an empty scalar if there is none. -/
def slot (d : Document) (slot : Nat) : Node :=
  let later (best : Option Anchored) (a : Anchored) : Option Anchored :=
    if a.slot != slot || best.any (a.place < ·.place) then best else some a
  match d.anchored.foldl later none with
  | some a => a.node
  | none => .scalar none "" .plain

/-- A document of which nothing is written reads as a mapping without entries. -/
def void : Document := { root := .mapping none [] }

end Document

/-! ## Building the tree -/

/-- A collection that is not closed yet.  Its nodes are kept in reverse; the keys and values of a
mapping alternate. -/
structure Frame where
  isMapping : Bool
  tag : Option Tag
  /-- The slot of its anchor, and its place. -/
  anchor : Option (Nat × Nat)
  nodes : List Node := []

namespace Frame

def pairs : List Node → List (Node × Node)
  | k :: v :: rest => (k, v) :: pairs rest
  | _ => []

def close (f : Frame) : Node :=
  if f.isMapping then .mapping f.tag (pairs f.nodes.reverse) else .sequence f.tag f.nodes.reverse

end Frame

structure Builder where
  frames : List Frame := []
  root : Option Node := none
  anchored : List Anchored := []
  /-- The slots of the names defined so far. -/
  slots : List (String × Nat) := []
  place : Nat := 0

namespace Builder

/-- Defines the anchor of the node that begins now.  Its slot is the number of names known before,
so a name that is defined again shares its new slot with the next new name. -/
def define (b : Builder) (anchor : Option String) : Option (Nat × Nat) × Builder :=
  match anchor with
  | none => (none, b)
  | some name =>
    let slot := b.slots.length
    (some (slot, b.place), { b with slots := (name, slot) :: b.slots.filter (·.1 != name) })

def note (b : Builder) (anchor : Option (Nat × Nat)) (node : Node) : Builder :=
  match anchor with
  | none => b
  | some (slot, place) => { b with anchored := { slot, place, node } :: b.anchored }

/-- Puts a finished node where it belongs. -/
def add (b : Builder) (node : Node) : Builder :=
  match b.frames with
  | [] => { b with root := some node }
  | f :: frames => { b with frames := { f with nodes := node :: f.nodes } :: frames }

def openFrame (b : Builder) (isMapping : Bool) (anchor : Option String) (tag : Option Tag) :
    Builder :=
  let (anchor, b) := b.define anchor
  { b with frames := { isMapping, tag, anchor } :: b.frames }

def closeFrame (b : Builder) : Builder :=
  match b.frames with
  | [] => b
  | f :: frames =>
    let node := f.close
    { b with frames }.note f.anchor node |>.add node

def event (b : Builder) (e : Event) : Except Malformed Builder := do
  let b ← match e with
    | .alias name => match b.slots.lookup name with
      | some slot => pure (b.add (.alias slot))
      | none => throw .unknownAnchor
    | .scalar anchor tag text style =>
      let (anchor, b) := b.define anchor
      let node := Node.scalar tag text style
      pure ((b.note anchor node).add node)
    | .sequenceStart anchor tag => pure (b.openFrame false anchor tag)
    | .mappingStart anchor tag => pure (b.openFrame true anchor tag)
    | .sequenceEnd | .mappingEnd => pure b.closeFrame
  return { b with place := b.place + 1 }

end Builder

namespace Document

def ofEvents (events : Array Event) : Except Malformed Document := do
  let b ← events.foldlM Builder.event {}
  match b.root with
  | none => return void
  | some root => return { root, anchored := b.anchored, size := events.size }

/-- The document that a text writes, if it is one well-formed document. -/
def ofText (text : String) : Except Malformed Document := do
  let ts ← tokens text
  let events ← Event.ofTokens ts.toList
  ofEvents events

end Document

end FlatApi.Yaml
