import FlatApi.Yaml.Fault
import FlatApi.Yaml.Node

/-!
# Reading values from a document

The readers for fields whose type is known when they are read.  Such a field takes its scalar as
it is written: a field of text reads `~` as the text `~`.

Collections may be nested `depthLimit` deep.  Each reader of a collection is told how many levels
are left, and an alias does not add a level by itself; instead, the number of aliases followed is
limited by the size of the document.
-/

namespace FlatApi.Yaml

def depthLimit : Nat := 128

/-- Reading knows the document and counts the aliases followed. -/
abbrev Read := ReaderT Document (StateT Nat (Except Fault))

namespace Read

def fail {α : Type} (path : Path) (cause : Cause) : Read α := throw { cause, place := some path }

/-- A limit is told without a place. -/
def tooDeep {α : Type} : Read α := throw { cause := .recursionLimit, place := none }

/-- The node itself, or the node that it is an alias of, with its place. -/
def follow (path : Path) (node : Node) : Read (Path × Node) := do
  match node with
  | .alias slot =>
    let d ← read
    let jumps := (← get) + 1
    set jumps
    if d.size * 100 < jumps then throw { cause := .repetitionLimit, place := none }
    return (.jump :: path, d.slot slot)
  | node => return (path, node)

/-- What a node is instead of what was expected. -/
def mismatch (node : Node) (expected : String) : Cause :=
  match node with
  | .scalar tag text style => match Scalar.resolve tag text style with
    | .ok v => .invalidType (.ofScalar v) expected
    | .error kind => .invalidValue (.string text) kind
  | .sequence .. => .invalidType .sequence expected
  | .mapping .. => .invalidType .map expected
  | .alias _ => .invalidType .unit expected

/-! ## Scalars -/

/-- Any scalar, as it is written. -/
def textAs (expected : String) (path : Path) (node : Node) : Read String := do
  match ← follow path node with
  | (_, .scalar _ text _) => return text
  | (path, node) => fail path (mismatch node expected)

def text : Path → Node → Read String := textAs "a string"

/-- Nothing is written, or a plain word for nothing. -/
def isNull (text : String) (style : Style) : Bool :=
  style == .plain && (text.isEmpty || Scalar.isNullWord text)

/-- A scalar that may be null.  A wrong use of the tag for null is a fault of the collection that
holds the scalar. -/
def optionalText (path : Path) (node : Node) : Read (Option String) := do
  match ← follow path node with
  | (_, .scalar tag text style) =>
    match style, tag with
    | .plain, none => return if isNull text style then none else some text
    | .plain, some .null =>
      if Scalar.isNullWord text then return none
      else fail (path.drop 1) (.invalidValue (.string text) "null")
    | _, _ => return some text
  | (path, node) => fail path (mismatch node "a string")

/-- One of the named variants.  A name is a scalar, or the tag of something that is null. -/
def variant {α : Type} (variants : List (String × α)) (path : Path) (node : Node) : Read α := do
  let lookup (path : Path) (name : String) : Read α :=
    match variants.lookup name with
    | some v => pure v
    | none => fail path (.unknownVariant name (variants.map (·.1)))
  -- an unknown tag is a fault of the collection around it, unless an alias leads to it
  let tagPath := match node with
    | .alias _ => path
    | _ => path.drop 1
  let tagged (tag : Option Tag) : Read (Option α) :=
    match tag.bind Tag.name? with
    | some name => some <$> lookup tagPath name
    | none => pure none
  match ← follow path node with
  | (path, .scalar tag text style) => match ← tagged tag with
    | none => lookup path text
    | some v =>
      if isNull text style then return v
      else fail path (.invalidValue (.string text) "null")
  | (path, .sequence tag _) => notUnit path .sequence (← tagged tag)
  | (path, .mapping tag _) => notUnit path .map (← tagged tag)
  | (path, .alias _) => lookup path ""
where
  notUnit {α : Type} (path : Path) (found : Found) : Option α → Read α
    | none => fail path (.invalidType found "a YAML tag starting with '!'")
    | some _ => fail path (.invalidType found "unit")

/-! ## Collections -/

/-- The items of a sequence, and its place.  Nothing written is an empty one. -/
def items (depth : Nat) (path : Path) (node : Node) : Read (Path × List Node) := do
  match ← follow path node with
  | (path, .sequence _ items) => if depth = 0 then tooDeep else return (path, items)
  | (path, node) =>
    if node.isBlankScalar then return (path, []) else fail path (mismatch node "a sequence")

/-- Reads each item at its own place. -/
def each {α : Type} (read : Path → Node → Read α) (path : Path) (nodes : List Node) :
    Read (List α) :=
  nodes.zipIdx.mapM fun (node, i) => read (.index i :: path) node

/-- Reads a sequence. -/
def listOf {α : Type} (read : Path → Node → Read α) (depth : Nat) (path : Path) (node : Node) :
    Read (List α) := do
  let (path, nodes) ← items depth path node
  each read path nodes

/-- The entries of a mapping, and its place.  Nothing written is an empty one. -/
def entries (expected : String) (depth : Nat) (path : Path) (node : Node) :
    Read (Path × List (Node × Node)) := do
  match ← follow path node with
  | (path, .mapping _ entries) => if depth = 0 then tooDeep else return (path, entries)
  | (path, node) =>
    if node.isBlankScalar then return (path, []) else fail path (mismatch node expected)

/-- The step from a mapping to the value of a key. -/
def stepOf : Node → Step
  | .scalar _ text _ => .key text
  | _ => .unknown

/-- Reads a mapping whose keys are names: `field` is told the name and the place of each value, in
the order of the document.  Returns also the place of the mapping. -/
def fields {σ : Type} (expected : String) (depth : Nat) (path : Path) (node : Node) (init : σ)
    (field : σ → String → Path → Node → Read σ) : Read (Path × σ) := do
  let (path, entries) ← entries expected depth path node
  let s ← entries.foldlM (fun s (key, value) => do
    let name ← textAs "field identifier" path key
    field s name (stepOf key :: path) value) init
  return (path, s)

/-- Reads a field that must not have been read before.  `path` is the place of its value. -/
def once {α : Type} (name : String) (path : Path) (old : Option α) (read : Read α) :
    Read (Option α) :=
  if old.isSome then fail (path.drop 1) (.duplicateField name) else some <$> read

/-- The value of a field that has to be there. -/
def required {α : Type} (name : String) (path : Path) : Option α → Read α
  | some v => pure v
  | none => fail path (.missingField name)

/-! ## Whole documents -/

/-- Reads the root of a document. -/
def run {α : Type} (read : Nat → Path → Node → Read α) (d : Document) : Except Fault α := do
  let (v, _) ← read depthLimit [] d.root d 0
  return v

end Read

end FlatApi.Yaml
