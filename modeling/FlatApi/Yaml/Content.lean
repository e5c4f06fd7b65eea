import FlatApi.Yaml.Read

/-!
# Values that are read before their type is known

Some fields can be understood only after others.  They are read as `Content` first, which settles
what each scalar stands for, and are given their type later.  Unlike a field whose type is known,
a field of text then refuses a scalar that stands for a number or for nothing.
-/

namespace FlatApi.Yaml

inductive Content where
  | scalar (v : Scalar)
  | sequence (items : List Content)
  | mapping (entries : List (Content × Content))

namespace Content

/-- Reads any node.  `depth` levels of nesting are left. -/
def read (depth : Nat) (path : Path) (node : Node) : Read Content := do
  match ← Read.follow path node with
  | (path, .scalar tag text style) =>
    if (tag.bind Tag.name?).isSome then Read.fail path .strayTag
    else match Scalar.resolve tag text style with
      | .ok (.wide n) => Read.fail path (.invalidType (.wide n) "any value")
      | .ok v => return .scalar v
      | .error kind => Read.fail path (.invalidValue (.string text) kind)
  | (path, .sequence tag items) =>
    if (tag.bind Tag.name?).isSome then Read.fail path .strayTag
    else match depth with
      | 0 => Read.tooDeep
      | d + 1 => .sequence <$> Read.each (read d) path items
  | (path, .mapping tag entries) =>
    if (tag.bind Tag.name?).isSome then Read.fail path .strayTag
    else match depth with
      | 0 => Read.tooDeep
      | d + 1 => .mapping <$> entries.mapM fun (key, value) => do
        return (← read d path key, ← read d (Read.stepOf key :: path) value)
  | (_, .alias _) => return .scalar .null

def found : Content → Found
  | .scalar v => .ofScalar v
  | .sequence _ => .sequence
  | .mapping _ => .map

/-! ## Giving a type -/

/-- Content has no place of its own: the reader of the whole value adds it. -/
abbrev Typed := Except Cause

def mismatch {α : Type} (c : Content) (expected : String) : Typed α :=
  .error (.invalidType c.found expected)

def bool : Content → Typed Bool
  | .scalar (.bool b) => .ok b
  | c => c.mismatch "a boolean"

def text : Content → Typed String
  | .scalar (.string s) => .ok s
  | c => c.mismatch "a string"

def items : Content → Typed (List Content)
  | .sequence items => .ok items
  | c => c.mismatch "a sequence"

/-- A name, or its number. -/
inductive Identifier where
  | name (s : String)
  | number (n : Nat)

def identifier (expected : String) : Content → Typed Identifier
  | .scalar (.string s) => .ok (.name s)
  | .scalar (.natural n) => .ok (.number n)
  | c => c.mismatch expected

/-- Nothing, or a mapping of nothing. -/
def unit : Content → Typed Unit
  | .scalar .null => .ok ()
  | .mapping [] => .ok ()
  | c => c.mismatch "unit"

/-- Reads a field that must not have been read before. -/
def once {α : Type} (name : String) (old : Option α) (new : Typed α) : Typed (Option α) :=
  if old.isSome then .error (.duplicateField name) else some <$> new

def required {α : Type} (name : String) : Option α → Typed α
  | some v => .ok v
  | none => .error (.missingField name)

end Content

end FlatApi.Yaml
