import FlatApi.Text.Quoted
import FlatApi.Yaml.Scalar

/-!
# Why a document has the wrong shape

A fault is a cause together with the place in the document where it was found.
-/

namespace FlatApi.Yaml

/-- One step down from a collection to a node in it. -/
inductive Step where
  | key (name : String)
  | index (i : Nat)
  /-- The value of a key that is not written as a scalar. -/
  | unknown
  /-- From an alias to its node. -/
  | jump
  deriving DecidableEq

namespace Step

def text : Step → String
  | .key name => name
  | .index i => "\\[" ++ toString i ++ "\\]"
  | .unknown => "?"
  | .jump => ""

end Step

/-- The steps from the root to a node, the last one first. -/
abbrev Path := List Step

namespace Path

def text (p : Path) : String := ".".intercalate (p.reverse.map Step.text)

end Path

/-- What was found where something else was expected. -/
inductive Found where
  | unit
  | bool (b : Bool)
  | integer (n : Int)
  /-- An integer of more than 64 bits. -/
  | wide (n : Int)
  | float (x : FlatApi.Text.Binary64)
  | string (s : String)
  | sequence
  | map
  deriving DecidableEq

namespace Found

def ofScalar : Scalar → Found
  | .null => .unit
  | .bool b => .bool b
  | .natural n => .integer n
  | .negative n => .integer n
  | .wide n => .wide n
  | .float x => .float x
  | .string s => .string s

def text : Found → String
  | .unit => "unit value"
  | .bool b => s!"boolean `{b}`"
  | .integer n => s!"integer `{n}`"
  | .wide n => s!"integer `{n}` as " ++ if n < 0 then "i128" else "u128"
  | .float x => s!"floating point `{x.text}`"
  | .string s => "string " ++ FlatApi.Text.quoted s
  | .sequence => "sequence"
  | .map => "map"

end Found

inductive Cause where
  | missingField (name : String)
  | duplicateField (name : String)
  | unknownVariant (name : String) (variants : List String)
  | invalidType (found : Found) (expected : String)
  | invalidValue (found : Found) (expected : String)
  | invalidLength (length : Nat) (expected : String)
  /-- A tag of its own on a value that is read before its meaning is known. -/
  | strayTag
  /-- Collections are nested too deeply. -/
  | recursionLimit
  /-- Aliases are followed too often. -/
  | repetitionLimit
  deriving DecidableEq

namespace Cause

/-- The names that were possible, of which there is at least one. -/
def variantsText : List String → String
  | [] => "there are no variants"
  | [a] => s!"expected `{a}`"
  | [a, b] => s!"expected `{a}` or `{b}`"
  | names => "expected one of " ++ ", ".intercalate (names.map fun n => s!"`{n}`")

def message : Cause → String
  | .missingField name => s!"missing field `{name}`"
  | .duplicateField name => s!"duplicate field `{name}`"
  | .unknownVariant name variants => s!"unknown variant `{name}`, " ++ variantsText variants
  | .invalidType found expected => s!"invalid type: {found.text}, expected {expected}"
  | .invalidValue found expected => s!"invalid value: {found.text}, expected {expected}"
  | .invalidLength length expected => s!"invalid length {length}, expected {expected}"
  | .strayTag => "untagged and internally tagged enums do not support enum input"
  | .recursionLimit => "recursion limit exceeded"
  | .repetitionLimit => "repetition limit exceeded"

end Cause

/-- A cause, and where it was found if the place matters. -/
structure Fault where
  cause : Cause
  place : Option Path
  deriving DecidableEq

namespace Fault

/-- The root has no name, so a fault there is told without a place. -/
def message (f : Fault) : String :=
  match f.place with
  | none | some [] => f.cause.message
  | some p => Path.text p ++ ": " ++ f.cause.message

end Fault

end FlatApi.Yaml
