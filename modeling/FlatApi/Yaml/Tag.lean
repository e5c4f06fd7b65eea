/-!
# Tags

A tag says what kind of value a node is.  It is an address, which a YAML text spells in octets,
since each octet may be escaped: an address need not be text at all.  `Tag.ofAddress` tells the
addresses apart that make a difference.
-/

namespace FlatApi.Yaml

abbrev Octets := List UInt8

namespace Octets

def ofString (s : String) : Octets := s.toUTF8.toList

/-- The text with these octets, if there is one. -/
def text? (o : Octets) : Option String := String.fromUTF8? ⟨o.toArray⟩

/-- The octets in front of the first zero, which ends every address. -/
def untilZero (o : Octets) : Octets := o.takeWhile (· != 0)

end Octets

inductive Tag where
  | null
  | bool
  | int
  | float
  /-- A tag of the document's own, which names a variant. -/
  | named (name : String)
  /-- A tag of the document's own whose name is no text. -/
  | unreadable
  /-- Any other address. -/
  | foreign
  deriving DecidableEq

namespace Tag

/-- What the addresses of the common kinds begin with. -/
def common : Octets := .ofString "tag:yaml.org,2002:"

/-- The mark that the document's own tags begin with. -/
def ownMark : Octets := .ofString "!"

/-- The mark alone is a name, too. -/
def ofOwnName (name : Octets) : Tag :=
  match if name.isEmpty then ownMark.text? else name.text? with
  | some name => .named name
  | none => .unreadable

def ofAddress (address : Octets) : Tag :=
  if ownMark.isPrefixOf address then ofOwnName (address.drop 1)
  else if address == common ++ .ofString "null" then .null
  else if address == common ++ .ofString "bool" then .bool
  else if address == common ++ .ofString "int" then .int
  else if address == common ++ .ofString "float" then .float
  else .foreign

/-- A tag of the document's own. -/
def isOwn : Tag → Bool
  | .named _ | .unreadable => true
  | _ => false

/-- The variant that a tag names. -/
def name? : Tag → Option String
  | .named name => some name
  | _ => none

end Tag

end FlatApi.Yaml
