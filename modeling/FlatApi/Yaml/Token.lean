import FlatApi.Yaml.Tag

/-!
# Tokens of a YAML text

What the text is cut into before its nesting is looked at.
-/

namespace FlatApi.Yaml

/-- How a scalar is written.  Only a plain one may stand for something other than a string; both
quotes and both block forms count as quoted. -/
inductive Style where
  | plain
  | quoted
  deriving DecidableEq

/-- A lexical unit.  Opening and closing tokens of block collections are not written in the text:
indentation implies them. -/
inductive Token where
  | versionDirective (major minor : Nat)
  | tagDirective (handle : String) (address : Octets)
  | documentStart
  | documentEnd
  | blockSequenceStart
  | blockMappingStart
  | blockEnd
  | flowSequenceStart
  | flowSequenceEnd
  | flowMappingStart
  | flowMappingEnd
  | blockEntry
  | flowEntry
  | key
  | value
  | alias (name : String)
  | anchor (name : String)
  | tag (handle : String) (suffix : Octets)
  | scalar (text : String) (style : Style)
  | streamEnd
  deriving DecidableEq

end FlatApi.Yaml
