import FlatApi.Yaml.Read

/-!
# From a text to a value
-/

namespace FlatApi.Yaml

/-- Why a text is not read. -/
inductive Invalid where
  | malformed (m : Malformed)
  | misshapen (f : Fault)
  deriving DecidableEq

def Invalid.message : Invalid → String
  | .malformed m => m.message
  | .misshapen f => f.message

/-- Reads a text as a value.  Its shape is looked at only if it is one well-formed document. -/
def load {α : Type} (read : Nat → Path → Node → Read α) (text : String) : Except Invalid α :=
  match Document.ofText text with
  | .error m => .error (.malformed m)
  | .ok d => match Read.run read d with
    | .error f => .error (.misshapen f)
    | .ok v => .ok v

end FlatApi.Yaml
