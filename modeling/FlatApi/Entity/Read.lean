import FlatApi.Entity
import FlatApi.Yaml.Content

/-!
# Reading entity files

The fields of an entity depend on its kind, which may be written behind them.  The name, the
access and the children mean the same for all kinds and are read in the order of the document; the
other fields are put aside.  When the whole entity was read, the kind is settled and the fields of
that kind are looked at, again in the order of the document; fields of other kinds may hold
anything.
-/

namespace FlatApi

open Yaml (Content Node Path Read)
open Yaml.Content (Typed Identifier)

namespace Access

def variants : List (String × Access) :=
  [("public", anyone), ("protected", subclasses), ("private", ownClass)]

end Access

/-! ## Fields that were put aside -/

namespace Parameter

/-- A parameter of which some fields were read. -/
structure Partial where
  name : Option String := none
  type : Option String := none

/-- The value of a field that goes by a name or a number. -/
def field (p : Partial) (key value : Content) : Typed Partial := do
  let isName (i : Identifier) := match i with
    | .name s => s == "name"
    | .number n => n == 0
  let isType (i : Identifier) := match i with
    | .name s => s == "type"
    | .number n => n == 1
  let i ← key.identifier "field identifier"
  if isName i then return { p with name := ← Content.once "name" p.name value.text }
  else if isType i then return { p with type := ← Content.once "type" p.type value.text }
  else return p

/-- A parameter is a mapping, or a sequence of name and type. -/
def ofContent : Content → Typed Parameter
  | .mapping entries => do
    let p ← entries.foldlM (fun p (key, value) => field p key value) {}
    return { name := p.name.getD "", type := ← Content.required "type" p.type }
  | .sequence items =>
    match items with
    | name :: type :: more => do
      let name ← name.text
      let type ← type.text
      if more.isEmpty then return { name, type }
      else .error (.invalidLength items.length "2 elements in sequence")
    | [name] => do
      discard name.text
      .error (.invalidLength 1 "struct Parameter with 2 elements")
    | [] => .error (.invalidLength 1 "struct Parameter with 2 elements")
  | c => c.mismatch "struct Parameter"

end Parameter

namespace MethodRole

def variants : List (String × MethodRole) :=
  [("method", ordinary), ("constructor", constructor), ("destructor", destructor)]

def ofIdentifier : Identifier → Typed MethodRole
  | .name s => match variants.lookup s with
    | some r => .ok r
    | none => .error (.unknownVariant s (variants.map (·.1)))
  | .number n => match variants[n]? with
    | some (_, r) => .ok r
    | none => .error (.invalidValue (.integer n) "variant index 0 <= i < 3")

/-- A role is its name, or a mapping from it to nothing. -/
def ofContent : Content → Typed MethodRole
  | .scalar (.string s) => ofIdentifier (.name s)
  | .mapping [(key, value)] => do
    let role ← ofIdentifier (← key.identifier "variant identifier")
    value.unit
    return role
  | .mapping _ => .error (.invalidValue .map "map with a single key")
  | c => c.mismatch "string or map"

end MethodRole

/-- The fields that were put aside, in the order of the document. -/
abbrev Fields := List (String × Content)

namespace Fields

/-- Reads the fields of one kind into a record. -/
def collect {σ : Type} (fields : Fields) (init : σ) (field : σ → String → Content → Typed σ) :
    Typed σ :=
  fields.foldlM (fun s (name, value) => field s name value) init

def ofList (params : Content) : Typed (List Parameter) := do
  (← params.items).mapM Parameter.ofContent

end Fields

/-- The kinds of declarations. -/
inductive Kind where
  | nameSpace
  | classType
  | freeFunction
  | memberFunction
  | memberVariable
  | other
  deriving DecidableEq

namespace Kind

/-- A kind is known by its name or by its number; any other is a kind without fields. -/
def ofIdentifier : Identifier → Kind
  | .name s => match s with
    | "namespace" => .nameSpace
    | "class" => .classType
    | "free-function" => .freeFunction
    | "member-function" => .memberFunction
    | "member-variable" => .memberVariable
    | _ => .other
  | .number n => match n with
    | 0 => .nameSpace
    | 1 => .classType
    | 2 => .freeFunction
    | 3 => .memberFunction
    | 4 => .memberVariable
    | _ => .other

def ofFields (fields : Fields) : Typed Kind := do
  let kind ← fields.collect none fun old name value =>
    if name == "kind" then
      Content.once "kind" old (ofIdentifier <$> value.identifier "variant identifier")
    else .ok old
  Content.required "kind" kind

end Kind

namespace Declaration

/-- A function or method of which some fields were read. -/
structure PartialMethod where
  returns : Option String := none
  params : Option (List Parameter) := none
  isVirtual : Option Bool := none
  role : Option MethodRole := none

def signatureField (p : PartialMethod) (name : String) (value : Content) : Typed PartialMethod := do
  match name with
  | "returns" => return { p with returns := ← Content.once name p.returns value.text }
  | "params" => return { p with params := ← Content.once name p.params (Fields.ofList value) }
  | _ => return p

def methodField (p : PartialMethod) (name : String) (value : Content) : Typed PartialMethod := do
  match name with
  | "virtual" => return { p with isVirtual := ← Content.once name p.isVirtual value.bool }
  | "role" => return { p with role := ← Content.once name p.role (MethodRole.ofContent value) }
  | _ => signatureField p name value

def PartialMethod.signature (p : PartialMethod) : Signature :=
  { returns := p.returns.getD "void", params := p.params.getD [] }

/-- The declaration of a known kind. -/
def ofKind (fields : Fields) : Kind → Typed Declaration
  | .nameSpace => .ok .nameSpace
  | .classType => do
    let wrapper ← fields.collect none fun old name value =>
      if name == "wrapper" then Content.once name old value.bool else .ok old
    return .classType (wrapper.getD false)
  | .freeFunction => do
    let p ← fields.collect {} signatureField
    return .freeFunction p.signature
  | .memberFunction => do
    let p ← fields.collect {} methodField
    return .memberFunction
      { p.signature with isVirtual := p.isVirtual.getD false, role := p.role.getD .ordinary }
  | .memberVariable => do
    let type ← fields.collect none fun old name value =>
      if name == "type" then Content.once name old value.text else .ok old
    return .memberVariable (← Content.required "type" type)
  | .other => .ok .other

def ofFields (fields : Fields) : Typed Declaration := do
  ofKind fields (← Kind.ofFields fields)

end Declaration

/-! ## Entities -/

namespace Entity

/-- An entity of which some fields were read.  The ones put aside are kept in reverse. -/
structure Partial where
  name : Option String := none
  access : Option Access := none
  children : Option (List Entity) := none
  others : Fields := []

/-- Reads one field.  `depth` levels of nesting are left for its value, and `child` reads an
entity among the children. -/
def field (depth : Nat) (child : Path → Node → Read Entity) (p : Partial) (name : String)
    (path : Path) (node : Node) : Read Partial := do
  match name with
  | "name" => return { p with name := ← Read.once name path p.name (Read.text path node) }
  | "access" =>
    let read := Read.variant Access.variants path node
    return { p with access := ← Read.once name path p.access read }
  | "children" =>
    let read := Read.listOf child depth path node
    return { p with children := ← Read.once name path p.children read }
  | _ => return { p with others := (name, ← Content.read depth path node) :: p.others }

/-- The entity whose fields were read. -/
def Partial.finish (path : Path) (p : Partial) : Read Entity := do
  let name ← Read.required "name" path p.name
  match Declaration.ofFields p.others.reverse with
  | .ok decl =>
    return { name, decl, access := p.access.getD .anyone, children := p.children.getD [] }
  | .error cause => Read.fail path cause

def readWith (depth : Nat) (child : Path → Node → Read Entity) (path : Path) (node : Node) :
    Read Entity := do
  let (path, p) ← Read.fields "struct Entity" depth path node {} (field (depth - 1) child)
  p.finish path

/-- Reads an entity.  A child lies two levels deeper, since its list is a level of its own. -/
def read : Nat → Path → Node → Read Entity
  | d + 2 => readWith (d + 2) (read d)
  | d => readWith d fun _ _ => Read.tooDeep

end Entity

namespace SourceUnit

structure Partial where
  source : Option String := none
  description : Option (Option String) := none

def field (p : Partial) (name : String) (path : Path) (node : Node) : Read Partial := do
  match name with
  | "source" => return { p with source := ← Read.once name path p.source (Read.text path node) }
  | "description" =>
    return { p with
      description := ← Read.once name path p.description (Read.optionalText path node) }
  | _ => return p

def read (depth : Nat) (path : Path) (node : Node) : Read SourceUnit := do
  let (path, p) ← Read.fields "struct UnitMetadata" depth path node {} field
  let source ← Read.required "source" path p.source
  return { source, description := p.description.getD none }

end SourceUnit

namespace EntityFile

structure Partial where
  unit : Option SourceUnit := none
  entities : Option (List Entity) := none

def field (depth : Nat) (p : Partial) (name : String) (path : Path) (node : Node) :
    Read Partial := do
  match name with
  | "unit" =>
    let read := SourceUnit.read depth path node
    return { p with unit := ← Read.once name path p.unit read }
  | "entities" =>
    let read := Read.listOf (Entity.read (depth - 1)) depth path node
    return { p with entities := ← Read.once name path p.entities read }
  | _ => return p

def read (depth : Nat) (path : Path) (node : Node) : Read EntityFile := do
  let (path, p) ← Read.fields "struct EntityFile" depth path node {} (field (depth - 1))
  return { unit := ← Read.required "unit" path p.unit, entities := p.entities.getD [] }

end EntityFile

end FlatApi
