import FlatApi.Forest
import FlatApi.Options
import FlatApi.Spelling
import FlatApi.Symbol.Registry
import FlatApi.Wrapper

/-!
# Wrappers without their symbols

The wrappers of an entity are made in two steps.  A draft says everything about them but their
symbols; it depends on the declarations, the C types and the options alone, and this is the
step that can be refused.  Settling a draft issues the symbols and always succeeds.
-/

namespace FlatApi

open FlatApi.Symbol (Registry)

/-- Why an entity cannot be wrapped. -/
inductive Refusal where
  /-- A type of the entity has no C type. -/
  | unmappedType (type entity : String)
  /-- A method or a field is not directly inside a class. -/
  | missingClass (entity : String)
  deriving DecidableEq

namespace Refusal

def message : Refusal → String
  | .unmappedType type entity => s!"no C type mapping for '{type}' (used by '{entity}')"
  | .missingClass entity => s!"member '{entity}' has no enclosing class"

end Refusal

/-- What wrappers are made from. -/
structure Setting where
  forest : Forest
  /-- The C type that stands for a native type; none if the type cannot cross the boundary. -/
  types : String → Option String
  options : Options

/-! ## Parts of a wrapper -/

namespace Param

/-- The pointer to the instance, which all wrappers of members take first. -/
def ofInstance (className : String) : Param := { cType := className ++ "*", name := "cls" }

end Param

namespace Parameter

/-- The name of the parameter at a position; without a name of its own it is numbered. -/
def nameAt (p : Parameter) (i : Nat) : String := if p.name.isEmpty then s!"arg{i}" else p.name

/-- The names of all parameters. -/
def names (params : List Parameter) : List String := params.mapIdx fun i p => p.nameAt i

end Parameter

namespace Options

def outbound (o : Options) (expr : String) : String := o.toForeign ++ "(" ++ expr ++ ")"

def inbound (o : Options) (expr : String) : String := o.fromForeign ++ "(" ++ expr ++ ")"

/-- The arguments of a call: each parameter, converted. -/
def arguments (o : Options) (params : List Parameter) : String :=
  ", ".intercalate ((Parameter.names params).map o.inbound)

/-- The statement that makes a call and hands its result on, if there is one. -/
def callStatement (o : Options) (returns call : String) : String :=
  if Spelling.isVoid returns then call ++ ";" else "return " ++ o.outbound call ++ ";"

/-- How a class is called in pointers to its instances if another one stands in for it, or none. -/
def classNameIf (o : Options) (hasWrapper : Bool) (c : Forest.Node) : String :=
  if hasWrapper then c.name ++ o.wrapperSuffix else c.name

/-- How a class is called by its declaration.  Its record never says anything else, whatever was
done before. -/
def className (o : Options) (c : Forest.Node) : String := o.classNameIf c.decl.hasWrapper c

end Options

namespace Setting

def qualifiedName (s : Setting) (n : Forest.Node) : String := s.forest.qualifiedName n

/-- The C type for a type that a node uses. -/
def cType (s : Setting) (n : Forest.Node) (type : String) : Except Refusal String :=
  match s.types type with
  | some c => .ok c
  | none => .error (.unmappedType type (s.qualifiedName n))

/-- The parameters of a wrapper, from those of the node. -/
def cParams (s : Setting) (n : Forest.Node) (params : List Parameter) :
    Except Refusal (List Param) := do
  let types ← params.mapM fun p => s.cType n p.type
  return types.zipWith (fun cType name => { cType, name }) (Parameter.names params)

/-- The class that a node is directly inside. -/
def parentClass? (s : Setting) (n : Forest.Node) : Option Forest.Node :=
  (s.forest.parent? n).filter (·.decl.isClass)

def parentClass (s : Setting) (n : Forest.Node) : Except Refusal Forest.Node :=
  match s.parentClass? n with
  | some c => .ok c
  | none => .error (.missingClass (s.qualifiedName n))

end Setting

/-! ## Drafts -/

/-- A call that is forwarded. -/
structure CallDraft where
  /-- What the symbol is made from. -/
  base : String
  returnType : String
  params : List Param
  statement : String
  /-- For a virtual method, the name of the class in pointers and the name of the method. -/
  overridable : Option (String × String) := none
  deriving DecidableEq

/-- A field, with an expression that reads it and a statement that writes it. -/
structure FieldDraft where
  base : String
  className : String
  cType : String
  readExpr : String
  writeStatement : String
  deriving DecidableEq

inductive Draft where
  | call (d : CallDraft)
  | field (d : FieldDraft)
  deriving DecidableEq

namespace Setting

def draftFunction (s : Setting) (n : Forest.Node) (f : Signature) : Except Refusal Draft := do
  let returnType ← s.cType n f.returns
  let params ← s.cParams n f.params
  let base := s.qualifiedName n
  let call := base ++ "(" ++ s.options.arguments f.params ++ ")"
  return .call { base, returnType, params, statement := s.options.callStatement f.returns call }

/-- Constructors and destructors have no wrapper. -/
def draftMethod (s : Setting) (n : Forest.Node) (m : Method) : Except Refusal (Option Draft) := do
  if m.role ≠ .ordinary then return none
  let className := s.options.className (← s.parentClass n)
  let returnType ← s.cType n m.returns
  let params ← s.cParams n m.params
  let call := "cls->" ++ n.name ++ "(" ++ s.options.arguments m.params ++ ")"
  return some <| .call
    { base := s.qualifiedName n
      returnType
      params := .ofInstance className :: params
      statement := s.options.callStatement m.returns call
      overridable := if m.isVirtual then some (className, n.name) else none }

/-- A protected field is out of reach; the class that stands in has accessors for it. -/
def draftField (s : Setting) (n : Forest.Node) (type : String) : Except Refusal Draft := do
  let c ← s.parentClass n
  let cType ← s.cType n type
  let value := s.options.inbound "value"
  let (read, write) := match n.access with
    | .subclasses =>
      ("cls->" ++ s.options.getterHead ++ n.name ++ "()",
        "cls->" ++ s.options.setterHead ++ n.name ++ "(" ++ value ++ ");")
    | .anyone | .ownClass => ("cls->" ++ n.name, "cls->" ++ n.name ++ " = " ++ value ++ ";")
  return .field
    { base := s.qualifiedName c ++ "_" ++ n.name
      className := s.options.className c
      cType
      readExpr := read
      writeStatement := write }

/-- The draft for a node; none for a node without wrappers. -/
def draft (s : Setting) (n : Forest.Node) : Except Refusal (Option Draft) :=
  match n.decl with
  | .freeFunction f => some <$> s.draftFunction n f
  | .memberFunction m => s.draftMethod n m
  | .memberVariable type => some <$> s.draftField n type
  | .nameSpace | .classType _ | .other => .ok none

/-- The class whose name is looked up for the draft of a node. -/
def classLookedUp? (s : Setting) (n : Forest.Node) : Option Forest.Node :=
  match n.decl with
  | .memberFunction m => if m.role = .ordinary then s.parentClass? n else none
  | .memberVariable _ => s.parentClass? n
  | .freeFunction _ | .nameSpace | .classType _ | .other => none

end Setting

/-! ## Settling a draft -/

namespace CallDraft

def wrapper (d : CallDraft) (symbol : String) : Wrapper :=
  { returnType := d.returnType, name := symbol, params := d.params, body := [d.statement] }

/-- The statement that stores a function for a method with the given symbol. -/
def overrideStatement (o : Options) (method symbol : String) : String :=
  match o.overrideStyle with
  | .table => "cls->" ++ o.overrideTable ++ "[\"" ++ symbol ++ "\"] = fn;"
  | .slot => "cls->fn" ++ method ++ " = (decltype(cls->fn" ++ method ++ "))fn;"

def overrideSetter (o : Options) (className method symbol setter : String) : Wrapper :=
  { returnType := "void"
    name := setter
    params := [.ofInstance className, { cType := "void*", name := "fn" }]
    body := [overrideStatement o method symbol] }

def settle (o : Options) (d : CallDraft) (names : Registry) : String × List Wrapper × Registry :=
  let (symbol, names) := names.reserve d.base
  match d.overridable with
  | none => (symbol, [d.wrapper symbol], names)
  | some (className, method) =>
    let (setter, names) := names.reserve ("set_" ++ className ++ "_fn" ++ method)
    (symbol, [d.wrapper symbol, overrideSetter o className method symbol setter], names)

end CallDraft

namespace FieldDraft

/-- The heads under which a field is reserved. -/
def heads : List String := ["get_", "set_"]

def getter (o : Options) (d : FieldDraft) (symbol : String) : Wrapper :=
  { returnType := d.cType
    name := "get_" ++ symbol
    params := [.ofInstance d.className]
    body := ["return " ++ o.outbound d.readExpr ++ ";"] }

def setter (d : FieldDraft) (symbol : String) : Wrapper :=
  { returnType := "void"
    name := "set_" ++ symbol
    params := [.ofInstance d.className, { cType := d.cType, name := "value" }]
    body := [d.writeStatement] }

def settle (o : Options) (d : FieldDraft) (names : Registry) : String × List Wrapper × Registry :=
  let (symbol, names) := names.reserveWith d.base heads
  (symbol, [d.getter o symbol, d.setter symbol], names)

end FieldDraft

/-- Issues the symbols of a draft: the one noted for the node, the wrappers, and what is taken
now. -/
def Draft.settle (o : Options) (d : Draft) (names : Registry) : String × List Wrapper × Registry :=
  match d with
  | .call d => d.settle o names
  | .field d => d.settle o names

end FlatApi
