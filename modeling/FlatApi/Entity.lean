/-!
# Declarations of a native library

A library is described by a tree of entities, as a parser of its headers finds them: namespaces
and classes contain functions, methods and fields.  Types are kept in the spelling of the source.
-/

namespace FlatApi

/-- Who may use an entity. -/
inductive Access where
  /-- Written `public`. -/
  | anyone
  /-- Written `protected`. -/
  | subclasses
  /-- Written `private`. -/
  | ownClass
  deriving DecidableEq

/-- A parameter of a function.  The name may be empty. -/
structure Parameter where
  name : String := ""
  type : String
  deriving DecidableEq

structure Signature where
  returns : String := "void"
  params : List Parameter := []
  deriving DecidableEq

inductive MethodRole where
  | ordinary
  | constructor
  | destructor
  deriving DecidableEq

structure Method extends Signature where
  isVirtual : Bool := false
  role : MethodRole := .ordinary
  deriving DecidableEq

inductive Declaration where
  | nameSpace
  /-- A class.  If `hasWrapper`, a subclass of it is generated elsewhere and stands in for it. -/
  | classType (hasWrapper : Bool)
  | freeFunction (signature : Signature)
  | memberFunction (method : Method)
  | memberVariable (type : String)
  /-- Whatever else a parser reports. -/
  | other
  deriving DecidableEq

namespace Declaration

/-- The name of the kind of a declaration in files. -/
def kindName : Declaration → String
  | .nameSpace => "namespace"
  | .classType _ => "class"
  | .freeFunction _ => "free-function"
  | .memberFunction _ => "member-function"
  | .memberVariable _ => "member-variable"
  | .other => "other"

/-- Namespaces and classes open a scope: their names qualify what they contain. -/
def isScope : Declaration → Bool
  | .nameSpace | .classType _ => true
  | _ => false

def isClass : Declaration → Bool
  | .classType _ => true
  | _ => false

/-- A class for which a subclass stands in. -/
def hasWrapper : Declaration → Bool
  | .classType w => w
  | _ => false

end Declaration

/-- A declaration, with those inside it. -/
structure Entity where
  name : String
  decl : Declaration
  access : Access := .anyone
  children : List Entity := []

/-- The header or module that the entities were found in. -/
structure SourceUnit where
  source : String
  description : Option String := none
  deriving DecidableEq

/-- The entities of one source unit. -/
structure EntityFile where
  unit : SourceUnit
  entities : List Entity := []

end FlatApi
