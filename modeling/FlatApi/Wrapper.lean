/-!
# Functions with flat linkage

A wrapper is a function that can be called from outside by its name alone.  It is kept as data
until it is printed.
-/

namespace FlatApi

/-- A parameter of a wrapper. -/
structure Param where
  cType : String
  name : String
  deriving DecidableEq

def Param.text (p : Param) : String := p.cType ++ " " ++ p.name

structure Wrapper where
  returnType : String
  name : String
  params : List Param := []
  /-- The statements, one a line. -/
  body : List String := []
  deriving DecidableEq

namespace Wrapper

/-- The head of the function, behind the export macro if there is one that is not empty. -/
def declaration (w : Wrapper) (exportMacro : Option String) : String :=
  let params := ", ".intercalate (w.params.map Param.text)
  let head := w.returnType ++ " " ++ w.name ++ "(" ++ params ++ ")"
  match exportMacro with
  | none | some "" => head
  | some m => m ++ " " ++ head

end Wrapper

end FlatApi
