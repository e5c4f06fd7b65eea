/-!
# Options of the generator
-/

namespace FlatApi

/-- How an override setter stores the function it is given. -/
inductive OverrideStyle where
  /-- In a table of the instance, under the symbol of the method. -/
  | table
  /-- In a member of the instance, named for the method. -/
  | slot
  deriving DecidableEq

structure Options where
  outputDir : String := "generated"
  outputFile : String := "CApi.cpp"
  /-- Lines in front of all wrappers. -/
  preamble : List String := []
  exportMacro : Option String := none
  /-- The conversion of values that leave the library. -/
  toForeign : String := "ToForeign"
  /-- The conversion of values that enter the library. -/
  fromForeign : String := "FromForeign"
  /-- What the name of a class that stands in for another ends in. -/
  wrapperSuffix : String := "Ex"
  /-- How the accessors of protected fields begin. -/
  getterHead : String := "__get_"
  setterHead : String := "__set_"
  overrideStyle : OverrideStyle := .table
  overrideTable : String := "__overrides"
  indent : String := "    "
  deriving DecidableEq

/-- A file in a directory.  An absolute file is where it says, whatever the directory. -/
def joinPath (dir file : String) : String :=
  if file.startsWith "/" || dir.isEmpty then file
  else if dir.endsWith "/" then dir ++ file
  else dir ++ "/" ++ file

/-- Where the artifact is written. -/
def Options.artifactPath (o : Options) : String := joinPath o.outputDir o.outputFile

end FlatApi
