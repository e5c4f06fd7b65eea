import FlatApi.Options
import FlatApi.Yaml.Read

/-!
# Reading option files

Every option may be left out, and then has its default.
-/

namespace FlatApi

open Yaml (Node Path Read)

namespace OverrideStyle

def variants : List (String × OverrideStyle) := [("table", table), ("slot", slot)]

end OverrideStyle

namespace Options

/-- The options that were read. -/
structure Partial where
  outputDir : Option String := none
  outputFile : Option String := none
  preamble : Option (List String) := none
  exportMacro : Option (Option String) := none
  toForeign : Option String := none
  fromForeign : Option String := none
  wrapperSuffix : Option String := none
  getterHead : Option String := none
  setterHead : Option String := none
  overrideStyle : Option OverrideStyle := none
  overrideTable : Option String := none
  indent : Option String := none

/-- Reads one option.  `depth` levels of nesting are left for its value. -/
def field (depth : Nat) (p : Partial) (name : String) (path : Path) (node : Node) :
    Read Partial := do
  let text (old : Option String) : Read (Option String) :=
    Read.once name path old (Read.text path node)
  match name with
  | "output-dir" =>
    let outputDir ← Read.once name path p.outputDir (Read.textAs "path string" path node)
    return { p with outputDir }
  | "output-file" => return { p with outputFile := ← text p.outputFile }
  | "preamble" =>
    let read := Read.listOf Read.text depth path node
    return { p with preamble := ← Read.once name path p.preamble read }
  | "export-macro" =>
    let exportMacro ← Read.once name path p.exportMacro (Read.optionalText path node)
    return { p with exportMacro }
  | "to-foreign" => return { p with toForeign := ← text p.toForeign }
  | "from-foreign" => return { p with fromForeign := ← text p.fromForeign }
  | "wrapper-suffix" => return { p with wrapperSuffix := ← text p.wrapperSuffix }
  | "getter-prefix" => return { p with getterHead := ← text p.getterHead }
  | "setter-prefix" => return { p with setterHead := ← text p.setterHead }
  | "override-style" =>
    let read := Read.variant OverrideStyle.variants path node
    return { p with overrideStyle := ← Read.once name path p.overrideStyle read }
  | "override-table" => return { p with overrideTable := ← text p.overrideTable }
  | "indent" => return { p with indent := ← text p.indent }
  | _ => return p

/-- The options read, and the defaults of the others. -/
def Partial.finish (p : Partial) : Options :=
  let d : Options := {}
  { outputDir := p.outputDir.getD d.outputDir
    outputFile := p.outputFile.getD d.outputFile
    preamble := p.preamble.getD d.preamble
    exportMacro := p.exportMacro.getD d.exportMacro
    toForeign := p.toForeign.getD d.toForeign
    fromForeign := p.fromForeign.getD d.fromForeign
    wrapperSuffix := p.wrapperSuffix.getD d.wrapperSuffix
    getterHead := p.getterHead.getD d.getterHead
    setterHead := p.setterHead.getD d.setterHead
    overrideStyle := p.overrideStyle.getD d.overrideStyle
    overrideTable := p.overrideTable.getD d.overrideTable
    indent := p.indent.getD d.indent }

def read (depth : Nat) (path : Path) (node : Node) : Read Options := do
  let (_, p) ← Read.fields "struct GeneratorOptions" depth path node {} (field (depth - 1))
  return p.finish

end Options

end FlatApi
