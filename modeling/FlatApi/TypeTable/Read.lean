import FlatApi.TypeTable
import FlatApi.Yaml.Read

/-!
# Reading files of type mappings
-/

namespace FlatApi

open Yaml (Node Path Read)

namespace TypeEntry

structure Partial where
  native : Option String := none
  cType : Option String := none

def field (p : Partial) (name : String) (path : Path) (node : Node) : Read Partial := do
  match name with
  | "native" => return { p with native := ← Read.once name path p.native (Read.text path node) }
  | "c-type" => return { p with cType := ← Read.once name path p.cType (Read.text path node) }
  | _ => return p

def read (depth : Nat) (path : Path) (node : Node) : Read TypeEntry := do
  let (path, p) ← Read.fields "struct TypeMapEntry" depth path node {} field
  let native ← Read.required "native" path p.native
  return { native, cType := ← Read.required "c-type" path p.cType }

end TypeEntry

namespace TypeFile

def field (depth : Nat) (old : Option (List TypeEntry)) (name : String) (path : Path)
    (node : Node) : Read (Option (List TypeEntry)) := do
  match name with
  | "types" =>
    Read.once name path old (Read.listOf (TypeEntry.read (depth - 1)) depth path node)
  | _ => return old

def read (depth : Nat) (path : Path) (node : Node) : Read TypeFile := do
  let (_, types) ← Read.fields "struct TypeMapFile" depth path node none (field (depth - 1))
  return { types := types.getD [] }

end TypeFile

end FlatApi
