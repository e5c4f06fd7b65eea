import FlatApi.Json
import FlatApi.Pass

/-!
# The list of exported symbols

For people, each entity with its symbols and a line of totals; for programs, a list of records.
-/

namespace FlatApi

namespace Export

def toJson (e : Export) : Json :=
  .record
    [("entity", .text e.entity), ("kind", .text e.kind.name),
      ("symbols", .list (e.symbols.map .text))]

/-- The entity, in a column of its own behind the kind, and a line for each symbol. -/
def lines (e : Export) : List String :=
  let kind := String.ofList (e.kind.name.toList.rightpad 24 ' ')
  (kind ++ " " ++ e.entity) :: e.symbols.map ("    -> " ++ ·)

end Export

namespace Output

def manifestJson (o : Output) : String := (Json.list (o.exports.map Export.toJson)).write

def manifestText (o : Output) : String :=
  let total := s!"{o.exports.length} entities, {o.wrapperCount} wrappers -> {o.artifactPath}"
  String.join ((o.exports.flatMap Export.lines ++ [total]).map (· ++ "\n"))

end Output

end FlatApi
