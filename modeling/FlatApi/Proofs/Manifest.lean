import FlatApi.Manifest
import FlatApi.Proofs.Json

/-!
# Manifests carry all exports

The manifest for programs is read as JSON, and each of its records as an export.  Nothing of an
export is lost, whatever characters are in the names (`exports_of_manifestJson`).
-/

namespace FlatApi

/-! ## Reading exports -/

namespace Json

def asText? : Json → Option String
  | .text s => some s
  | .list _ | .record _ => none

def asList? : Json → Option (List Json)
  | .list items => some items
  | .text _ | .record _ => none

/-- The value of a field, the first one if there are several. -/
def field (j : Json) (name : String) : Option Json :=
  match j with
  | .record fields => fields.lookup name
  | .text _ | .list _ => none

end Json

namespace ExportKind

def ofName? : String → Option ExportKind
  | "free-function" => some .freeFunction
  | "member-function" => some .memberFunction
  | "virtual-member-function" => some .virtualMemberFunction
  | "member-variable" => some .memberVariable
  | _ => none

theorem ofName?_name (k : ExportKind) : ofName? k.name = some k := by
  cases k <;> rfl

end ExportKind

namespace Export

/-- The export that a record describes, its fields in any order. -/
def ofJson? (j : Json) : Option Export := do
  let entity ← (← j.field "entity").asText?
  let kind ← ExportKind.ofName? (← (← j.field "kind").asText?)
  let symbols ← (← (← j.field "symbols").asList?).mapM Json.asText?
  return { entity, kind, symbols }

/-- The exports that a manifest for programs lists. -/
def ofManifest? (text : String) : Option (List Export) := do
  (← (← Json.read? text).asList?).mapM ofJson?

end Export

/-! ## What is written is read -/

theorem mapM_map_eq_some {α β : Type} {f : β → Option α} {g : α → β} (h : ∀ a, f (g a) = some a)
    (as : List α) : (as.map g).mapM f = some as := by
  induction as with
  | nil => rfl
  | cons a as ih => rw [List.map_cons, List.mapM_cons, h, ih]; rfl

theorem Export.ofJson?_toJson (e : Export) : ofJson? e.toJson = some e := by
  have hsymbols : (e.symbols.map Json.text).mapM Json.asText? = some e.symbols :=
    mapM_map_eq_some (f := Json.asText?) (fun _ => rfl) e.symbols
  have hentity : e.toJson.field "entity" = some (.text e.entity) := rfl
  have hkind : e.toJson.field "kind" = some (.text e.kind.name) := rfl
  have hlist : e.toJson.field "symbols" = some (.list (e.symbols.map .text)) := rfl
  simp [ofJson?, hentity, hkind, hlist, Json.asText?, Json.asList?, hsymbols,
    ExportKind.ofName?_name]

/-- **A manifest carries all exports.**  Read as JSON it gives back the exports in their order, so
outputs with different exports have different manifests. -/
theorem exports_of_manifestJson (o : Output) :
    Export.ofManifest? o.manifestJson = some o.exports ∧
      ∀ o' : Output, o'.exports ≠ o.exports → o'.manifestJson ≠ o.manifestJson := by
  have hread : ∀ o : Output, Export.ofManifest? o.manifestJson = some o.exports := by
    intro o
    have hitems := mapM_map_eq_some Export.ofJson?_toJson o.exports
    simp [Export.ofManifest?, Output.manifestJson, Json.read?_write, Json.asList?, hitems]
  refine ⟨hread o, fun o' hexports heq => hexports ?_⟩
  have hsame := hread o'
  rw [heq, hread o] at hsame
  exact (Option.some.inj hsame).symm

end FlatApi
