import FlatApi.Draft
import FlatApi.Listing
import FlatApi.Record

/-!
# Making all wrappers

A pass goes through the nodes of a forest and makes the wrappers of each.  What it learns is kept
in a ledger: the symbols issued and the records of the nodes.  Nothing else is carried from one
node to the next, and a node that is refused changes nothing but records.
-/

namespace FlatApi

open FlatApi.Symbol (Registry)

structure Ledger where
  names : Registry := {}
  records : Records := {}

namespace Ledger

def touch (l : Ledger) (n : Forest.Node) : Ledger := { l with records := l.records.touch n }

/-- The class that is looked up for a node gets a record, whatever becomes of the node. -/
def touchClass (s : Setting) (l : Ledger) (n : Forest.Node) : Ledger :=
  match s.classLookedUp? n with
  | some c => l.touch c
  | none => l

/-- The name of a class in pointers to its instances, as its record has it; a class without a
record gets one. -/
def className (s : Setting) (l : Ledger) (c : Forest.Node) : String × Ledger :=
  let l := l.touch c
  let hasWrapper := (l.records.get? c.id).any (·.hasWrapper)
  (s.options.classNameIf hasWrapper c, l)

/-- Issues a symbol for a node. -/
def assignFunctionName (l : Ledger) (n : Forest.Node) (base : String) : String × Ledger :=
  let (name, names) := l.names.reserve base
  (name, { names, records := l.records.setName n name })

/-- Issues a symbol for a field, together with the symbols of its accessors. -/
def assignAccessorName (l : Ledger) (n : Forest.Node) (base : String) : String × Ledger :=
  let (name, names) := l.names.reserveWith base FieldDraft.heads
  (name, { names, records := l.records.setName n name })

/-- The wrappers of a node. -/
def emit (s : Setting) (l : Ledger) (n : Forest.Node) : Except Refusal (List Wrapper) × Ledger :=
  let l := l.touchClass s n
  match s.draft n with
  | .error refusal => (.error refusal, l)
  | .ok none => (.ok [], l)
  | .ok (some d) =>
    let (symbol, wrappers, names) := d.settle s.options l.names
    (.ok wrappers, { names, records := l.records.setName n symbol })

end Ledger

inductive ExportKind where
  | freeFunction
  | memberFunction
  | virtualMemberFunction
  | memberVariable
  deriving DecidableEq

namespace ExportKind

def name : ExportKind → String
  | .freeFunction => "free-function"
  | .memberFunction => "member-function"
  | .virtualMemberFunction => "virtual-member-function"
  | .memberVariable => "member-variable"

def ofDeclaration? : Declaration → Option ExportKind
  | .freeFunction _ => some .freeFunction
  | .memberFunction m => some (if m.isVirtual then .virtualMemberFunction else .memberFunction)
  | .memberVariable _ => some .memberVariable
  | .nameSpace | .classType _ | .other => none

end ExportKind

/-- An entity and the symbols of its wrappers, in their order. -/
structure Export where
  entity : String
  kind : ExportKind
  symbols : List String
  deriving DecidableEq

/-- The result of a pass. -/
structure Output where
  source : String
  exports : List Export
  records : Records
  artifactPath : String

namespace Output

def wrapperCount (o : Output) : Nat :=
  o.exports.foldr (fun e n => e.symbols.length + n) 0

end Output

structure Pass where
  setting : Setting
  ledger : Ledger := {}
  listing : Listing
  /-- The exports so far, the last one first. -/
  reversedExports : List Export := []

namespace Pass

def exports (p : Pass) : List Export := p.reversedExports.reverse

def ofSetting (s : Setting) : Pass := { setting := s, listing := { unit := s.options.indent } }

/-- Writes what stands in front of the wrappers. -/
def start (p : Pass) : Pass :=
  let o := p.setting.options
  let l := p.listing.addLines o.preamble
  let l := if o.preamble.isEmpty then l else l.blank
  { p with listing := ((l.line "extern \"C\"").line "\x7b").blank }

/-- Writes the wrappers of a node and lists their symbols. -/
def add (p : Pass) (n : Forest.Node) (kind : ExportKind) (wrappers : List Wrapper) : Pass :=
  let o := p.setting.options
  let entry : Export :=
    { entity := p.setting.qualifiedName n, kind, symbols := wrappers.map (·.name) }
  { p with
    listing := wrappers.foldl (fun l w => l.wrapper w o.exportMacro) p.listing
    reversedExports := entry :: p.reversedExports }

/-- Makes the wrappers of a node.  A container is done when it is entered, and what is private is
left out. -/
def visit (p : Pass) (n : Forest.Node) (event : Forest.Event) : Except Refusal Unit × Pass :=
  if event = .leave then (.ok (), p)
  else
    let ledger := p.ledger.touch n
    match ExportKind.ofDeclaration? n.decl with
    | none => (.ok (), { p with ledger })
    | some kind =>
      if n.access = .ownClass then (.ok (), { p with ledger })
      else
        match ledger.emit p.setting n with
        | (.error refusal, ledger) => (.error refusal, { p with ledger })
        | (.ok [], ledger) => (.ok (), { p with ledger })
        | (.ok wrappers, ledger) => (.ok (), { p with ledger }.add n kind wrappers)

/-- Making wrappers, as a visitor that has the pass as its state. -/
def visitor (n : Forest.Node) (event : Forest.Event) : ExceptT Refusal (StateM Pass) Unit :=
  ExceptT.mk fun p => p.visit n event

/-- Writes what stands behind the wrappers. -/
def stop (p : Pass) : Output :=
  { source := (p.listing.line "\x7d").contents
    exports := p.exports
    records := p.ledger.records
    artifactPath := p.setting.options.artifactPath }

end Pass

/-- The artifact for all entities of a forest.  The first refusal ends the visit. -/
def generate (s : Setting) : Except Refusal Output :=
  match (s.forest.visit Pass.visitor).run.run (Pass.ofSetting s).start with
  | (.error refusal, _) => .error refusal
  | (.ok (), p) => .ok p.stop

end FlatApi
