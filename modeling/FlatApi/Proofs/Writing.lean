import FlatApi.Proofs.Entities

/-!
# Writing entity files

The tree that an entity file is written as: the kind of a declaration and its fields stand in the
mapping of the entity, and an entity without children has no list of them.  Main statement:

* `EntityFile.read_toNode`: whatever is written is read back, up to the depth that reading allows.
-/

namespace FlatApi

open Yaml (Content Document Node Path Read)
open Yaml.Read (Gives)

/-! ## Trees -/

namespace Yaml.Node

/-- A text in quotes. -/
def ofText (s : String) : Node := .scalar none s .quoted

def ofBool (b : Bool) : Node := .scalar none (if b then "true" else "false") .plain

def ofOption : Option String → Node
  | some s => ofText s
  | none => .scalar none "null" .plain

/-- An entry whose key is a name. -/
def entry (key : String) (value : Node) : Node × Node := (ofText key, value)

/-- Collections are nested this deep at most. -/
def Within : Nat → Node → Prop
  | _, .scalar .. | _, .alias _ => True
  | 0, .sequence .. | 0, .mapping .. => False
  | depth + 1, .sequence _ items => ∀ item ∈ items, item.Within depth
  | depth + 1, .mapping _ entries =>
    ∀ entry ∈ entries, entry.1.Within depth ∧ entry.2.Within depth

instance decidableWithin : (depth : Nat) → (n : Node) → Decidable (n.Within depth)
  | 0, .scalar .. | _ + 1, .scalar .. | 0, .alias _ | _ + 1, .alias _ => isTrue trivial
  | 0, .sequence .. | 0, .mapping .. => isFalse id
  | depth + 1, .sequence _ items =>
    have := decidableWithin depth
    inferInstanceAs (Decidable (∀ item ∈ items, item.Within depth))
  | depth + 1, .mapping _ entries =>
    have := decidableWithin depth
    inferInstanceAs (Decidable (∀ entry ∈ entries, entry.1.Within depth ∧ entry.2.Within depth))

end Yaml.Node

open Yaml.Node (ofText ofBool ofOption entry)

namespace Access

/-- The word for an access. -/
def word : Access → String
  | .anyone => "public"
  | .subclasses => "protected"
  | .ownClass => "private"

end Access

namespace MethodRole

/-- The word for a role. -/
def word : MethodRole → String
  | .ordinary => "method"
  | .constructor => "constructor"
  | .destructor => "destructor"

end MethodRole

def Parameter.toNode (p : Parameter) : Node :=
  .mapping none [entry "name" (ofText p.name), entry "type" (ofText p.type)]

def Signature.entries (s : Signature) : List (Node × Node) :=
  [entry "returns" (ofText s.returns),
    entry "params" (.sequence none (s.params.map Parameter.toNode))]

/-- The fields of a kind. -/
def Declaration.ownEntries : Declaration → List (Node × Node)
  | .nameSpace | .other => []
  | .classType hasWrapper => [entry "wrapper" (ofBool hasWrapper)]
  | .freeFunction s => s.entries
  | .memberFunction m => m.toSignature.entries ++
    [entry "virtual" (ofBool m.isVirtual), entry "role" (ofText m.role.word)]
  | .memberVariable type => [entry "type" (ofText type)]

/-- An empty list of children is left out. -/
def Entity.childrenEntry : List Node → List (Node × Node)
  | [] => []
  | n :: ns => [entry "children" (.sequence none (n :: ns))]

mutual

def Entity.toNode : Entity → Node
  | ⟨name, decl, access, children⟩ =>
    .mapping none (entry "name" (ofText name) :: entry "kind" (ofText decl.kindName) ::
      (decl.ownEntries ++ entry "access" (ofText access.word) ::
        Entity.childrenEntry (Entity.toNodes children)))

def Entity.toNodes : List Entity → List Node
  | [] => []
  | e :: es => e.toNode :: Entity.toNodes es

end

def SourceUnit.toNode (u : SourceUnit) : Node :=
  .mapping none [entry "source" (ofText u.source), entry "description" (ofOption u.description)]

def EntityFile.toNode (f : EntityFile) : Node :=
  .mapping none [entry "unit" f.unit.toNode,
    entry "entities" (.sequence none (Entity.toNodes f.entities))]

/-! ## Reading what is written -/

variable {d : Document}

namespace Yaml.Content

theorem gives_ofText (s : String) (depth : Nat) (path : Path) :
    Gives d (read depth path (ofText s)) (.scalar (.string s)) 0 :=
  gives_scalar rfl rfl (by simp) path

theorem gives_ofBool (b : Bool) (depth : Nat) (path : Path) :
    Gives d (read depth path (ofBool b)) (.scalar (.bool b)) 0 := by
  cases b with
  | false => exact gives_scalar rfl rfl (by simp) path
  | true => exact gives_scalar rfl rfl (by simp) path

end Yaml.Content

namespace Parameter

/-- The content that a parameter is read as. -/
def content (p : Parameter) : Content :=
  .mapping [(.scalar (.string "name"), .scalar (.string p.name)),
    (.scalar (.string "type"), .scalar (.string p.type))]

theorem gives_content (p : Parameter) (depth : Nat) (path : Path) :
    Gives d (Content.read (depth + 1) path p.toNode) p.content 0 :=
  Content.gives_mapping rfl (.cons ⟨Content.gives_ofText _ _, Content.gives_ofText _ _⟩
    (.cons ⟨Content.gives_ofText _ _, Content.gives_ofText _ _⟩ .nil)) path

/-- The contents of parameters are understood as the parameters. -/
theorem ofList_contents (ps : List Parameter) :
    Fields.ofList (.sequence (ps.map content)) = .ok ps := by
  have hps : List.Forall₂ (fun c p => ofContent c = .ok p) (ps.map content) ps :=
    List.forall₂_map_left_iff.mpr (List.forall₂_same.mpr fun _ _ => rfl)
  exact mapM_eq_ok.mpr hps

end Parameter

/-- The content of the list of parameters. -/
theorem Signature.gives_params (ps : List Parameter) {depth : Nat}
    (h : (Node.sequence none (ps.map Parameter.toNode)).Within depth) (path : Path) :
    Gives d (Content.read depth path (.sequence none (ps.map Parameter.toNode)))
      (.sequence (ps.map Parameter.content)) 0 := by
  cases depth with
  | zero => exact h.elim
  | succ depth =>
    refine Content.gives_sequence rfl ?_ path
    rw [List.forall₂_map_left_iff, List.forall₂_map_right_iff, List.forall₂_same]
    intro p hp path
    have hdepth := h p.toNode (List.mem_map_of_mem hp)
    cases depth with
    | zero => exact hdepth.elim
    | succ depth => exact p.gives_content depth path

namespace Declaration

/-- The fields that a declaration is read from. -/
def ownFields : Declaration → Fields
  | .nameSpace | .other => []
  | .classType hasWrapper => [("wrapper", .scalar (.bool hasWrapper))]
  | .freeFunction s => [("returns", .scalar (.string s.returns)),
    ("params", .sequence (s.params.map Parameter.content))]
  | .memberFunction m => [("returns", .scalar (.string m.returns)),
    ("params", .sequence (m.params.map Parameter.content)),
    ("virtual", .scalar (.bool m.isVirtual)), ("role", .scalar (.string m.role.word))]
  | .memberVariable type => [("type", .scalar (.string type))]

/-- The fields with the kind in front of them. -/
def fields (decl : Declaration) : Fields :=
  ("kind", .scalar (.string decl.kindName)) :: decl.ownFields

theorem fills_params {fields : Fields} {ps : List Parameter}
    (h : valuesOf (Fields.isNamed "params") fields = [.sequence (ps.map Parameter.content)]) :
    Fills (Fields.isNamed "params") Fields.ofList fields none (some ps) := by
  refine ⟨[ps], ?_, rfl⟩
  rw [h]
  exact mapM_eq_ok.mpr (.cons (Parameter.ofList_contents ps) .nil)

/-- The fields of a declaration are understood as the declaration. -/
theorem ofFields_fields (decl : Declaration) : ofFields decl.fields = .ok decl := by
  cases decl with
  | nameSpace | classType | memberVariable | other => rfl
  | freeFunction s =>
    refine ofFields_eq_ok.mpr ⟨.freeFunction, rfl, ⟨some s.returns, some s.params, none, none⟩,
      ⟨⟨[s.returns], rfl, rfl⟩, fills_params rfl⟩, rfl, rfl, rfl⟩
  | memberFunction m =>
    obtain ⟨s, isVirtual, role⟩ := m
    refine ofFields_eq_ok.mpr ⟨.memberFunction, rfl,
      ⟨some s.returns, some s.params, some isVirtual, some role⟩,
      ⟨⟨⟨[s.returns], rfl, rfl⟩, fills_params rfl⟩, ⟨[isVirtual], rfl, rfl⟩, [role], ?_, rfl⟩, rfl⟩
    cases role <;> rfl

end Declaration

namespace Entity

variable {depth : Nat} {child : Path → Node → Read Entity} {path : Path}

theorem gives_entry {key : String} {value : Node} {part : Part}
    (h : Gives d (valueOf depth child key (Read.stepOf (ofText key) :: path) value) part 0) :
    Gives d (Entity.part depth child path (entry key value)) part 0 :=
  Gives.bind (l := 0) (fun _ _ => rfl : Gives d (Read.textAs _ path (ofText key)) key 0) h

/-- A field that is put aside. -/
theorem gives_other {key : String} {value : Node} {content : Content}
    (hkey : key ∉ ["name", "access", "children"])
    (h : ∀ path, Gives d (Content.read depth path value) content 0) :
    Gives d (part depth child path (entry key value)) (.other key content) 0 := by
  refine gives_entry ?_
  rw [valueOf_other (by grind) (by grind) (by grind)]
  exact (h _).map _

/-- The parts that an entity is read from. -/
def parts (e : Entity) : List Part :=
  .name e.name :: (e.decl.fields.map Part.ofField ++
    .access e.access :: if e.children.isEmpty then [] else [.children e.children])

/-- The parts of an entity make the entity. -/
theorem madeOf_parts (e : Entity) : e.MadeOf e.parts := by
  obtain ⟨name, decl, access, children⟩ := e
  obtain ⟨hname, haccess, hchildren, hother⟩ := filterMap_ofField decl.fields
  have hdecl := decl.ofFields_fields
  refine ⟨?_, ⟨some access, ?_, rfl⟩, ?_, ?_⟩
  · cases children <;> simp [parts, List.filterMap_cons, hname, Part.name?]
  · cases children <;> simp [parts, List.filterMap_cons, haccess, Part.access?]
  · -- An empty list of children is read where none is written.
    cases children with
    | nil => exact ⟨none, by simp [parts, List.filterMap_cons, hchildren, Part.children?], rfl⟩
    | cons child children =>
      exact ⟨some (child :: children),
        by simp [parts, List.filterMap_cons, hchildren, Part.children?], rfl⟩
  · cases children <;> simp [parts, List.filterMap_cons, hother, Part.other?, hdecl]

section Entries

variable {entries : List (Node × Node)}

/-- The entries are read as these fields. -/
def ReadAs (d : Document) (depth : Nat) (child : Path → Node → Read Entity) (path : Path)
    (entries : List (Node × Node)) (fields : Fields) : Prop :=
  List.Forall₂ (fun entry field =>
    Gives d (part depth child path entry) (Part.ofField field) 0) entries fields

theorem readAs_signature (s : Signature) (h : ∀ entry ∈ s.entries, entry.2.Within depth) :
    ReadAs d depth child path s.entries [("returns", .scalar (.string s.returns)),
      ("params", .sequence (s.params.map Parameter.content))] := by
  have hparams := h (entry "params" _) (List.mem_cons_of_mem _ List.mem_cons_self)
  exact .cons (gives_other (by decide) (Content.gives_ofText _ _))
    (.cons (gives_other (by decide) (Signature.gives_params _ hparams)) .nil)

/-- The entries for a declaration are read as its fields. -/
theorem readAs_ownEntries (decl : Declaration)
    (h : ∀ entry ∈ decl.ownEntries, entry.2.Within depth) :
    ReadAs d depth child path decl.ownEntries decl.ownFields := by
  cases decl with
  | nameSpace | other => exact .nil
  | classType hasWrapper => exact .cons (gives_other (by decide) (Content.gives_ofBool _ _)) .nil
  | memberVariable type => exact .cons (gives_other (by decide) (Content.gives_ofText _ _)) .nil
  | freeFunction s => exact readAs_signature s h
  | memberFunction m =>
    refine List.rel_append (readAs_signature m.toSignature fun entry hentry => ?_) ?_
    · exact h entry (List.mem_append_left _ hentry)
    · exact .cons (gives_other (by decide) (Content.gives_ofBool _ _))
        (.cons (gives_other (by decide) (Content.gives_ofText _ _)) .nil)

end Entries

theorem gives_access (access : Access) :
    Gives d (part depth child path (entry "access" (ofText access.word))) (.access access) 0 := by
  refine gives_entry (Gives.map (f := Part.access) ?_)
  cases access <;> exact fun _ _ => rfl

/-- The children are read if each child is. -/
theorem gives_childrenEntry {children : List Entity}
    (hread : ∀ below, (∀ n ∈ toNodes children, n.Within below) →
      List.Forall₂ (fun n e => ∀ path, Gives d (read below path n) e 0) (toNodes children) children)
    (h : ∀ entry ∈ childrenEntry (toNodes children), entry.2.Within depth) :
    List.Forall₂ (fun entry part =>
      Gives d (Entity.part depth (childOf (depth + 1)) path entry) part 0)
      (childrenEntry (toNodes children))
      (if children.isEmpty then [] else [.children children]) := by
  cases children with
  | nil => exact .nil
  | cons child children =>
    have hwithin := h (entry "children" _) List.mem_cons_self
    cases depth with
    | zero => exact hwithin.elim
    | succ depth =>
      exact .cons (gives_entry ((Read.gives_listOf (hread depth hwithin) depth _ none).map
        Part.children)) .nil

mutual

/-- An entity that is written is read back. -/
theorem gives_toNode : ∀ (e : Entity) (depth : Nat) (path : Path), e.toNode.Within depth →
    Gives d (read depth path e.toNode) e 0
  | ⟨name, decl, access, children⟩, depth, path, h => by
    cases depth with
    | zero => exact h.elim
    | succ depth =>
      have hown : ∀ entry ∈ decl.ownEntries, entry.2.Within depth := fun entry hentry =>
        (h entry (List.mem_cons_of_mem _ (List.mem_cons_of_mem _
          (List.mem_append_left _ hentry)))).2
      have hentries : List.Forall₂ (fun entry part =>
          Gives d (Entity.part depth (childOf (depth + 1)) path entry) part 0)
          (childrenEntry (toNodes children))
          (if children.isEmpty then [] else [.children children]) :=
        gives_childrenEntry (gives_toNodes children) fun entry hentry =>
          (h entry (List.mem_cons_of_mem _ (List.mem_cons_of_mem _
            (List.mem_append_right _ (List.mem_cons_of_mem _ hentry))))).2
      rw [read_eq]
      refine gives_readWith (k := 0) rfl (Nat.succ_ne_zero depth) (Read.gives_mapM ?_)
        (madeOf_parts ⟨name, decl, access, children⟩)
      refine .cons (gives_entry (Gives.map (f := Part.name) fun _ _ => rfl)) ?_
      refine .cons (gives_other (by decide) (Content.gives_ofText _ _)) ?_
      refine List.rel_append ?_ (.cons (gives_access access) hentries)
      exact List.forall₂_map_right_iff.mpr (readAs_ownEntries decl hown)

theorem gives_toNodes : ∀ (es : List Entity) (depth : Nat),
    (∀ n ∈ toNodes es, n.Within depth) →
    List.Forall₂ (fun n e => ∀ path, Gives d (read depth path n) e 0) (toNodes es) es
  | [], _, _ => .nil
  | e :: es, depth, h =>
    .cons (fun path => gives_toNode e depth path (h _ List.mem_cons_self))
      (gives_toNodes es depth fun n hn => h n (List.mem_cons_of_mem _ hn))

end

end Entity

namespace SourceUnit

/-- A source unit that is written is read as it was. -/
theorem gives_toNode (u : SourceUnit) (depth : Nat) (path : Path) :
    Gives d (read (depth + 1) path u.toNode) u 0 := by
  obtain ⟨source, _ | description⟩ := u <;> exact fun _ _ => rfl

end SourceUnit

namespace EntityFile

/-- A file that is written is read as it was, if there is depth enough. -/
theorem gives_toNode (f : EntityFile) (depth : Nat) (path : Path) (h : f.toNode.Within depth) :
    Gives d (read depth path f.toNode) f 0 := by
  cases depth with
  | zero => exact h.elim
  | succ depth =>
    have hunit := (h (entry "unit" _) List.mem_cons_self).2
    have hentities := (h (entry "entities" _) (List.mem_cons_of_mem _ List.mem_cons_self)).2
    cases depth with
    | zero => exact hunit.elim
    | succ depth =>
      have hfirst : ∀ path, Gives d (field (depth + 1) {} "unit" path f.unit.toNode)
          { unit := some f.unit } 0 := fun path =>
        Gives.bind (l := 0) ((f.unit.gives_toNode depth path).map some) (Gives.pure _)
      have hsecond : ∀ path, Gives d (field (depth + 1) { unit := some f.unit } "entities" path
          (.sequence none (Entity.toNodes f.entities)))
          { unit := some f.unit, entities := some f.entities } 0 := fun path =>
        have hlist := Read.gives_listOf (Entity.gives_toNodes f.entities depth hentities)
          depth path none
        Gives.bind (l := 0) (hlist.map some) (Gives.pure _)
      intro c _
      refine Read.run_bind.mpr ⟨(path, ⟨some f.unit, some f.entities⟩), c,
        Read.run_fields.mpr ⟨_, c, Read.run_entries.mpr ⟨_, rfl, Or.inl ⟨none, rfl, ?_⟩⟩, ?_⟩, rfl⟩
      · exact Nat.succ_ne_zero _
      · rw [List.foldlM_cons, Read.run_bind]
        refine ⟨_, c, Read.run_bind.mpr ⟨"unit", c, rfl, (hfirst _).run c⟩, ?_⟩
        rw [List.foldlM_cons, Read.run_bind]
        exact ⟨_, c, Read.run_bind.mpr ⟨"entities", c, rfl, (hsecond _).run c⟩, rfl⟩

/-- Whatever entity file is written is read back. -/
theorem read_toNode (f : EntityFile) (hroot : d.root = f.toNode)
    (hdepth : f.toNode.Within Yaml.depthLimit) : Read.run read d = .ok f := by
  unfold Read.run
  rw [hroot, (f.gives_toNode Yaml.depthLimit [] hdepth).run 0]
  rfl

/-- Declarations of all kinds, nested, with texts that a plain scalar would not keep. -/
def assorted : EntityFile where
  unit := { source := "~" }
  entities := [
    { name := "", decl := .nameSpace, children := [
        { name := "Node", decl := .classType true, access := .subclasses, children := [
            { name := "Node", access := .ownClass
              decl := .memberFunction {
                params := [{ type := "12" }, { name := "null", type := "const String&" }]
                role := .constructor } },
            { name := "Save", decl := .memberFunction { returns := "bool", isVirtual := true } },
            { name := "true", decl := .memberVariable "1.50" }] },
        { name := "Node", decl := .classType false },
        { name := "line\nbreak", decl := .other }] },
    { name := "Lerp", decl := .freeFunction { returns := "float", params := [{ type := "" }] } }]

theorem read_toNode_assorted :
    assorted.toNode.Within Yaml.depthLimit ∧
      Read.run read { root := assorted.toNode } = .ok assorted :=
  ⟨by decide, read_toNode assorted rfl (by decide)⟩

end EntityFile

end FlatApi
