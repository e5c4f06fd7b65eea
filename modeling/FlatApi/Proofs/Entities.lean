import FlatApi.Proofs.Fields
import FlatApi.Proofs.Reading

/-!
# What the mapping of an entity says

An entity is read entry by entry.  Main statement:

* `Entity.readWith_eq_ok`: the parts that the entries stand for are read one after the other, and
  the entity is made of them, whatever their order (`Entity.MadeOf`).
-/

namespace FlatApi

open Yaml (Content Document Node Path Read)
open Yaml.Read (Gives Steady)

namespace Entity

/-! ## Parts -/

/-- What an entry of an entity stands for. -/
inductive Part where
  | name (s : String)
  | access (a : Access)
  | children (es : List Entity)
  /-- A field that is put aside. -/
  | other (name : String) (value : Content)

namespace Part

def name? : Part → Option String
  | .name s => some s
  | _ => none

def access? : Part → Option Access
  | .access a => some a
  | _ => none

def children? : Part → Option (List Entity)
  | .children es => some es
  | _ => none

def other? : Part → Option (String × Content)
  | .other key value => some (key, value)
  | _ => none

/-- The part of a field that was put aside. -/
def ofField (field : String × Content) : Part := .other field.1 field.2

end Part

theorem filterMap_ofField (fields : Fields) :
    (fields.map Part.ofField).filterMap Part.name? = [] ∧
      (fields.map Part.ofField).filterMap Part.access? = [] ∧
      (fields.map Part.ofField).filterMap Part.children? = [] ∧
      (fields.map Part.ofField).filterMap Part.other? = fields := by
  simp [List.filterMap_map, Function.comp_def, Part.ofField, Part.name?, Part.access?,
    Part.children?, Part.other?]

/-- The entity that parts make up: there is one name, at most one access and one list of children,
and the rest declares the entity. -/
structure MadeOf (e : Entity) (parts : List Part) : Prop where
  name : parts.filterMap Part.name? = [e.name]
  access : ∃ o : Option Access, parts.filterMap Part.access? = o.toList ∧ o.getD .anyone = e.access
  children : ∃ o : Option (List Entity),
    parts.filterMap Part.children? = o.toList ∧ o.getD [] = e.children
  decl : Declaration.ofFields (parts.filterMap Part.other?) = .ok e.decl

variable {d : Document} {c c' : Nat}

namespace Partial

/-- Adds a part that is not there yet. -/
def add (p : Partial) : Part → Option Partial
  | .name s => if p.name.isSome then none else some { p with name := some s }
  | .access a => if p.access.isSome then none else some { p with access := some a }
  | .children es => if p.children.isSome then none else some { p with children := some es }
  | .other name value => some { p with others := (name, value) :: p.others }

/-- Each part goes into its own slot. -/
theorem foldlM_add {parts : List Part} {p p' : Partial} :
    parts.foldlM add p = some p' ↔
      p.name.toList ++ parts.filterMap Part.name? = p'.name.toList ∧
      p.access.toList ++ parts.filterMap Part.access? = p'.access.toList ∧
      p.children.toList ++ parts.filterMap Part.children? = p'.children.toList ∧
      (parts.filterMap Part.other?).reverse ++ p.others = p'.others := by
  induction parts generalizing p with
  | nil =>
    cases p
    cases p'
    simp only [List.foldlM_nil, List.filterMap_nil, slot_nil, List.reverse_nil, List.nil_append,
      Option.pure_def, Option.some.injEq, mk.injEq]
  | cons part parts ih =>
    simp only [List.foldlM_cons, List.filterMap_cons]
    cases part with
    | name s =>
      simp only [Part.name?, Part.access?, Part.children?, Part.other?, slot_cons]
      cases hname : p.name <;> simp [add, hname, ih]
    | access a =>
      simp only [Part.name?, Part.access?, Part.children?, Part.other?, slot_cons]
      cases haccess : p.access <;> simp [add, haccess, ih]
    | children es =>
      simp only [Part.name?, Part.access?, Part.children?, Part.other?, slot_cons]
      cases hchildren : p.children <;> simp [add, hchildren, ih]
    | other name value =>
      simp [Part.name?, Part.access?, Part.children?, Part.other?, add, ih]

theorem run_finish {path : Path} {p : Partial} {e : Entity} :
    finish path p d c = .ok (e, c') ↔
      c = c' ∧ p.name = some e.name ∧ p.access.getD .anyone = e.access ∧
        p.children.getD [] = e.children ∧ Declaration.ofFields p.others.reverse = .ok e.decl := by
  unfold finish
  rw [Read.run_bind]
  cases hdecl : Declaration.ofFields p.others.reverse with
  | error cause =>
    constructor
    · rintro ⟨name, c₁, -, h⟩
      exact absurd h Read.run_fail
    · rintro ⟨-, -, -, -, h⟩
      cases h
  | ok decl =>
    constructor
    · rintro ⟨name, c₁, hname, h⟩
      obtain ⟨hsome, rfl⟩ := Read.run_required.mp hname
      obtain ⟨rfl, rfl⟩ := Read.run_pure.mp h
      exact ⟨rfl, hsome, rfl, rfl, rfl⟩
    · rintro ⟨rfl, hname, haccess, hchildren, hdecl⟩
      cases hdecl
      refine ⟨e.name, c, Read.run_required.mpr ⟨hname, rfl⟩, Read.run_pure.mpr ⟨?_, rfl⟩⟩
      rw [haccess, hchildren]
      cases e
      rfl

end Partial

/-! ## Reading the entries -/

/-- Reads the value of a field of an entity. -/
def valueOf (depth : Nat) (child : Path → Node → Read Entity) (name : String) (path : Path)
    (value : Node) : Read Part :=
  match name with
  | "name" => .name <$> Read.text path value
  | "access" => .access <$> Read.variant Access.variants path value
  | "children" => .children <$> Read.listOf child depth path value
  | _ => .other name <$> Content.read depth path value

theorem valueOf_other {depth : Nat} {child : Path → Node → Read Entity} {name : String}
    {path : Path}
    {value : Node} (h : name ≠ "name") (h' : name ≠ "access") (h'' : name ≠ "children") :
    valueOf depth child name path value = .other name <$> Content.read depth path value := by
  unfold valueOf
  split
  · exact absurd rfl h
  · exact absurd rfl h'
  · exact absurd rfl h''
  · rfl

/-- Reads an entry of an entity.  `depth` levels of nesting are left for its value. -/
def part (depth : Nat) (child : Path → Node → Read Entity) (path : Path) (entry : Node × Node) :
    Read Part := do
  let name ← Read.textAs "field identifier" path entry.1
  valueOf depth child name (Read.stepOf entry.1 :: path) entry.2

variable {depth : Nat} {child : Path → Node → Read Entity} {path : Path}

/-- A slot that is still empty is filled with what is read. -/
theorem run_slot {α : Type} {p p' : Partial} {name : String} {old : Option α} {read : Read α}
    {make : α → Part} {put : Option α → Partial}
    (hadd : ∀ v, p.add (make v) = if old.isSome then none else some (put (some v))) :
    (do return put (← Read.once name path old read) : Read Partial) d c = .ok (p', c') ↔
      ∃ part, (make <$> read) d c = .ok (part, c') ∧ p.add part = some p' := by
  rw [Read.run_bind]
  constructor
  · rintro ⟨o, c₁, ho, h⟩
    obtain ⟨rfl, rfl⟩ := Read.run_pure.mp h
    obtain ⟨rfl, v, hv, rfl⟩ := Read.run_once.mp ho
    exact ⟨make v, Read.run_map.mpr ⟨v, hv, rfl⟩, hadd v⟩
  · rintro ⟨part, hpart, hp'⟩
    obtain ⟨v, hv, rfl⟩ := Read.run_map.mp hpart
    rw [hadd] at hp'
    cases old with
    | some w => cases hp'
    | none =>
      cases hp'
      exact ⟨some v, c', Read.run_once.mpr ⟨rfl, v, hv, rfl⟩, rfl⟩

/-- To read a field is to read its value and to add it. -/
theorem run_field {p p' : Partial} {name : String} {value : Node} :
    field depth child p name path value d c = .ok (p', c') ↔
      ∃ part, valueOf depth child name path value d c = .ok (part, c') ∧ p.add part = some p' := by
  unfold field
  split
  · exact run_slot fun _ => rfl
  · exact run_slot fun _ => rfl
  · exact run_slot fun _ => rfl
  · next hname haccess hchildren =>
    rw [valueOf_other hname haccess hchildren, Read.run_bind]
    constructor
    · rintro ⟨content, c₁, hcontent, h⟩
      obtain ⟨rfl, rfl⟩ := Read.run_pure.mp h
      exact ⟨.other name content, Read.run_map.mpr ⟨content, hcontent, rfl⟩, rfl⟩
    · rintro ⟨part, hpart, hp'⟩
      obtain ⟨content, hcontent, rfl⟩ := Read.run_map.mp hpart
      cases hp'
      exact ⟨content, c', hcontent, rfl⟩

/-- To read an entry of an entity is to read its part and to add it. -/
theorem run_entry {p p' : Partial} {entry : Node × Node} :
    (do let name ← Read.textAs "field identifier" path entry.1
        field depth child p name (Read.stepOf entry.1 :: path) entry.2 : Read Partial) d c =
      .ok (p', c') ↔ ∃ φ, part depth child path entry d c = .ok (φ, c') ∧ p.add φ = some p' := by
  unfold part
  simp only [Read.run_bind, run_field]
  constructor
  · rintro ⟨name, c₁, hname, φ, hφ, hadd⟩
    exact ⟨φ, ⟨name, c₁, hname, hφ⟩, hadd⟩
  · rintro ⟨φ, ⟨name, c₁, hname, hφ⟩, hadd⟩
    exact ⟨name, c₁, hname, φ, hφ, hadd⟩

/-- The entries are read as parts, and the parts are put together. -/
theorem run_entries {p p' : Partial} {entries : List (Node × Node)} :
    (entries.foldlM (fun p entry => do
      let name ← Read.textAs "field identifier" path entry.1
      field depth child p name (Read.stepOf entry.1 :: path) entry.2) p : Read Partial) d c =
        .ok (p', c') ↔
      ∃ parts, entries.mapM (part depth child path) d c = .ok (parts, c') ∧
        parts.foldlM Partial.add p = some p' := by
  apply Read.run_foldlM
  intro p entry c p' c'
  exact run_entry

/-- The parts of an entity were read, and it is made of them. -/
theorem exists_madeOf {parts : List Part} {e : Entity} :
    (∃ p, parts.foldlM Partial.add {} = some p ∧ p.name = some e.name ∧
      p.access.getD .anyone = e.access ∧ p.children.getD [] = e.children ∧
      Declaration.ofFields p.others.reverse = .ok e.decl) ↔ e.MadeOf parts := by
  constructor
  · rintro ⟨p, hp, hname, haccess, hchildren, hdecl⟩
    obtain ⟨hnames, haccesses, hlists, hothers⟩ := Partial.foldlM_add.mp hp
    rw [hname] at hnames
    rw [← hothers, List.append_nil, List.reverse_reverse] at hdecl
    exact ⟨hnames, ⟨p.access, haccesses, haccess⟩, ⟨p.children, hlists, hchildren⟩, hdecl⟩
  · rintro ⟨hnames, ⟨access, haccesses, haccess⟩, ⟨children, hlists, hchildren⟩, hdecl⟩
    refine ⟨⟨some e.name, access, children, (parts.filterMap Part.other?).reverse⟩,
      Partial.foldlM_add.mpr ⟨hnames, haccesses, hlists, List.append_nil _⟩, rfl, haccess,
      hchildren, ?_⟩
    rw [List.reverse_reverse]
    exact hdecl

/-- An entity is read from the parts that the entries of a mapping stand for. -/
theorem readWith_eq_ok {n : Node} {e : Entity} :
    readWith depth child path n d c = .ok (e, c') ↔
      ∃ place tag entries c₁,
        Read.follow path n d c = .ok ((place, .mapping tag entries), c₁) ∧ depth ≠ 0 ∧
        ∃ parts, entries.mapM (part (depth - 1) child place) d c₁ = .ok (parts, c') ∧
          e.MadeOf parts := by
  unfold readWith
  constructor
  · intro h
    obtain ⟨⟨place, p⟩, c₁, hfields, hfinish⟩ := Read.run_bind.mp h
    obtain ⟨rfl, he⟩ := Partial.run_finish.mp hfinish
    obtain ⟨entries, c₂, hentries, hp⟩ := Read.run_fields.mp hfields
    obtain ⟨parts, hparts, hadd⟩ := run_entries.mp hp
    have hmade : e.MadeOf parts := exists_madeOf.mp ⟨p, hadd, he⟩
    obtain ⟨m, hfollow, ⟨tag, rfl, hdepth⟩ | ⟨-, rfl⟩⟩ := Read.run_entries.mp hentries
    · exact ⟨place, tag, entries, c₂, hfollow, hdepth, parts, hparts, hmade⟩
    · -- A blank scalar has no entries, so that the name is missing.
      obtain ⟨rfl, rfl⟩ := Read.run_pure.mp hparts
      cases hmade.name
  · rintro ⟨place, tag, entries, c₁, hfollow, hdepth, parts, hparts, hmade⟩
    obtain ⟨p, hadd, he⟩ := exists_madeOf.mpr hmade
    refine Read.run_bind.mpr ⟨(place, p), c', Read.run_fields.mpr ⟨entries, c₁, ?_, ?_⟩,
      Partial.run_finish.mpr ⟨rfl, he⟩⟩
    · exact Read.run_entries.mpr ⟨_, hfollow, Or.inl ⟨tag, rfl, hdepth⟩⟩
    · exact run_entries.mpr ⟨parts, hparts, hadd⟩

/-- Wherever there is room, the entity is read that its parts make up. -/
theorem gives_readWith {n : Node} {tag : Option Yaml.Tag} {entries : List (Node × Node)}
    {parts : List Part} {e : Entity} {k : Nat} (htarget : d.target n = .mapping tag entries)
    (hdepth : depth ≠ 0)
    (hparts : Gives d (entries.mapM (part (depth - 1) child (path.through n))) parts k)
    (hmade : e.MadeOf parts) : Gives d (readWith depth child path n) e (n.hops + k) := by
  intro c hroom
  refine readWith_eq_ok.mpr ⟨path.through n, tag, entries, c + n.hops, ?_, hdepth, parts, ?_, hmade⟩
  · rw [← htarget]
    exact Gives.follow path n c (by omega)
  · rw [← Nat.add_assoc]
    exact hparts _ (by omega)

/-! ## Readers of entities are steady -/

theorem steady_valueOf (hchild : ∀ path n, Steady d (child path n)) (name : String) (value : Node) :
    Steady d (valueOf depth child name path value) := by
  unfold valueOf
  split
  · exact (Steady.textAs _ _ _).map _
  · exact (Steady.variant _ _ _).map _
  · exact (Steady.listOf _ _ hchild _).map _
  · exact (Yaml.Content.steady_read _ _ _).map _

theorem steady_part (hchild : ∀ path n, Steady d (child path n)) (entry : Node × Node) :
    Steady d (part depth child path entry) :=
  (Steady.textAs _ _ _).bind fun name => steady_valueOf hchild name entry.2

theorem steady_readWith (hchild : ∀ path n, Steady d (child path n)) (n : Node) :
    Steady d (readWith depth child path n) := by
  intro c e c' h
  obtain ⟨place, tag, entries, c₁, hfollow, hdepth, parts, hparts, hmade⟩ := readWith_eq_ok.mp h
  obtain ⟨hplace, hroom, rfl⟩ := Read.run_follow.mp hfollow
  obtain ⟨rfl, htarget⟩ := Prod.mk.inj hplace
  obtain ⟨k, rfl, hroom', hgives⟩ :=
    Steady.mapM (fun entry _ => steady_part hchild entry) _ _ _ hparts
  exact ⟨n.hops + k, by omega, by omega, gives_readWith htarget.symm hdepth hgives hmade⟩

/-- The reader of the children of an entity. -/
def childOf : Nat → Path → Node → Read Entity
  | depth + 2 => read depth
  | _ => fun _ _ => Read.tooDeep

theorem read_eq : ∀ depth, read depth = readWith depth (childOf depth)
  | 0 | 1 | _ + 2 => rfl

/-- Reading entities is steady at every depth. -/
theorem steady_read : ∀ (depth : Nat) (path : Path) (n : Node), Steady d (read depth path n)
  | 0, path, n | 1, path, n => by
    rw [read_eq]
    exact steady_readWith (fun _ _ => Steady.tooDeep) n
  | depth + 2, path, n => by
    rw [read_eq]
    exact steady_readWith (steady_read depth) n

theorem steady_childOf : ∀ (depth : Nat) (path : Path) (n : Node), Steady d (childOf depth path n)
  | 0, _, _ | 1, _, _ => Steady.tooDeep
  | depth + 2, path, n => steady_read depth path n

/-! ## What matters to an entity -/

namespace MadeOf

variable {e : Entity} {parts parts' : List Part}

/-- The order of the parts does not matter. -/
theorem perm (h : e.MadeOf parts) (hperm : parts.Perm parts') : e.MadeOf parts' := by
  obtain ⟨hname, ⟨access, haccess, hgetA⟩, ⟨children, hchildren, hgetC⟩, hdecl⟩ := h
  refine ⟨?_, ⟨access, ?_, hgetA⟩, ⟨children, ?_, hgetC⟩, ?_⟩
  · exact eq_of_perm_slot (o := some e.name) hname (hperm.filterMap _)
  · exact eq_of_perm_slot haccess (hperm.filterMap _)
  · exact eq_of_perm_slot hchildren (hperm.filterMap _)
  · exact Declaration.ofFields_perm hdecl (hperm.filterMap _)

/-- Fields of other kinds do not matter. -/
theorem append (h : e.MadeOf parts) {kind : Kind}
    (hkind : Kind.ofFields (parts.filterMap Part.other?) = .ok kind) {extra : Fields}
    (hextra : ∀ field ∈ extra, field.1 ∉ "kind" :: kind.fieldNames) :
    e.MadeOf (parts ++ extra.map Part.ofField) := by
  obtain ⟨hname, ⟨access, haccess, hgetA⟩, ⟨children, hchildren, hgetC⟩, hdecl⟩ := h
  obtain ⟨hnames, haccesses, hlists, hothers⟩ := filterMap_ofField extra
  refine ⟨?_, ⟨access, ?_, hgetA⟩, ⟨children, ?_, hgetC⟩, ?_⟩
  · rw [List.filterMap_append, hnames, List.append_nil, hname]
  · rw [List.filterMap_append, haccesses, List.append_nil, haccess]
  · rw [List.filterMap_append, hlists, List.append_nil, hchildren]
  · rw [List.filterMap_append, hothers]
    exact Declaration.ofFields_append hdecl hkind hextra

/-- Another value that is the same list of parameters does not matter. -/
theorem params {front back : List Part} {c c' : Content}
    (h : e.MadeOf (front ++ .other "params" c :: back))
    (hc : ∀ ps, Fields.ofList c = .ok ps → Fields.ofList c' = .ok ps) :
    e.MadeOf (front ++ .other "params" c' :: back) := by
  obtain ⟨hname, ⟨access, haccess, hgetA⟩, ⟨children, hchildren, hgetC⟩, hdecl⟩ := h
  simp only [List.filterMap_append, List.filterMap_cons, Part.name?, Part.access?, Part.children?,
    Part.other?] at hname haccess hchildren hdecl
  refine ⟨?_, ⟨access, ?_, hgetA⟩, ⟨children, ?_, hgetC⟩, ?_⟩
  · simpa [List.filterMap_cons, Part.name?] using hname
  · simpa [List.filterMap_cons, Part.access?] using haccess
  · simpa [List.filterMap_cons, Part.children?] using hchildren
  · simp only [List.filterMap_append, List.filterMap_cons, Part.other?]
    exact Declaration.ofFields_params hdecl hc

end MadeOf

end Entity

end FlatApi
