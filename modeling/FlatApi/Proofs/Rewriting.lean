import FlatApi.Proofs.Unfolding
import FlatApi.Proofs.Writing

/-!
# Entities written in other ways

An entity may be written with its fields in any order, and with foreign fields among them, on all
levels (`Entity.Rewritten`).  Main statement:

* `Entity.read_rewritten`: it is read as the same entity, exactly if there is room for the aliases.

Whatever is written with aliases is read as the tree that it stands for, so orders and foreign
fields are looked at in trees only.  Aliases in foreign fields are followed all the same.
-/

namespace FlatApi

open Yaml (Content Document Node Path Read Scalar Tag)
open Yaml.Node (ofText ofBool entry)
open Yaml.Read (Gives Mirrors Steady)

/-! ## Foreign fields -/

namespace Yaml.Node

/-- A value without tags and without integers of more than 64 bits, nested `depth` deep at most. -/
def IsLoose : Nat → Node → Prop
  | _, .scalar tag text style => tag = none ∧ ∀ n, Scalar.resolve none text style ≠ .ok (.wide n)
  | depth + 1, .sequence tag items => tag = none ∧ ∀ item ∈ items, item.IsLoose depth
  | depth + 1, .mapping tag entries =>
    tag = none ∧ ∀ entry ∈ entries, entry.1.IsLoose depth ∧ entry.2.IsLoose depth
  | _, _ => False

/-- The second list has the entries of the first one in any order, and foreign ones with values of
any kind. -/
def Extends (foreign : Node → Prop) (depth : Nat) (entries entries' : List (Node × Node)) : Prop :=
  ∃ extra, (entries ++ extra).Perm entries' ∧
    ∀ entry ∈ extra, foreign entry.1 ∧ entry.2.IsLoose depth

end Yaml.Node

/-- The kind that a value names. -/
def Kind.ofNode : Node → Kind
  | .scalar tag text style => match Scalar.resolve tag text style with
    | .ok v => (Kind.ofContent (.scalar v)).toOption.getD .other
    | .error _ => .other
  | _ => .other

/-- The entry that declares the kind. -/
def Kind.isEntry (entry : Node × Node) : Bool := Read.stepOf entry.1 = .key "kind"

/-- The kind that the entries of an entity declare. -/
def Kind.declared (entries : List (Node × Node)) : Kind :=
  match entries.find? Kind.isEntry with
  | some entry => Kind.ofNode entry.2
  | none => .other

namespace Parameter

/-- A key that is a text and no field of a parameter. -/
def IsForeign (key : Node) : Prop :=
  ∃ text style, key = .scalar none text style ∧
    Scalar.resolve none text style = .ok (.string text) ∧ text ∉ ["name", "type"]

end Parameter

namespace Entity

/-- A key that is neither a field of every entity nor one of the declared kind. -/
def IsForeign (entries : List (Node × Node)) (key : Node) : Prop :=
  ∃ tag text style, key = .scalar tag text style ∧
    text ∉ ["name", "kind", "access", "children"] ++ (Kind.declared entries).fieldNames

/-- Other ways to write an entity when `depth` levels of nesting are left. -/
inductive Rewritten : Nat → Node → Node → Prop
  /-- The entries are in another order, or foreign ones are among them. -/
  | entries {depth : Nat} {tag : Option Tag} {entries entries' : List (Node × Node)}
      (h : Node.Extends (IsForeign entries) depth entries entries') :
      Rewritten (depth + 1) (.mapping tag entries) (.mapping tag entries')
  /-- A child is written in another way. -/
  | child {depth : Nat} {tag keyTag listTag : Option Tag} {style : Yaml.Style}
      {front back : List (Node × Node)} {before after : List Node} {n n' : Node}
      (h : Rewritten depth n n') :
      Rewritten (depth + 2)
        (.mapping tag (front ++ (.scalar keyTag "children" style,
          .sequence listTag (before ++ n :: after)) :: back))
        (.mapping tag (front ++ (.scalar keyTag "children" style,
          .sequence listTag (before ++ n' :: after)) :: back))
  /-- A parameter has its entries in another order, or foreign ones are among them. -/
  | parameter {depth : Nat} {tag keyTag listTag paramTag : Option Tag} {style : Yaml.Style}
      {front back : List (Node × Node)} {before after : List Node}
      {entries entries' : List (Node × Node)}
      (h : Node.Extends Parameter.IsForeign depth entries entries') :
      Rewritten (depth + 3)
        (.mapping tag (front ++ (.scalar keyTag "params" style,
          .sequence listTag (before ++ .mapping paramTag entries :: after)) :: back))
        (.mapping tag (front ++ (.scalar keyTag "params" style,
          .sequence listTag (before ++ .mapping paramTag entries' :: after)) :: back))
  | trans {depth : Nat} {n m n' : Node} (h : Rewritten depth n m) (h' : Rewritten depth m n') :
      Rewritten depth n n'

end Entity

/-! ## Content without aliases -/

namespace Yaml.Read

/-- Without room no alias is followed. -/
theorem follow_void_alias {path : Path} {slot c : Nat} {r : (Path × Node) × Nat} :
    follow path (.alias slot) .void c ≠ .ok r := by
  intro h
  obtain ⟨-, hroom, -⟩ := run_follow.mp h
  have hvoid : Document.room .void = 0 := rfl
  simp [Node.hops, hvoid] at hroom

theorem gives_textAs {expected name : String} {path : Path} {n : Node}
    (h : Gives .void (textAs expected path n) name 0) :
    ∃ tag style, n = .scalar tag name style := by
  obtain ⟨⟨place, m⟩, c, hfollow, hrun⟩ := run_bind.mp (h.run 0)
  obtain ⟨hplace, hroom, rfl⟩ := run_follow.mp hfollow
  match n with
  | .scalar tag text style =>
    cases hplace
    cases hrun
    exact ⟨tag, style, rfl⟩
  | .sequence .. | .mapping .. =>
    cases hplace
    exact absurd hrun run_fail
  | .alias slot => exact absurd hfollow follow_void_alias

/-- One of several items, and what is read from another one in its place. -/
theorem exists_of_gives_each {α : Type} {read : Path → Node → Read α} {path : Path}
    {before after : List Node} {n : Node} {vs : List α}
    (hsteady : ∀ path n, Steady .void (read path n))
    (h : Gives .void (each read path (before ++ n :: after)) vs 0) :
    ∃ front v back place, vs = front ++ v :: back ∧ Gives .void (read place n) v 0 ∧
      ∀ n' v', Gives .void (read place n') v' 0 →
        Gives .void (each read path (before ++ n' :: after)) (front ++ v' :: back) 0 := by
  unfold each at h ⊢
  simp only [List.zipIdx_append, List.zipIdx_cons] at h ⊢
  rw [gives_void_mapM fun item _ => hsteady _ item.1] at h
  obtain ⟨front, v, back, rfl, hv, hrest⟩ := exists_of_forall₂_append_cons h
  exact ⟨front, v, back, _, rfl, hv, fun n' v' hv' => gives_mapM (hrest (n', _) v' hv')⟩

end Yaml.Read

namespace Yaml.Content

theorem resolve_none (text : String) (style : Style) :
    ∃ v, Scalar.resolve none text style = .ok v := by
  unfold Scalar.resolve
  dsimp only
  split
  · exact ⟨_, rfl⟩
  · exact ⟨_, rfl⟩

/-- A loose value is read as some content, wherever it stands. -/
theorem exists_gives_of_isLoose {d : Document} : ∀ {depth : Nat} {n : Node}, n.IsLoose depth →
    ∃ content, ∀ path, Gives d (read depth path n) content 0
  | depth, .scalar tag text style, h => by
    have hloose : tag = none ∧ ∀ n, Scalar.resolve none text style ≠ .ok (.wide n) := by
      cases depth <;> exact h
    obtain ⟨rfl, hwide⟩ := hloose
    obtain ⟨v, hv⟩ := resolve_none text style
    refine ⟨.scalar v, gives_scalar rfl hv fun n hn => hwide n ?_⟩
    rw [hv, hn]
  | depth + 1, .sequence tag items, h => by
    obtain ⟨rfl, hitems⟩ := h
    obtain ⟨cs, hcs⟩ := exists_forall₂ fun item hitem =>
      exists_gives_of_isLoose (d := d) (hitems item hitem)
    exact ⟨.sequence cs, gives_sequence rfl hcs⟩
  | depth + 1, .mapping tag entries, h => by
    obtain ⟨rfl, hentries⟩ := h
    have hpair : ∀ entry ∈ entries, ∃ ce : Content × Content,
        (∀ path, Gives d (read depth path entry.1) ce.1 0) ∧
        ∀ path, Gives d (read depth path entry.2) ce.2 0 := by
      intro entry hentry
      obtain ⟨key, hkey⟩ := exists_gives_of_isLoose (d := d) (hentries entry hentry).1
      obtain ⟨value, hvalue⟩ := exists_gives_of_isLoose (d := d) (hentries entry hentry).2
      exact ⟨(key, value), hkey, hvalue⟩
    obtain ⟨ces, hces⟩ := exists_forall₂ hpair
    exact ⟨.mapping ces, gives_mapping rfl hces⟩
  | 0, .sequence .., h | 0, .mapping .., h | 0, .alias _, h | _ + 1, .alias _, h => h.elim

section Collections

variable {depth : Nat} {path : Path} {tag : Option Tag} {content : Content}

/-- What is read unless there is a tag of its own. -/
theorem gives_untagged {act : Read Content} {b : Bool} {place : Path} {cause : Yaml.Cause} :
    Gives .void (if b then Read.fail place cause else act) content 0 ↔
      b = false ∧ Gives .void act content 0 := by
  cases b with
  | false => simp
  | true =>
    refine iff_of_false (fun h => ?_) (fun h => Bool.noConfusion h.1)
    exact Read.run_fail (h.run 0)

theorem gives_sequence_iff {items : List Node} :
    Gives .void (read (depth + 1) path (.sequence tag items)) content 0 ↔
      (tag.bind Tag.name?).isSome = false ∧
        ∃ cs, Gives .void (Read.each (read depth) path items) cs 0 ∧ .sequence cs = content := by
  have hread : read (depth + 1) path (.sequence tag items) =
      if (tag.bind Tag.name?).isSome then Read.fail path .strayTag
      else .sequence <$> Read.each (read depth) path items := by
    rw [read]
    rfl
  rw [hread, gives_untagged, Read.gives_void_map (Steady.each _ (steady_read depth) _)]

theorem gives_mapping_iff {entries : List (Node × Node)} :
    Gives .void (read (depth + 1) path (.mapping tag entries)) content 0 ↔
      (tag.bind Tag.name?).isSome = false ∧
        ∃ ces, List.Forall₂ (fun entry ce => Gives .void (read depth path entry.1) ce.1 0 ∧
          Gives .void (read depth (Read.stepOf entry.1 :: path) entry.2) ce.2 0) entries ces ∧
          .mapping ces = content := by
  have hsteady : ∀ entry : Node × Node, Steady .void (do
      return (← read depth path entry.1, ← read depth (Read.stepOf entry.1 :: path) entry.2)) :=
    fun entry => (steady_read depth _ _).pair (steady_read depth _ _)
  have hread : read (depth + 1) path (.mapping tag entries) =
      if (tag.bind Tag.name?).isSome then Read.fail path .strayTag
      else .mapping <$> entries.mapM fun entry => do
        return (← read depth path entry.1, ← read depth (Read.stepOf entry.1 :: path) entry.2) := by
    rw [read]
    rfl
  rw [hread, gives_untagged, Read.gives_void_map (Steady.mapM fun entry _ => hsteady entry)]
  simp only [Read.gives_void_mapM fun entry _ => hsteady entry,
    Read.gives_void_pair (steady_read depth _ _) (steady_read depth _ _)]

theorem gives_scalar_iff {text : String} {style : Yaml.Style} :
    Gives .void (read depth path (.scalar tag text style)) content 0 ↔
      (tag.bind Tag.name?).isSome = false ∧ ∃ v, Scalar.resolve tag text style = .ok v ∧
        (∀ n, v ≠ .wide n) ∧ .scalar v = content := by
  rw [read]
  show Gives .void (if (tag.bind Tag.name?).isSome then _ else _) content 0 ↔ _
  rw [gives_untagged]
  refine and_congr_right fun _ => ?_
  cases Scalar.resolve tag text style with
  | error kind =>
    refine iff_of_false (fun h => Read.run_fail (h.run 0)) ?_
    rintro ⟨_, hv, -⟩
    cases hv
  | ok v =>
    cases v with
    | wide n =>
      refine iff_of_false (fun h => Read.run_fail (h.run 0)) ?_
      rintro ⟨_, hv, hwide, -⟩
      cases hv
      exact hwide n rfl
    | _ =>
      constructor
      · intro h
        refine ⟨_, rfl, ?_, (Read.run_pure.mp (h.run 0)).1⟩
        intro n hwide
        cases hwide
      · rintro ⟨_, hv, -, rfl⟩
        cases hv
        exact Gives.pure _

/-- Content that is a scalar is read from a scalar. -/
theorem scalar_of_gives {n : Node} {v : Scalar}
    (h : Gives .void (read depth path n) (.scalar v) 0) :
    ∃ tag text style, n = .scalar tag text style ∧ Scalar.resolve tag text style = .ok v := by
  match n with
  | .scalar tag text style =>
    obtain ⟨-, w, hw, -, hcontent⟩ := gives_scalar_iff.mp h
    cases hcontent
    exact ⟨tag, text, style, rfl, hw⟩
  | .sequence tag items =>
    cases depth with
    | zero =>
      have hread : read 0 path (.sequence tag items) =
          if (tag.bind Tag.name?).isSome then Read.fail path .strayTag else Read.tooDeep := by
        rw [read]
        rfl
      rw [hread, gives_untagged] at h
      exact absurd (h.2.run 0) Read.run_throw
    | succ depth =>
      obtain ⟨-, cs, -, hcs⟩ := gives_sequence_iff.mp h
      cases hcs
  | .mapping tag entries =>
    cases depth with
    | zero =>
      have hread : read 0 path (.mapping tag entries) =
          if (tag.bind Tag.name?).isSome then Read.fail path .strayTag else Read.tooDeep := by
        rw [read]
        rfl
      rw [hread, gives_untagged] at h
      exact absurd (h.2.run 0) Read.run_throw
    | succ depth =>
      obtain ⟨-, ces, -, hces⟩ := gives_mapping_iff.mp h
      cases hces
  | .alias slot =>
    have hrun := h.run 0
    unfold read at hrun
    obtain ⟨r, c, hfollow, -⟩ := Read.run_bind.mp hrun
    exact absurd hfollow Read.follow_void_alias

end Collections

end Yaml.Content

/-! ## Entities without aliases -/

namespace Entity

section Parts

variable {depth : Nat} {child : Path → Node → Read Entity} {path : Path} {entry : Node × Node}
  {φ : Part}

/-- The key of a part is a scalar. -/
theorem gives_part_iff : Gives .void (part depth child path entry) φ 0 ↔
    ∃ tag text style, entry.1 = .scalar tag text style ∧
      Gives .void (valueOf depth child text (.key text :: path) entry.2) φ 0 := by
  unfold part
  rw [Read.gives_void_bind (Steady.textAs _ _ _)]
  obtain ⟨key, value⟩ := entry
  constructor
  · rintro ⟨text, hkey, hvalue⟩
    obtain ⟨tag, style, rfl⟩ := Read.gives_textAs hkey
    exact ⟨tag, text, style, rfl, hvalue⟩
  · rintro ⟨tag, text, style, rfl, hvalue⟩
    exact ⟨text, fun _ _ => rfl, hvalue⟩

/-- What was put aside is the content of a field. -/
theorem gives_part_other (hchild : ∀ path n, Steady .void (child path n)) {key : String}
    {content : Content} (h : Gives .void (part depth child path entry) (.other key content) 0) :
    ∃ tag style, entry.1 = .scalar tag key style ∧
      Gives .void (Content.read depth (.key key :: path) entry.2) content 0 := by
  obtain ⟨tag, text, style, hkey, hvalue⟩ := gives_part_iff.mp h
  by_cases hname : text = "name"
  · subst hname
    obtain ⟨_, -, hpart⟩ := (Read.gives_void_map (Steady.textAs _ _ _)).mp hvalue
    cases hpart
  · by_cases haccess : text = "access"
    · subst haccess
      obtain ⟨_, -, hpart⟩ := (Read.gives_void_map (Steady.variant _ _ _)).mp hvalue
      cases hpart
    · by_cases hchildren : text = "children"
      · subst hchildren
        obtain ⟨_, -, hpart⟩ := (Read.gives_void_map (Steady.listOf _ _ hchild _)).mp hvalue
        cases hpart
      · rw [valueOf_other hname haccess hchildren,
          Read.gives_void_map (Content.steady_read _ _ _)] at hvalue
        obtain ⟨_, hcontent, hpart⟩ := hvalue
        cases hpart
        exact ⟨tag, style, hkey, hcontent⟩

theorem gives_read_mapping {tag : Option Tag} {entries : List (Node × Node)} {e : Entity} :
    Gives .void (read (depth + 1) path (.mapping tag entries)) e 0 ↔
      ∃ parts, List.Forall₂ (fun entry φ =>
        Gives .void (part depth (childOf (depth + 1)) path entry) φ 0) entries parts ∧
        e.MadeOf parts := by
  have hsteady : ∀ entry ∈ entries, Steady .void (part depth (childOf (depth + 1)) path entry) :=
    fun entry _ => steady_part (steady_childOf _) entry
  rw [read_eq]
  constructor
  · intro h
    obtain ⟨place, _, _, c, hfollow, -, parts, hparts, hmade⟩ := readWith_eq_ok.mp (h.run 0)
    obtain ⟨hplace, -, -⟩ := Read.run_follow.mp hfollow
    cases hplace
    have hgives := Read.gives_void_of_run (Steady.mapM hsteady) hparts
    exact ⟨parts, (Read.gives_void_mapM hsteady).mp hgives, hmade⟩
  · rintro ⟨parts, hparts, hmade⟩
    exact gives_readWith (k := 0) rfl (Nat.succ_ne_zero depth) (Read.gives_mapM hparts) hmade

/-- The values of the kind are those behind its key. -/
theorem forall₂_kinds (hchild : ∀ path n, Steady .void (child path n))
    {entries : List (Node × Node)} {parts : List Part}
    (h : List.Forall₂ (fun entry φ => Gives .void (part depth child path entry) φ 0)
      entries parts) :
    List.Forall₂
      (fun entry value => ∃ place, Gives .void (Content.read depth place entry.2) value 0)
      (entries.filter Kind.isEntry)
      (valuesOf (Fields.isNamed "kind") (parts.filterMap Part.other?)) := by
  induction h with
  | nil => exact .nil
  | @cons entry φ entries parts hφ _ ih =>
    obtain ⟨tag, text, style, hkey, hvalue⟩ := gives_part_iff.mp hφ
    by_cases hkind : text = "kind"
    · subst hkind
      rw [valueOf_other (by decide) (by decide) (by decide),
        Read.gives_void_map (Content.steady_read _ _ _)] at hvalue
      obtain ⟨value, hvalue, rfl⟩ := hvalue
      have hhead : Kind.isEntry entry = true := by simp [Kind.isEntry, hkey, Read.stepOf]
      rw [List.filter_cons_of_pos hhead]
      exact .cons ⟨_, hvalue⟩ ih
    · have hhead : ¬ Kind.isEntry entry = true := by simp [Kind.isEntry, hkey, Read.stepOf, hkind]
      rw [List.filter_cons_of_neg hhead]
      cases φ with
      | name | access | children => exact ih
      | other key content =>
        obtain ⟨tag', style', hkey', -⟩ := gives_part_other hchild hφ
        rw [hkey] at hkey'
        cases hkey'
        simpa [List.filterMap_cons, Part.other?, valuesOf, Fields.isNamed, hkind] using ih

/-- The declared kind is the one that is read. -/
theorem declared_eq (hchild : ∀ path n, Steady .void (child path n))
    {entries : List (Node × Node)} {parts : List Part} {kind : Kind}
    (h : List.Forall₂ (fun entry φ => Gives .void (part depth child path entry) φ 0) entries parts)
    (hkind : Kind.ofFields (parts.filterMap Part.other?) = .ok kind) :
    Kind.declared entries = kind := by
  obtain ⟨value, hvalues, hof⟩ := fills_some_iff.mp (Kind.ofFields_eq_ok.mp hkind)
  have hentries := forall₂_kinds hchild h
  rw [hvalues] at hentries
  obtain ⟨entry, _, ⟨place, hgives⟩, hnil, hfilter⟩ := List.forall₂_cons_right_iff.mp hentries
  obtain rfl := List.forall₂_nil_right_iff.mp hnil
  have hfind : entries.find? Kind.isEntry = some entry := by
    rw [← List.head?_filter, hfilter]
    rfl
  unfold Kind.declared
  rw [hfind]
  show Kind.ofNode entry.2 = kind
  cases value with
  | sequence | mapping => cases hof
  | scalar v =>
    obtain ⟨tag, text, style, hnode, hresolve⟩ := Content.scalar_of_gives hgives
    rw [hnode, Kind.ofNode, hresolve]
    show (Kind.ofContent (.scalar v)).toOption.getD .other = kind
    rw [hof]
    rfl

end Parts

/-! ## One rewriting -/

section Steps

variable {depth : Nat} {path : Path} {tag : Option Tag} {e : Entity}

/-- A foreign entry is put aside as a field of another kind. -/
theorem exists_field_of_foreign (child : Path → Node → Read Entity) (path : Path)
    {entries : List (Node × Node)} {entry : Node × Node} (hkey : IsForeign entries entry.1)
    (hvalue : entry.2.IsLoose depth) :
    ∃ field : String × Content, field.1 ∉ "kind" :: (Kind.declared entries).fieldNames ∧
      Gives .void (part depth child path entry) (Part.ofField field) 0 := by
  obtain ⟨keyTag, text, style, hkey, htext⟩ := hkey
  obtain ⟨content, hcontent⟩ := Content.exists_gives_of_isLoose (d := .void) hvalue
  simp only [List.cons_append, List.nil_append, List.mem_cons, not_or] at htext
  obtain ⟨hname, hkind, haccess, hchildren, hfields⟩ := htext
  refine ⟨(text, content), ?_, gives_part_iff.mpr ⟨keyTag, text, style, hkey, ?_⟩⟩
  · simp only [List.mem_cons, not_or]
    exact ⟨hkind, hfields⟩
  · rw [valueOf_other hname haccess hchildren]
    exact (hcontent _).map _

theorem gives_extended {entries entries' : List (Node × Node)}
    (h : Node.Extends (IsForeign entries) depth entries entries')
    (hread : Gives .void (read (depth + 1) path (.mapping tag entries)) e 0) :
    Gives .void (read (depth + 1) path (.mapping tag entries')) e 0 := by
  obtain ⟨extra, hperm, hextra⟩ := h
  obtain ⟨parts, hparts, hmade⟩ := gives_read_mapping.mp hread
  obtain ⟨kind, hkind, -⟩ := Declaration.ofFields_eq_ok.mp hmade.decl
  have hdeclared := declared_eq (steady_childOf _) hparts hkind
  obtain ⟨fields, hfields⟩ := exists_forall₂ fun entry hentry =>
    exists_field_of_foreign (childOf (depth + 1)) path (hextra entry hentry).1
      (hextra entry hentry).2
  obtain ⟨hforeign, hgives⟩ := forall₂_and_right hfields
  rw [hdeclared] at hforeign
  -- The foreign entries have their parts at the end; then all parts follow the entries into their
  -- new order.
  have hall := List.rel_append hparts (List.forall₂_map_right_iff.mpr hgives)
  obtain ⟨parts', hparts', hperm'⟩ := List.perm_comp_forall₂ hperm.symm hall
  exact gives_read_mapping.mpr ⟨parts', hparts', (hmade.append hkind hforeign).perm hperm'.symm⟩

/-- One value may be replaced by another one that stands for the same part. -/
theorem gives_replaced {front back : List (Node × Node)} {key value value' : Node}
    (hvalue : ∀ φ, Gives .void (part depth (childOf (depth + 1)) path (key, value)) φ 0 →
      Gives .void (part depth (childOf (depth + 1)) path (key, value')) φ 0)
    (hread : Gives .void (read (depth + 1) path
      (.mapping tag (front ++ (key, value) :: back))) e 0) :
    Gives .void (read (depth + 1) path (.mapping tag (front ++ (key, value') :: back))) e 0 := by
  obtain ⟨parts, hparts, hmade⟩ := gives_read_mapping.mp hread
  obtain ⟨before, φ, after, rfl, hφ, hrest⟩ := exists_of_forall₂_append_cons hparts
  exact gives_read_mapping.mpr ⟨_, hrest _ _ (hvalue φ hφ), hmade⟩

/-- A list of children with one child written in another way. -/
theorem gives_child {front back : List (Node × Node)} {keyTag listTag : Option Tag}
    {style : Yaml.Style} {before after : List Node} {n n' : Node}
    (hchild : ∀ path e, Gives .void (read depth path n) e 0 → Gives .void (read depth path n') e 0)
    (hread : Gives .void (read (depth + 2) path (.mapping tag (front ++
      (.scalar keyTag "children" style,
        .sequence listTag (before ++ n :: after)) :: back))) e 0) :
    Gives .void (read (depth + 2) path (.mapping tag (front ++
      (.scalar keyTag "children" style,
        .sequence listTag (before ++ n' :: after)) :: back))) e 0 := by
  refine gives_replaced (fun φ hφ => ?_) hread
  obtain ⟨keyTag', text, style', hkey, hvalue⟩ := gives_part_iff.mp hφ
  cases hkey
  obtain ⟨es, hes, rfl⟩ := (Read.gives_void_map (Steady.listOf _ _ (steady_childOf _) _)).mp hvalue
  refine gives_part_iff.mpr ⟨keyTag, "children", style, rfl, Gives.map (f := Part.children) ?_⟩
  obtain ⟨front, v, back, place, rfl, hv, hrest⟩ :=
    Read.exists_of_gives_each (steady_childOf (depth + 2)) hes
  exact hrest n' v (hchild place v hv)

end Steps

end Entity

namespace Parameter

variable {depth : Nat} {path : Path} {tag : Option Tag} {content : Content}

/-- A foreign entry of a parameter is read as another identifier. -/
theorem exists_content_of_foreign {entry : Node × Node} (hkey : IsForeign entry.1)
    (hvalue : entry.2.IsLoose depth) :
    ∃ ce : Content × Content,
      (∃ s, ce.1 = .scalar (.string s) ∧ s ≠ "name" ∧ s ≠ "type") ∧
      ∀ path, Gives .void (Content.read depth path entry.1) ce.1 0 ∧
        Gives .void (Content.read depth (Read.stepOf entry.1 :: path) entry.2) ce.2 0 := by
  obtain ⟨text, style, hkey, hresolve, htext⟩ := hkey
  obtain ⟨value, hgives⟩ := Content.exists_gives_of_isLoose (d := .void) hvalue
  simp only [List.mem_cons, List.not_mem_nil, or_false, not_or] at htext
  refine ⟨(.scalar (.string text), value), ⟨text, rfl, htext⟩, fun path => ⟨?_, hgives _⟩⟩
  rw [hkey]
  exact Content.gives_scalar rfl hresolve (by simp) path

/-- A parameter written in another way is read as other content, but as the same parameter. -/
theorem exists_gives_extended {entries entries' : List (Node × Node)}
    (h : Node.Extends IsForeign depth entries entries')
    (hread : Gives .void (Content.read (depth + 1) path (.mapping tag entries)) content 0) :
    ∃ content', Gives .void (Content.read (depth + 1) path (.mapping tag entries')) content' 0 ∧
      ∀ p, ofContent content = .ok p → ofContent content' = .ok p := by
  obtain ⟨extra, hperm, hextra⟩ := h
  obtain ⟨htag, ces, hces, rfl⟩ := Content.gives_mapping_iff.mp hread
  obtain ⟨others, hothers⟩ := exists_forall₂ fun entry hentry =>
    exists_content_of_foreign (hextra entry hentry).1 (hextra entry hentry).2
  obtain ⟨hforeign, hgives⟩ := forall₂_and_right hothers
  have hall := List.rel_append hces (hgives.imp fun entry ce hce => hce path)
  obtain ⟨ces', hces', hperm'⟩ := List.perm_comp_forall₂ hperm.symm hall
  refine ⟨.mapping ces', Content.gives_mapping_iff.mpr ⟨htag, ces', hces', rfl⟩, fun p hp => ?_⟩
  exact ofContent_perm (ofContent_append hp hforeign) hperm'.symm

/-- The same for a list of parameters with one that is written in another way. -/
theorem exists_gives_replaced {listTag : Option Tag} {before after : List Node} {n n' : Node}
    (hn : ∀ path content, Gives .void (Content.read depth path n) content 0 →
      ∃ content', Gives .void (Content.read depth path n') content' 0 ∧
        ∀ p, ofContent content = .ok p → ofContent content' = .ok p)
    (hread : Gives .void (Content.read (depth + 1) path (.sequence listTag (before ++ n :: after)))
      content 0) :
    ∃ content', Gives .void (Content.read (depth + 1) path
        (.sequence listTag (before ++ n' :: after))) content' 0 ∧
      ∀ ps, Fields.ofList content = .ok ps → Fields.ofList content' = .ok ps := by
  obtain ⟨htag, cs, hcs, rfl⟩ := Content.gives_sequence_iff.mp hread
  obtain ⟨front, c, back, place, rfl, hc, hrest⟩ :=
    Read.exists_of_gives_each (Content.steady_read depth) hcs
  obtain ⟨c', hc', hsame⟩ := hn place c hc
  refine ⟨.sequence (front ++ c' :: back),
    Content.gives_sequence_iff.mpr ⟨htag, _, hrest n' c' hc', rfl⟩, fun ps hps => ?_⟩
  have hof : ∀ cs, Fields.ofList (.sequence cs) = cs.mapM ofContent := fun cs => rfl
  rw [hof] at hps ⊢
  obtain ⟨front', p, back', rfl, hp, hothers⟩ := exists_of_forall₂_append_cons (mapM_eq_ok.mp hps)
  exact mapM_eq_ok.mpr (hothers c' p (hsame p hp))

end Parameter

namespace Entity

variable {depth : Nat} {path : Path} {tag : Option Tag} {e : Entity}

/-- Parameters with one that is written in another way. -/
theorem gives_parameter {front back : List (Node × Node)} {keyTag listTag : Option Tag}
    {style : Yaml.Style} {before after : List Node} {n n' : Node}
    (hn : ∀ path content, Gives .void (Content.read depth path n) content 0 →
      ∃ content', Gives .void (Content.read depth path n') content' 0 ∧
        ∀ p, Parameter.ofContent content = .ok p → Parameter.ofContent content' = .ok p)
    (hread : Gives .void (read (depth + 2) path (.mapping tag (front ++
      (.scalar keyTag "params" style,
        .sequence listTag (before ++ n :: after)) :: back))) e 0) :
    Gives .void (read (depth + 2) path (.mapping tag (front ++
      (.scalar keyTag "params" style,
        .sequence listTag (before ++ n' :: after)) :: back))) e 0 := by
  obtain ⟨parts, hparts, hmade⟩ := gives_read_mapping.mp hread
  obtain ⟨front', φ, back', rfl, hφ, hrest⟩ := exists_of_forall₂_append_cons hparts
  obtain ⟨keyTag', text, style', hkey, hvalue⟩ := gives_part_iff.mp hφ
  cases hkey
  rw [valueOf_other (by decide) (by decide) (by decide),
    Read.gives_void_map (Content.steady_read _ _ _)] at hvalue
  obtain ⟨content, hcontent, rfl⟩ := hvalue
  obtain ⟨content', hcontent', hsame⟩ := Parameter.exists_gives_replaced hn hcontent
  refine gives_read_mapping.mpr ⟨_, hrest _ (.other "params" content') ?_, hmade.params hsame⟩
  refine gives_part_iff.mpr ⟨keyTag, "params", style, rfl, ?_⟩
  rw [valueOf_other (by decide) (by decide) (by decide)]
  exact hcontent'.map _

/-! ## All rewritings -/

/-- Without aliases, an entity is read as the same one when it is written in another way. -/
theorem Rewritten.gives {n n' : Node} (h : Rewritten depth n n') :
    ∀ path e, Gives .void (read depth path n) e 0 → Gives .void (read depth path n') e 0 := by
  induction h with
  | entries h => exact fun path e => gives_extended h
  | child _ ih => exact fun path e => gives_child ih
  | parameter h => exact fun path e =>
      gives_parameter fun path content => Parameter.exists_gives_extended h
  | trans _ _ ih ih' => exact fun path e hread => ih' path e (ih path e hread)

/-- The kind is written as a text that is no name of a kind. -/
def HasUnknownKind (entries : List (Node × Node)) : Prop :=
  ∃ keyTag keyStyle tag s style,
    (Node.scalar keyTag "kind" keyStyle, Node.scalar tag s style) ∈ entries ∧
      Scalar.resolve tag s style = .ok (.string s) ∧
      s ∉ ["namespace", "class", "free-function", "member-function", "member-variable"]

theorem ofIdentifier_unknown {s : String}
    (h : s ∉ ["namespace", "class", "free-function", "member-function", "member-variable"]) :
    Kind.ofIdentifier (.name s) = .other := by
  simp only [List.mem_cons, List.not_mem_nil, or_false, not_or] at h
  unfold Kind.ofIdentifier
  split <;> simp_all

theorem decl_of_unknown {entries : List (Node × Node)} (h : HasUnknownKind entries)
    (hread : Gives .void (read (depth + 1) path (.mapping tag entries)) e 0) : e.decl = .other := by
  obtain ⟨keyTag, keyStyle, valueTag, s, style, hmem, hresolve, hs⟩ := h
  obtain ⟨front, back, rfl⟩ := List.append_of_mem hmem
  obtain ⟨parts, hparts, hmade⟩ := gives_read_mapping.mp hread
  obtain ⟨front', φ, back', rfl, hφ, -⟩ := exists_of_forall₂_append_cons hparts
  obtain ⟨_, _, _, hkey, hvalue⟩ := gives_part_iff.mp hφ
  cases hkey
  rw [valueOf_other (by decide) (by decide) (by decide),
    Read.gives_void_map (Content.steady_read _ _ _)] at hvalue
  obtain ⟨content, hcontent, rfl⟩ := hvalue
  obtain ⟨-, v, hv, -, rfl⟩ := Content.gives_scalar_iff.mp hcontent
  obtain rfl : .string s = v := Except.ok.inj (hresolve.symm.trans hv)
  obtain ⟨kind, hkind, hdecl⟩ := Declaration.ofFields_eq_ok.mp hmade.decl
  obtain ⟨value, hvalues, hof⟩ := fills_some_iff.mp (Kind.ofFields_eq_ok.mp hkind)
  -- There is one value for the kind only, so that it is the one written here.
  have hmember : Content.scalar (.string s) ∈ valuesOf (Fields.isNamed "kind")
      ((front' ++ Part.other "kind" (.scalar (.string s)) :: back').filterMap Part.other?) := by
    simp [valuesOf, Part.other?, Fields.isNamed]
  rw [hvalues, List.mem_singleton] at hmember
  rw [← hmember] at hof
  have hother : Kind.other = kind := by
    rw [← ofIdentifier_unknown hs]
    exact Except.ok.inj hof
  rw [← hother] at hdecl
  exact hdecl

/-- **An entity is read as the same one** when its entries, or those of a child or parameter at any
depth, are in another order or foreign ones are among them; the only thing that stops it is the
limit for following aliases.  A text that is no name of a kind makes an entity of another kind. -/
theorem read_rewritten {d d' : Document} {depth : Nat} {path path' : Path} {n n' t t' : Node}
    {k k' c c₁ : Nat} {e : Entity} (ht : d.unfold depth n = some (t, k))
    (ht' : d'.unfold depth n' = some (t', k')) (h : Rewritten depth t t')
    (hread : read depth path n d c = .ok (e, c₁)) :
    (∀ e' c c', read depth path' n' d' c = .ok (e', c') ↔
      e' = e ∧ (k' = 0 ∨ c + k' ≤ d'.room) ∧ c' = c + k') ∧
      ∀ tag entries, t = .mapping tag entries → HasUnknownKind entries → e.decl = .other := by
  -- From the document to its tree, to the other tree, and from there to the other document.
  obtain ⟨hgives, -⟩ := (mirrors_read ht path [] c e c₁).mp hread
  have hgives' := h.gives [] e hgives
  refine ⟨fun e' c c' => ?_, fun tag entries hmapping hunknown => ?_⟩
  · rw [mirrors_read ht' path' [] c e' c']
    refine and_congr_left fun _ => ⟨fun hother => ?_, fun heq => heq ▸ hgives'⟩
    have hsame := (hother.run 0).symm.trans (hgives'.run 0)
    exact (Prod.mk.inj (Except.ok.inj hsame)).1
  · rw [hmapping] at hgives
    cases depth with
    | zero =>
      rw [read_eq] at hgives
      obtain ⟨_, _, _, _, _, hdepth, _⟩ := readWith_eq_ok.mp (hgives.run 0)
      exact absurd rfl hdepth
    | succ depth => exact decl_of_unknown hunknown hgives

/-! ## A class that is drawn twice -/

/-- A class with a method. -/
def sketch : Entity :=
  { name := "Shape", decl := .classType true, children :=
      [{ name := "Move", decl :=
          .memberFunction { params := [{ name := "by", type := "int" }] } }] }

namespace Sketch

/-- The entries of the parameter. -/
def parameter : List (Node × Node) := [entry "name" (ofText "by"), entry "type" (ofText "int")]

/-- The entries of the method in front of its parameters. -/
def front : List (Node × Node) :=
  [entry "name" (ofText "Move"), entry "kind" (ofText "member-function"),
    entry "returns" (ofText "void")]

/-- The entries of the method behind its parameters. -/
def back : List (Node × Node) :=
  [entry "virtual" (ofBool false), entry "role" (ofText "method"),
    entry "access" (ofText "public")]

def method (parameter : Node) : List (Node × Node) :=
  front ++ entry "params" (.sequence none [parameter]) :: back

/-- The entries of the class in front of its children. -/
def head : List (Node × Node) :=
  [entry "name" (ofText "Shape"), entry "kind" (ofText "class"), entry "wrapper" (ofBool true),
    entry "access" (ofText "public")]

def shape (method : Node) : List (Node × Node) :=
  head ++ [entry "children" (.sequence none [method])]

/-- The entries in reverse, with one more. -/
def redraw (entries : List (Node × Node)) (key : String) (value : Node) : Node :=
  .mapping none (entries ++ [entry key value]).reverse

/-- Everything in reverse, with foreign entries on all levels: a note, a field of classes in the
method, and what a function returns in the class. -/
def redrawn (returns : Node) : Node :=
  redraw (shape (redraw (method (redraw parameter "note" (ofText "in pixels")))
    "wrapper" (.mapping none []))) "returns" returns

/-- A list, which no function returns. -/
def oddReturns : Node := .sequence none [ofText "int"]

/-- The document of the redrawn class, with an alias for the list. -/
def document : Document :=
  { root := redrawn (.alias 0), anchored := [{ slot := 0, place := 2, node := oddReturns }],
    size := 40 }

theorem extends_reverse {foreign : Node → Prop} {depth : Nat} {entries : List (Node × Node)}
    {key : String} {value : Node} (hkey : foreign (ofText key)) (hvalue : value.IsLoose depth) :
    Node.Extends foreign depth entries (entries ++ [entry key value]).reverse :=
  ⟨[entry key value], (List.reverse_perm _).symm, List.forall_mem_singleton.mpr ⟨hkey, hvalue⟩⟩

theorem isForeign_of_kind {entries : List (Node × Node)} {key : String} (kind : Kind)
    (hkind : Kind.declared entries = kind)
    (hkey : key ∉ ["name", "kind", "access", "children"] ++ kind.fieldNames) :
    IsForeign entries (ofText key) := by
  refine ⟨none, key, .quoted, rfl, ?_⟩
  rw [hkind]
  exact hkey

theorem rewritten : Rewritten 7 sketch.toNode (redrawn oddReturns) := by
  have hparameter : Node.Extends Parameter.IsForeign 2 parameter
      (parameter ++ [entry "note" (ofText "in pixels")]).reverse :=
    extends_reverse ⟨"note", .quoted, rfl, rfl, by decide⟩ ⟨rfl, nofun⟩
  have hmethod : ∀ p, Node.Extends (IsForeign (method p)) 4 (method p)
      (method p ++ [entry "wrapper" (.mapping none [])]).reverse := fun p =>
    extends_reverse (isForeign_of_kind .memberFunction rfl (by decide)) ⟨rfl, nofun⟩
  have hshape : ∀ m, Node.Extends (IsForeign (shape m)) 6 (shape m)
      (shape m ++ [entry "returns" oddReturns]).reverse := fun m =>
    extends_reverse (isForeign_of_kind .classType rfl (by decide))
      ⟨rfl, List.forall_mem_singleton.mpr ⟨rfl, nofun⟩⟩
  have hchild : Rewritten 5 (.mapping none (method (.mapping none parameter)))
      (redraw (method (redraw parameter "note" (ofText "in pixels")))
        "wrapper" (.mapping none [])) :=
    .trans (@Rewritten.parameter 2 none none none none .quoted front back [] [] _ _ hparameter)
      (.entries (hmethod _))
  exact .trans (@Rewritten.child 5 none none none .quoted head [] [] [] _ _ hchild)
    (.entries (hshape _))

end Sketch

/-- The redrawn class is read as the same class, and the alias in it is followed. -/
theorem read_redrawn :
    Document.unfold { root := sketch.toNode } 7 sketch.toNode = some (sketch.toNode, 0) ∧
    Sketch.document.unfold 7 Sketch.document.root = some (Sketch.redrawn Sketch.oddReturns, 1) ∧
    Rewritten 7 sketch.toNode (Sketch.redrawn Sketch.oddReturns) ∧
    read 7 [] sketch.toNode { root := sketch.toNode } 0 = .ok (sketch, 0) ∧
    read 7 [] Sketch.document.root Sketch.document 0 = .ok (sketch, 1) := by
  have hsketch : Document.unfold { root := sketch.toNode } 7 sketch.toNode =
      some (sketch.toNode, 0) := rfl
  have hredrawn : Sketch.document.unfold 7 Sketch.document.root =
      some (Sketch.redrawn Sketch.oddReturns, 1) := rfl
  have hread : read 7 [] sketch.toNode { root := sketch.toNode } 0 = .ok (sketch, 0) :=
    (gives_toNode sketch 7 [] (by decide)).run 0
  exact ⟨hsketch, hredrawn, Sketch.rewritten, hread,
    ((read_rewritten hsketch hredrawn Sketch.rewritten hread).1 sketch 0 1).mpr
      ⟨rfl, Or.inr (by decide), rfl⟩⟩

/-! ## A class with layers of aliases -/

/-- A class with nothing in it. -/
def blank : Entity := { name := "Shape", decl := .classType false }

namespace Layers

/-- The entries of the class. -/
def entries : List (Node × Node) :=
  [entry "name" (ofText "Shape"), entry "kind" (ofText "class"), entry "wrapper" (ofBool false),
    entry "access" (ofText "public")]

/-- A list of four words, or one that repeats the layer below four times. -/
def layer : Nat → Node
  | 0 => .sequence none (List.replicate 4 (ofText "x"))
  | n + 1 => .sequence none (List.replicate 4 (.alias n))

/-- The class with the entry
`"junk": [&a ["x", "x", "x", "x"], &b [*a, *a, *a, *a], …, &g [*f, *f, *f, *f]]` behind its own. -/
def document : Document :=
  { root := .mapping none (entries ++ [entry "junk" (.sequence none ((List.range 7).map layer))])
    anchored := (List.range 7).reverse.map fun n =>
      { slot := n, place := 6 * n + 11, node := layer n }
    size := 55 }

/-- What a layer stands for. -/
def tower : Nat → Node
  | 0 => .sequence none (List.replicate 4 (ofText "x"))
  | n + 1 => .sequence none (List.replicate 4 (tower n))

/-- What the document stands for. -/
def drawn : Node :=
  .mapping none (entries ++ [entry "junk" (.sequence none ((List.range 7).map tower))])

theorem isLoose_tower {n depth : Nat} (h : n < depth) : (tower n).IsLoose depth := by
  obtain ⟨depth, rfl⟩ := Nat.exists_eq_succ_of_ne_zero (Nat.ne_zero_of_lt h)
  induction n generalizing depth with
  | zero =>
    refine ⟨rfl, fun item hitem => ?_⟩
    rw [List.eq_of_mem_replicate hitem]
    cases depth <;> exact ⟨rfl, nofun⟩
  | succ n ih =>
    obtain ⟨depth, rfl⟩ := Nat.exists_eq_succ_of_ne_zero
      (Nat.ne_zero_of_lt (Nat.lt_of_succ_lt_succ h))
    refine ⟨rfl, fun item hitem => ?_⟩
    rw [List.eq_of_mem_replicate hitem]
    exact ih depth (Nat.lt_of_succ_lt_succ h)

theorem rewritten : Rewritten Yaml.depthLimit blank.toNode drawn := by
  refine .entries ⟨_, .refl _, List.forall_mem_singleton.mpr
    ⟨Sketch.isForeign_of_kind .classType rfl (by decide), rfl, fun item hitem => ?_⟩⟩
  obtain ⟨n, hn, rfl⟩ := List.mem_map.mp hitem
  exact isLoose_tower (Nat.lt_trans (List.mem_range.mp hn) (by decide))

end Layers

/-- A foreign entry alone makes the same class unreadable: it has no tag and no integer, and is
nested a few levels deep, but its aliases are followed too often. -/
theorem layers_refused :
    Document.unfold { root := blank.toNode } Yaml.depthLimit blank.toNode =
      some (blank.toNode, 0) ∧
    Layers.document.unfold Yaml.depthLimit Layers.document.root = some (Layers.drawn, 7272) ∧
    Rewritten Yaml.depthLimit blank.toNode Layers.drawn ∧
    Read.run read { root := blank.toNode } = .ok blank ∧
    ∀ e, Read.run read Layers.document ≠ .ok e := by
  have hlayers : Layers.document.unfold Yaml.depthLimit Layers.document.root =
      some (Layers.drawn, 7272) := rfl
  refine ⟨rfl, hlayers, Layers.rewritten, ?_, fun e hrun => ?_⟩
  · have hblank := (gives_toNode blank Yaml.depthLimit [] (by decide)).run
      (d := { root := blank.toNode }) 0
    rw [Read.run, hblank]
    rfl
  · obtain ⟨⟨e', c⟩, hread, -⟩ := bind_eq_ok.mp hrun
    obtain ⟨-, hnone | hroom, -⟩ := (mirrors_read hlayers [] [] 0 e' c).mp hread
    · cases hnone
    · exact absurd hroom (by decide)

end Entity

end FlatApi
