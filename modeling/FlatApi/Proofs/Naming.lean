import FlatApi.Proofs.Identifiers
import FlatApi.Proofs.QualifiedNames

/-!
# One rule for names

The names on the path to a node, each sanitized and all joined by underscores, are its name for the
registry (`named_by_path`).  Functions and methods ask for it with their qualified names, fields
with their own names behind an underscore and the qualified name of their class.  Both lead to the
same text: a pair of colons between two names is replaced on its own if the first name does not end
in a colon (`sanitize_pair`), and an underscore always keeps them apart (`sanitize_underscore`).
-/

namespace FlatApi

open Forest (Node)
open FlatApi.Symbol (EndsInColon sanitize)
open FlatApi.Symbol.Registry (Request)

/-! ## Names that are joined -/

namespace Symbol

/-- The names, sanitized one by one and joined by underscores. -/
def joined (names : List String) : String := "_".intercalate (names.map sanitize)

section Joined

theorem sanitize_pair {a : String} (ha : ¬ EndsInColon a) (b : String) :
    sanitize (a ++ "::" ++ b) = sanitize a ++ "_" ++ sanitize b := by
  have hpair : sanitize ("::" ++ b) = "_" ++ sanitize b := by
    rw [sanitize_eq_iff, String.toList_append, String.toList_append, toList_sanitize]
    rfl
  rw [String.append_assoc, sanitize_append (.inl ha), hpair, String.append_assoc]

theorem sanitize_underscore (a b : String) :
    sanitize (a ++ "_" ++ b) = sanitize a ++ "_" ++ sanitize b := by
  have hbegins : ¬ BeginsWithColon ("_" ++ b) := by
    rw [BeginsWithColon, String.toList_append]
    exact fun h => absurd (Option.some.inj h) (by decide)
  have hends : ¬ EndsInColon "_" := by decide
  rw [String.append_assoc, sanitize_append (.inr hbegins), sanitize_append (.inl hends),
    String.append_assoc]
  rfl

theorem joined_concat {names : List String} (h : names ≠ []) (name : String) :
    joined (names ++ [name]) = joined names ++ "_" ++ sanitize name := by
  have hne : names.map sanitize ≠ [] := fun hnil => h (List.map_eq_nil_iff.mp hnil)
  rw [joined, List.map_append, List.map_singleton,
    String.intercalate_append_of_ne_nil hne (List.cons_ne_nil _ _), String.intercalate_singleton,
    joined]

/-- A qualified name is sanitized name by name. -/
theorem sanitize_intercalate {scopes : List String} (h : ∀ x ∈ scopes, ¬ EndsInColon x)
    (name : String) :
    sanitize ("::".intercalate (scopes ++ [name])) = joined (scopes ++ [name]) := by
  induction scopes with
  | nil => simp [joined]
  | cons scope scopes ih =>
    obtain ⟨hscope, hscopes⟩ := List.forall_mem_cons.mp h
    have hne : scopes ++ [name] ≠ [] := by simp
    have hmap : (scopes ++ [name]).map sanitize ≠ [] := by simp
    rw [List.cons_append, String.intercalate_cons_of_ne_nil hne, sanitize_pair hscope,
      ih hscopes, joined, joined, List.map_cons, String.intercalate_cons_of_ne_nil hmap]

end Joined

end Symbol

open FlatApi.Symbol (joined joined_concat sanitize_intercalate sanitize_underscore)

/-! ## Names along paths -/

/-- The names of the named scopes on a path, the outermost first, and that of its last entity. -/
def Entity.namesAlong (above : List Entity) (e : Entity) : List String :=
  (above.filter (·.Qualifies)).map (·.name) ++ [e.name]

namespace Forest

section Paths

variable {es above : List Entity} {e : Entity} {n c : Node} {i : Nat}

/-- The path to a parent is what comes before the last step. -/
theorem Reaches.exists_of_parent? (h : Reaches (ofEntities es) es above e i)
    (hn : (ofEntities es).node? i = some n) (hc : (ofEntities es).parent? n = some c) :
    ∃ outer d k, above = outer ++ [d] ∧ Reaches (ofEntities es) es outer d k ∧
      (ofEntities es).node? k = some c := by
  cases h with
  | root hi he =>
    obtain ⟨m, hm, hnone⟩ := mem_roots_iff.mp (List.mem_of_getElem? hi)
    cases hn.symm.trans hm
    rw [parent?, hnone] at hc
    cases hc
  | @child outer d _ m k _ _ h hm hj _ =>
    obtain ⟨m', hm', hparent⟩ := (mem_children_iff hm).mp (List.mem_of_getElem? hj)
    cases hn.symm.trans hm'
    rw [parent?, hparent, Option.bind_some, hm] at hc
    cases hc
    exact ⟨outer, d, k, rfl, h, hm⟩

/-- A qualified name is sanitized name by name. -/
theorem sanitize_qualifiedName (h : Reaches (ofEntities es) es above e i)
    (hn : (ofEntities es).node? i = some n)
    (hcolons : ∀ a ∈ above, a.Qualifies → ¬ EndsInColon a.name) :
    sanitize ((ofEntities es).qualifiedName n) = joined (Entity.namesAlong above e) := by
  rw [qualifiedName_of_reaches h hn]
  refine sanitize_intercalate ?_ e.name
  intro x hx
  obtain ⟨a, ha, rfl⟩ := List.mem_map.mp hx
  obtain ⟨ha, hqualifies⟩ := List.mem_filter.mp ha
  exact hcolons a ha (of_decide_eq_true hqualifies)

/-- Behind the qualified name of a class with a name, an underscore does what a pair of colons does
in the qualified name of a member. -/
theorem sanitize_memberName (h : Reaches (ofEntities es) es above e i)
    (hn : (ofEntities es).node? i = some n)
    (hcolons : ∀ a ∈ above, a.Qualifies → ¬ EndsInColon a.name)
    (hc : (ofEntities es).parent? n = some c) (hclass : c.decl.isClass = true)
    (hname : c.name ≠ "") :
    sanitize ((ofEntities es).qualifiedName c ++ "_" ++ n.name) =
      joined (Entity.namesAlong above e) := by
  obtain ⟨outer, d, k, rfl, houter, hk⟩ := h.exists_of_parent? hn hc
  obtain ⟨_, rfl, -⟩ := houter.node_eq hk
  obtain ⟨_, rfl, -⟩ := h.node_eq hn
  have hqualifies : d.Qualifies := ⟨.inr (Declaration.isClass_iff.mp hclass), hname⟩
  have hnames : Entity.namesAlong (outer ++ [d]) e = Entity.namesAlong outer d ++ [e.name] := by
    simp [Entity.namesAlong, hqualifies]
  have hne : Entity.namesAlong outer d ≠ [] := by simp [Entity.namesAlong]
  rw [sanitize_underscore,
    sanitize_qualifiedName houter hk fun a ha => hcolons a (List.mem_append_left _ ha), hnames,
    joined_concat hne]
  rfl

end Paths

end Forest

/-! ## What the registry is asked for -/

/-- How a node is named if the names on its path are these. -/
structure Setting.NamedByPath (s : Setting) (n : Node) (names : List String) : Prop where
  qualifiedName_eq : sanitize (s.qualifiedName n) = joined names
  memberName_eq : ∀ c, s.parentClass? n = some c → c.name ≠ "" →
    sanitize (s.qualifiedName c ++ "_" ++ n.name) = joined names
  /-- What is noted for a function or method is the answer to a request for its qualified name,
  whatever is held. -/
  call : n.decl.isCallable = true → ∀ (l l' : Ledger) ws, l.emit s n = (.ok ws, l') →
    ∃ x, l'.records.functionName? n.id = some x ∧
      (Request.plain (s.qualifiedName n)).IsAnswer l.names.names x
  /-- What is noted for a field is the answer to a request for its name behind that of its class,
  together with its accessors. -/
  field : n.decl.isCallable = false → ∀ (l l' : Ledger) ws, l.emit s n = (.ok ws, l') →
    ∃ c x, s.parentClass? n = some c ∧ l'.records.functionName? n.id = some x ∧
      (Request.withHeads (s.qualifiedName c ++ "_" ++ n.name) FieldDraft.heads).IsAnswer
        l.names.names x

section Requests

variable {s : Setting} {n : Node} {d : Draft} {l l' : Ledger} {ws : List Wrapper}

/-- What is noted for a node is the answer to its first request. -/
theorem exists_noted_of_emit (hd : s.draft n = .ok (some d)) (h : l.emit s n = (.ok ws, l'))
    {q : Request} (hq : d.requests.head? = some q) :
    ∃ x, l'.records.functionName? n.id = some x ∧ q.IsAnswer l.names.names x := by
  rw [Pass.emit_of_some l hd, Prod.mk.injEq] at h
  obtain ⟨-, rfl⟩ := h
  refine ⟨_, Records.functionName?_setName _ n _, ?_⟩
  obtain ⟨qs, hrequests⟩ := List.head?_eq_some_iff.mp hq
  have hnote := Job.settle_note s.options d l.names
  rw [hrequests, Symbol.Registry.answers, List.head?_cons, Option.some.injEq] at hnote
  rw [← hnote]
  exact Symbol.Registry.issue_isAnswer l.names q

/-- The first request for a function is for its qualified name. -/
theorem head?_requests_of_call (hd : s.draft n = .ok (some d)) (hcall : n.decl.isCallable = true) :
    d.requests.head? = some (.plain (s.qualifiedName n)) := by
  rcases Setting.draft_ok_some hd with ⟨f, -, hd⟩ | ⟨m, -, hrole, hd⟩ | ⟨type, hdecl, -⟩
  · obtain ⟨_, _, -, -, rfl⟩ := Setting.draftFunction_ok hd
    rfl
  · obtain ⟨_, _, _, -, -, -, hd⟩ := Setting.draftMethod_ok hrole hd
    cases hd
    rfl
  · rw [hdecl] at hcall
    cases hcall

/-- The first request for a field is for its name behind that of the class. -/
theorem head?_requests_of_field (hd : s.draft n = .ok (some d))
    (hcall : n.decl.isCallable = false) :
    ∃ c, s.parentClass? n = some c ∧
      d.requests.head? =
        some (.withHeads (s.qualifiedName c ++ "_" ++ n.name) FieldDraft.heads) := by
  rcases Setting.draft_ok_some hd with ⟨f, hdecl, -⟩ | ⟨m, hdecl, -, -⟩ | ⟨type, -, hd⟩
  · rw [hdecl] at hcall
    cases hcall
  · rw [hdecl] at hcall
    cases hcall
  · obtain ⟨c, _, hc, -, f, rfl, hbase, -⟩ := Setting.draftField_ok hd
    refine ⟨c, hc, ?_⟩
    rw [← hbase]
    rfl

end Requests

/-- **One rule for names.**  If no scope around an exported node has a name that ends in a colon,
the node is named by the names on its path, be it a function, a method, or a field of a class with a
name. -/
theorem named_by_path (es : List Entity) (types : String → Option String) (options : Options)
    (i : Nat) (n : Node) (hn : (Forest.ofEntities es).node? i = some n)
    (hexported : n.isExported = true) :
    ∃ above e, Forest.Reaches (.ofEntities es) es above e i ∧
      ((∀ a ∈ above, a.Qualifies → ¬ EndsInColon a.name) →
        (Setting.ofEntities es types options).NamedByPath n (Entity.namesAlong above e)) := by
  obtain ⟨above, e, hpath⟩ := Forest.exists_reaches hn
  have hdecl : n.decl.isExportable = true := ((Bool.and_eq_true _ _).mp hexported).1
  refine ⟨above, e, hpath, fun hcolons => ?_⟩
  constructor
  case qualifiedName_eq => exact Forest.sanitize_qualifiedName hpath hn hcolons
  case memberName_eq =>
    intro c hc hname
    obtain ⟨hparent, hclass⟩ := Option.filter_eq_some_iff.mp hc
    exact Forest.sanitize_memberName hpath hn hcolons hparent hclass hname
  case call =>
    intro hcall l l' ws h
    obtain ⟨d, hd⟩ := Pass.exists_draft_of_emit hdecl h
    exact exists_noted_of_emit hd h (head?_requests_of_call hd hcall)
  case field =>
    intro hcall l l' ws h
    obtain ⟨d, hd⟩ := Pass.exists_draft_of_emit hdecl h
    obtain ⟨c, hc, hq⟩ := head?_requests_of_field hd hcall
    obtain ⟨x, hx, hanswer⟩ := exists_noted_of_emit hd h hq
    exact ⟨c, x, hc, hx, hanswer⟩

/-- A method and a field with the same scopes around, one of which has no name. -/
def Entity.sketches : List Entity :=
  [{ name := "::ui", decl := .nameSpace, children := [
    { name := "", decl := .nameSpace, children := [
      { name := "Größe<int>", decl := .classType true, children := [
        { name := "operator+", decl := .memberFunction {} },
        { name := "wert:", decl := .memberVariable "int" }] }] }] }]

theorem named_by_path_sketches :
    let s := Setting.ofEntities Entity.sketches TypeTable.builtins.lookup {}
    ∃ method field, s.forest.node? 3 = some method ∧ s.forest.node? 4 = some field ∧
      method.isExported = true ∧ field.isExported = true ∧
      s.NamedByPath method ["::ui", "Größe<int>", "operator+"] ∧
      s.NamedByPath field ["::ui", "Größe<int>", "wert:"] ∧
      (({} : Ledger).emit s method).2.records.functionName? 3 = some "_ui_Gr__e_int__operator_" ∧
      (({} : Ledger).emit s field).2.records.functionName? 4 = some "_ui_Gr__e_int__wert_" := by
  have hui : Forest.Reaches (.ofEntities Entity.sketches) Entity.sketches [] _ 0 :=
    .root (k := 0) rfl rfl
  have hunnamed := Forest.Reaches.child (k := 0) hui rfl rfl rfl
  have hclass := Forest.Reaches.child (k := 0) hunnamed rfl rfl rfl
  have hmethod := Forest.Reaches.child (k := 0) hclass rfl rfl rfl
  have hfield := Forest.Reaches.child (k := 1) hclass rfl rfl rfl
  obtain ⟨above, e, hpath, hnamed⟩ := named_by_path Entity.sketches TypeTable.builtins.lookup {}
    3 _ rfl rfl
  obtain ⟨rfl, rfl⟩ := hmethod.unique hpath
  obtain ⟨above, e, hpath', hnamed'⟩ := named_by_path Entity.sketches TypeTable.builtins.lookup {}
    4 _ rfl rfl
  obtain ⟨rfl, rfl⟩ := hfield.unique hpath'
  exact ⟨_, _, rfl, rfl, rfl, rfl, hnamed (by decide +kernel), hnamed' (by decide +kernel),
    by decide +kernel, by decide +kernel⟩

/-- A class without a name still leaves its underscore. -/
example : (generate (.ofEntities [{ name := "", decl := .classType false, children :=
    [{ name := "x", decl := .memberVariable "int" }] }] TypeTable.builtins.lookup {})).toOption.map
      (fun out => out.exports.map (·.symbols)) = some [["get__x", "set__x"]] := by decide +kernel

end FlatApi
