import FlatApi.Proofs.Drafts
import FlatApi.Proofs.Registry
import FlatApi.Proofs.Tour

/-!
# What a visit does

* Settling a draft answers its requests and does nothing else to the registry (`settle_names`,
  `settle_symbols`).
* A visit does one of four things (`visited`).  Only the last one, `accept`, touches anything but
  records.
* A whole walk takes the nodes in their order, the first fault ends it (`generate_eq_foldlM`).
* What a start and every visit keep holds after any row of steps (`reach_invariant`).
-/

namespace FlatApi

open Forest (Node Event)
open FlatApi.Symbol (Registry)
open FlatApi.Symbol.Registry (Request)

/-! ## The symbols of a draft -/

namespace Draft

/-- What the registry is asked for: the symbol of a call and then the one of its override setter,
or the name of a field together with its accessors. -/
def requests : Draft → List Request
  | .call d => .plain d.base :: match d.overridable with
    | none => []
    | some (className, method) => [.plain ("set_" ++ className ++ "_fn" ++ method)]
  | .field d => [.withHeads d.base FieldDraft.heads]

/-- The symbols of the wrappers, from the answers to the requests. -/
def symbols : Draft → List String → List String
  | .call _, names => names
  | .field _, names => names.flatMap fun x => FieldDraft.heads.map (· ++ x)

/-- Settling a draft issues the symbols that it asks for. -/
theorem settle_names (o : Options) (d : Draft) (r : Registry) :
    (d.settle o r).2.2 = r.after d.requests := by
  cases d with
  | call d =>
    rw [settle, CallDraft.settle, requests]
    cases d.overridable <;> rfl
  | field d => rfl

theorem settle_symbols (o : Options) (d : Draft) (r : Registry) :
    (d.settle o r).2.1.map (·.name) = d.symbols (r.answers d.requests) := by
  cases d with
  | call d =>
    rw [settle, CallDraft.settle, requests]
    cases d.overridable <;> rfl
  | field d => rfl

theorem settle_ne_nil (o : Options) (d : Draft) (r : Registry) : (d.settle o r).2.1 ≠ [] := by
  cases d with
  | call d =>
    rw [settle, CallDraft.settle]
    cases d.overridable <;> exact List.cons_ne_nil _ _
  | field d => exact List.cons_ne_nil _ _

end Draft

/-! ## One visit -/

namespace Pass

/-- The pass when a node without wrappers was visited. -/
def skip (p : Pass) (n : Node) : Pass := { p with ledger := p.ledger.touch n }

/-- The pass when a node was refused. -/
def refuse (p : Pass) (n : Node) : Pass :=
  { p with ledger := (p.ledger.touch n).touchClass p.setting n }

/-- The pass when the wrappers of a node were made. -/
def accept (p : Pass) (n : Node) (kind : ExportKind) (d : Draft) : Pass :=
  let (symbol, wrappers, names) := d.settle p.setting.options p.ledger.names
  { p with ledger := { names, records := (p.refuse n).ledger.records.setName n symbol } }.add
    n kind wrappers

/-- All that a visit can do. -/
inductive Visited (p : Pass) (n : Node) : Event → Except Refusal Unit × Pass → Prop where
  | left : Visited p n .leave (.ok (), p)
  | skipped {e : Event} (he : e ≠ .leave) (hn : n.isExported = false) :
      Visited p n e (.ok (), p.skip n)
  | refused {e : Event} {r : Refusal} (he : e ≠ .leave) (hn : n.isExported = true)
      (hr : p.setting.fault? n = some r) : Visited p n e (.error r, p.refuse n)
  | accepted {e : Event} {kind : ExportKind} {d : Draft} (he : e ≠ .leave)
      (hn : n.isExported = true) (hkind : ExportKind.ofDeclaration? n.decl = some kind)
      (hd : p.setting.draft n = .ok (some d)) : Visited p n e (.ok (), p.accept n kind d)

section Visit

variable {p : Pass} {n : Node} {e : Event}

theorem touchClass_names (s : Setting) (l : Ledger) (n : Node) :
    (l.touchClass s n).names = l.names := by
  unfold Ledger.touchClass
  cases s.classLookedUp? n <;> rfl

/-- A container is done when it is entered, in the same way as a leaf. -/
theorem visit_of_not_leave (p : Pass) (n : Node) (he : e ≠ .leave) :
    p.visit n e = p.visit n .leaf := by
  rw [visit, visit, if_neg he, if_neg (by decide)]

theorem emit_of_error {s : Setting} (l : Ledger) {r : Refusal} (h : s.draft n = .error r) :
    l.emit s n = (.error r, l.touchClass s n) := by
  rw [Ledger.emit, h]

theorem emit_of_none {s : Setting} (l : Ledger) (h : s.draft n = .ok none) :
    l.emit s n = (.ok [], l.touchClass s n) := by
  rw [Ledger.emit, h]

theorem emit_of_some {s : Setting} (l : Ledger) {d : Draft} (h : s.draft n = .ok (some d)) :
    l.emit s n =
      (.ok (d.settle s.options l.names).2.1,
        { names := (d.settle s.options l.names).2.2,
          records := (l.touchClass s n).records.setName n (d.settle s.options l.names).1 }) := by
  simp only [Ledger.emit, h, touchClass_names]

/-- Wrappers of what is exportable come from a draft. -/
theorem exists_draft_of_emit {s : Setting} {l l' : Ledger} {ws : List Wrapper}
    (hn : n.decl.isExportable = true) (h : l.emit s n = (.ok ws, l')) :
    ∃ d, s.draft n = .ok (some d) := by
  cases hd : s.draft n with
  | error r =>
    rw [emit_of_error l hd] at h
    cases h
  | ok d =>
    cases d with
    | none =>
      rw [Setting.draft_ok_none_iff, hn] at hd
      cases hd
    | some d => exact ⟨d, rfl⟩

/-- The class of a constructor or destructor is not looked up. -/
theorem touchClass_of_not_exportable {s : Setting} (l : Ledger)
    (h : n.decl.isExportable = false) : l.touchClass s n = l := by
  rw [Ledger.touchClass, Setting.classLookedUp?]
  cases hdecl : n.decl with
  | memberFunction m =>
    rw [hdecl, Declaration.isExportable] at h
    simp only [of_decide_eq_false h, if_false]
  | memberVariable _ =>
    rw [hdecl] at h
    cases h
  | freeFunction _ | nameSpace | classType _ | other => rfl

theorem exists_kind (h : n.decl.isExportable = true) :
    ∃ kind, ExportKind.ofDeclaration? n.decl = some kind := by
  cases hdecl : n.decl with
  | freeFunction _ | memberFunction _ | memberVariable _ => exact ⟨_, rfl⟩
  | nameSpace | classType _ | other =>
    rw [hdecl] at h
    cases h

theorem visit_of_private (hn : n.access = .ownClass) :
    p.visit n .leaf = (.ok (), p.skip n) := by
  rw [visit, if_neg (by decide)]
  cases ExportKind.ofDeclaration? n.decl with
  | none => rfl
  | some kind => exact if_pos hn

theorem visit_of_not_exportable (hn : n.decl.isExportable = false) :
    p.visit n .leaf = (.ok (), p.skip n) := by
  by_cases haccess : n.access = .ownClass
  · exact visit_of_private haccess
  · rw [visit, if_neg (by decide)]
    cases ExportKind.ofDeclaration? n.decl with
    | none => rfl
    | some kind =>
      simp only [if_neg haccess, emit_of_none _ (Setting.draft_ok_none_iff.mpr hn),
        touchClass_of_not_exportable _ hn, skip]

/-- A node that cannot be drafted is refused. -/
theorem visit_of_error {kind : ExportKind} (hkind : ExportKind.ofDeclaration? n.decl = some kind)
    (hn : n.access ≠ .ownClass) {r : Refusal} (hd : p.setting.draft n = .error r) :
    p.visit n .leaf = (.error r, p.refuse n) := by
  rw [visit, if_neg (by decide)]
  simp only [hkind, if_neg hn, emit_of_error _ hd, refuse]

/-- A node that is drafted has its wrappers made. -/
theorem visit_of_some {kind : ExportKind} (hkind : ExportKind.ofDeclaration? n.decl = some kind)
    (hn : n.access ≠ .ownClass) {d : Draft} (hd : p.setting.draft n = .ok (some d)) :
    p.visit n .leaf = (.ok (), p.accept n kind d) := by
  have hne := d.settle_ne_nil p.setting.options p.ledger.names
  rw [visit, if_neg (by decide)]
  simp only [hkind, if_neg hn, emit_of_some _ hd]
  -- a draft that is settled has wrappers, so the second case does not arise
  split
  · next h => cases h
  · next h =>
    simp only [Prod.mk.injEq, Except.ok.injEq] at h
    exact absurd h.1 hne
  · next h =>
    cases h
    rfl

/-- There are four ways in which a visit of a node can end. -/
theorem visited (p : Pass) (n : Node) (e : Event) : p.Visited n e (p.visit n e) := by
  by_cases he : e = .leave
  · subst he
    exact .left
  rw [visit_of_not_leave p n he]
  cases hn : n.isExported with
  | false =>
    have hskip : p.visit n .leaf = (.ok (), p.skip n) := by
      rcases Bool.and_eq_false_iff.mp hn with hdecl | haccess
      · exact visit_of_not_exportable hdecl
      · exact visit_of_private (by simpa using haccess)
    rw [hskip]
    exact .skipped he hn
  | true =>
    obtain ⟨hdecl, haccess⟩ := (Bool.and_eq_true _ _).mp hn
    have haccess : n.access ≠ .ownClass := by simpa using haccess
    obtain ⟨kind, hkind⟩ := exists_kind hdecl
    cases hd : p.setting.draft n with
    | error r =>
      rw [visit_of_error hkind haccess hd]
      exact .refused he hn (Setting.draft_error_iff.mp hd).2
    | ok d =>
      cases d with
      | none =>
        rw [Setting.draft_ok_none_iff.mp hd] at hdecl
        cases hdecl
      | some d =>
        rw [visit_of_some hkind haccess hd]
        exact .accepted he hn hkind hd

end Visit

/-! ## What an accepted node adds -/

section Accepted

variable (p : Pass) (n : Node) (kind : ExportKind) (d : Draft)

theorem accept_setting : (p.accept n kind d).setting = p.setting := rfl

theorem accept_names :
    (p.accept n kind d).ledger.names = p.ledger.names.after d.requests :=
  Draft.settle_names p.setting.options d p.ledger.names

/-- A node that is accepted adds one export at the end. -/
theorem accept_exports :
    (p.accept n kind d).exports = p.exports ++
      [{ entity := p.setting.qualifiedName n, kind,
         symbols := d.symbols (p.ledger.names.answers d.requests) }] := by
  rw [← Draft.settle_symbols p.setting.options]
  exact List.reverse_cons

theorem refuse_names : (p.refuse n).ledger.names = p.ledger.names := touchClass_names _ _ _

end Accepted

/-! ## Rows of steps -/

/-- What a pass can be told, in any order and as often as one likes.  The nodes need not be those
of its forest. -/
inductive Step where
  | start
  | visit (n : Node) (e : Event)

def step (p : Pass) : Step → Except Refusal Unit × Pass
  | .start => (.ok (), p.start)
  | .visit n e => p.visit n e

/-- The pass after a row of steps.  A step that fails does not end the row. -/
def reach (p : Pass) (steps : List Step) : Pass := steps.foldl (fun p t => (p.step t).2) p

/-- What each step keeps is kept by every row of steps. -/
theorem reach_invariant {Inv : Pass → Prop} (hstart : ∀ p, Inv p → Inv p.start)
    (hvisit : ∀ p n e, Inv p → Inv (p.visit n e).2) :
    ∀ (steps : List Step) (p : Pass), Inv p → Inv (p.reach steps) := by
  intro steps
  induction steps with
  | nil => exact fun _ h => h
  | cons t steps ih =>
    intro p h
    cases t with
    | start => exact ih p.start (hstart p h)
    | visit n e => exact ih (p.visit n e).2 (hvisit p n e h)

/-! ## A whole walk -/

section Walk

/-- The pass when a node was reached, unless it is refused. -/
def take (p : Pass) (n : Node) : Except Refusal Pass :=
  match p.visit n .leaf with
  | (.error refusal, _) => .error refusal
  | (.ok (), p) => .ok p

/-- A node that is not refused is passed by or makes its wrappers. -/
theorem take_ok {p q : Pass} {n : Node} (h : p.take n = .ok q) :
    (n.isExported = false ∧ q = p.skip n) ∨
    (n.isExported = true ∧ ∃ kind d, ExportKind.ofDeclaration? n.decl = some kind ∧
      p.setting.draft n = .ok (some d) ∧ q = p.accept n kind d) := by
  unfold take at h
  have hv := visited p n .leaf
  generalize p.visit n .leaf = result at h hv
  cases hv with
  | skipped _ hn =>
    cases h
    exact Or.inl ⟨hn, rfl⟩
  | refused _ _ _ => cases h
  | accepted _ hn hkind hd =>
    cases h
    exact Or.inr ⟨hn, _, _, hkind, hd, rfl⟩

theorem take_setting {p q : Pass} {n : Node} (h : p.take n = .ok q) :
    q.setting = p.setting := by
  rcases take_ok h with ⟨-, rfl⟩ | ⟨-, kind, d, -, -, rfl⟩
  · rfl
  · exact accept_setting p n kind d

/-- A node is refused exactly if it is up for export and has a fault. -/
theorem take_eq_error {p : Pass} {n : Node} {r : Refusal} :
    p.take n = .error r ↔ n.isExported = true ∧ p.setting.fault? n = some r := by
  unfold take
  have hv := visited p n .leaf
  generalize p.visit n .leaf = result at hv
  cases hv with
  | skipped _ hn => simp [hn]
  | refused _ hn hr => simp [hn, hr]
  | accepted _ hn _ hd =>
    have hdecl : n.decl.isExportable = true := ((Bool.and_eq_true _ _).mp hn).1
    refine ⟨nofun, fun ⟨_, hr⟩ => ?_⟩
    rw [Setting.draft_error_iff.mpr ⟨hdecl, hr⟩] at hd
    cases hd

/-- Told the events of a walk, the visitor takes the nodes that they reach. -/
theorem runFrom_tell_visitor (events : List (Node × Event)) : ∀ p : Pass,
    (match runFrom p (Forest.tell visitor events) with
     | (.error r, _) => .error r
     | (.ok (), q) => .ok q) = (Forest.reached events).foldlM take p := by
  induction events with
  | nil => exact fun _ => rfl
  | cons event events ih =>
    intro p
    obtain ⟨n, e⟩ := event
    have hcall : runFrom p (visitor n e) = p.visit n e := rfl
    rw [Forest.tell_cons, runFrom_bind, hcall]
    by_cases he : e = .leave
    · subst he
      exact ih p
    · have hreached : Forest.reached ((n, e) :: events) = n :: Forest.reached events := by
        simp [Forest.reached, he]
      rw [hreached, List.foldlM_cons, visit_of_not_leave p n he, take]
      obtain ⟨answer, q⟩ := p.visit n .leaf
      cases answer with
      | error r => rfl
      | ok _ => exact ih q

/-- A walk that takes the nodes in their order fails for the first fault. -/
theorem foldlM_take_eq_error (ns : List Node) {r : Refusal} :
    ∀ p : Pass, ns.foldlM take p = .error r ↔
      (ns.filter (·.isExported)).findSome? p.setting.fault? = some r := by
  induction ns with
  | nil => exact fun _ => ⟨nofun, nofun⟩
  | cons n ns ih =>
    intro p
    rw [List.foldlM_cons, bind_eq_error]
    -- either `n` ends the walk with its own fault, or it has none and the others decide
    cases ht : p.take n with
    | error r' =>
      obtain ⟨hn, hr⟩ := take_eq_error.mp ht
      rw [List.filter_cons_of_pos hn, List.findSome?_cons_of_isSome (by rw [hr]; rfl), hr]
      simp
    | ok q =>
      have hrest := ih q
      rw [take_setting ht] at hrest
      have hskip : ((n :: ns).filter (·.isExported)).findSome? p.setting.fault? =
          (ns.filter (·.isExported)).findSome? p.setting.fault? := by
        cases hn : n.isExported with
        | false => rw [List.filter_cons_of_neg (by rw [hn]; exact Bool.false_ne_true)]
        | true =>
          have hfault : p.setting.fault? n = none := by
            cases hr : p.setting.fault? n with
            | none => rfl
            | some r' =>
              rw [take_eq_error.mpr ⟨hn, hr⟩] at ht
              cases ht
          rw [List.filter_cons_of_pos hn, List.findSome?_cons_of_isNone (by rw [hfault]; rfl)]
      rw [hskip, ← hrest]
      simp

end Walk

end Pass

/-- A setting for the entities of a library. -/
def Setting.ofEntities (es : List Entity) (types : String → Option String) (options : Options) :
    Setting :=
  { forest := .ofEntities es, types, options }

/-- The nodes that are up for export, in the order in which the entities are written. -/
def Entity.exported (es : List Entity) : List Node :=
  (flattenAll none 0 es).filter (·.isExported)

/-- Making all wrappers is to take the nodes in the order of their numbers. -/
theorem generate_eq_foldlM (es : List Entity) (types : String → Option String)
    (options : Options) :
    generate (.ofEntities es types options) =
      Pass.stop <$> (Forest.ofEntities es).nodes.toList.foldlM Pass.take
        (Pass.ofSetting (.ofEntities es types options)).start := by
  have hevents : Forest.reached (Setting.ofEntities es types options).forest.events =
      (Forest.ofEntities es).nodes.toList := Forest.reached_events es
  rw [← hevents, ← Pass.runFrom_tell_visitor, generate, run_run, Forest.visit_eq_tell]
  rcases runFrom _ (Forest.tell Pass.visitor _) with ⟨r | _, p⟩
  · rfl
  · rfl

end FlatApi
