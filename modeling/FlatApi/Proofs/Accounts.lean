import FlatApi.Proofs.Visit
import Mathlib.Data.List.Perm.Basic
import Mathlib.Data.List.Nodup

/-!
# Every issued name has its export

Functions, methods, override setters and accessors draw their symbols from one registry.  Each
export accounts for the names that were issued for it: its symbols, and for a field also the name
that both its accessors end in (`Export.Reserves`).  After any row of steps the names issued are
those accounted for, in the order of the exports, and all different (`Pass.Accounted`).

The invariant says nothing of records: a refused node changes them, but issues nothing.
-/

namespace FlatApi

open Forest (Node Event)
open FlatApi.Symbol (Registry)
open FlatApi.Symbol.Registry (Request claims)

/-- The names that were issued for an export. -/
def Export.Reserves (e : Export) (names : List String) : Prop :=
  match e.kind with
  | .memberVariable =>
    ∃ x, e.symbols = ["get_" ++ x, "set_" ++ x] ∧ names = [x, "get_" ++ x, "set_" ++ x]
  | .freeFunction | .memberFunction | .virtualMemberFunction => names = e.symbols

/-! ## What a draft has issued -/

section Issued

theorem head_append_ne (head x : String) (h : head ≠ "") : head ++ x ≠ x := by
  intro heq
  have hlen := congrArg (fun t => t.toList.length) heq
  simp only [String.toList_append, List.length_append] at hlen
  have hnil : head.toList = [] := List.eq_nil_of_length_eq_zero (by omega)
  exact h (String.toList_eq_nil_iff.mp hnil)

/-- The accessors of a field differ from its name and from one another. -/
theorem fieldClaims_eraseDups (x : String) :
    (claims FieldDraft.heads x).eraseDups = [x, "get_" ++ x, "set_" ++ x] := by
  have hget : "get_" ++ x ≠ x := head_append_ne "get_" x (by decide)
  have hset : "set_" ++ x ≠ x := head_append_ne "set_" x (by decide)
  have hboth : "set_" ++ x ≠ "get_" ++ x := by
    rw [ne_eq, String.append_left_inj]
    decide
  simp [claims, FieldDraft.heads, List.eraseDups_cons, hget, hset, hboth]

theorem issue_plain_names (r : Registry) (base : String) :
    (r.issue (.plain base)).2.names = r.names ++ [(r.issue (.plain base)).1] :=
  Registry.issue_names r (.plain base)

/-- A function takes the symbols of its wrappers and no others. -/
theorem call_reserves (d : CallDraft) (r : Registry) :
    (r.after (Draft.call d).requests).names =
      r.names ++ (Draft.call d).symbols (r.answers (Draft.call d).requests) := by
  rw [Draft.requests]
  cases d.overridable with
  | none => exact issue_plain_names r d.base
  | some o =>
    simp only [Registry.after, List.foldl_cons, List.foldl_nil]
    rw [issue_plain_names, issue_plain_names, List.append_assoc]
    rfl

/-- A field takes the symbols of its accessors, and the name that these are made from. -/
theorem field_reserves (d : FieldDraft) (r : Registry) :
    ∃ x, (Draft.field d).symbols (r.answers (Draft.field d).requests) =
        ["get_" ++ x, "set_" ++ x] ∧
      (r.after (Draft.field d).requests).names =
        r.names ++ [x, "get_" ++ x, "set_" ++ x] := by
  refine ⟨(r.issue (.withHeads d.base FieldDraft.heads)).1, rfl, ?_⟩
  rw [← fieldClaims_eraseDups]
  exact Registry.issue_names r (.withHeads d.base FieldDraft.heads)

/-- Fields and nothing else are drafted as fields. -/
theorem kind_of_draft {s : Setting} {n : Node} {kind : ExportKind} {d : Draft}
    (hkind : ExportKind.ofDeclaration? n.decl = some kind) (hd : s.draft n = .ok (some d)) :
    (kind = .memberVariable ∧ ∃ f, d = .field f) ∨
      (kind ≠ .memberVariable ∧ ∃ c, d = .call c) := by
  rcases Setting.draft_ok_some hd with ⟨f, hdecl, h⟩ | ⟨m, hdecl, hrole, h⟩ | ⟨type, hdecl, h⟩
  · rw [hdecl] at hkind
    cases hkind
    obtain ⟨_, _, -, -, rfl⟩ := Setting.draftFunction_ok h
    exact Or.inr ⟨by decide, _, rfl⟩
  · rw [hdecl] at hkind
    obtain ⟨_, _, _, -, -, -, hd⟩ := Setting.draftMethod_ok hrole h
    cases hd
    refine Or.inr ⟨?_, _, rfl⟩
    rintro rfl
    cases hv : m.isVirtual <;> simp [ExportKind.ofDeclaration?, hv] at hkind
  · rw [hdecl] at hkind
    cases hkind
    obtain ⟨_, _, -, -, f, hf, -⟩ := Setting.draftField_ok h
    exact Or.inl ⟨rfl, f, hf⟩

/-- Settling the draft of a node issues what its export accounts for. -/
theorem draft_reserves {s : Setting} {n : Node} {kind : ExportKind} {d : Draft}
    (hkind : ExportKind.ofDeclaration? n.decl = some kind) (hd : s.draft n = .ok (some d))
    (r : Registry) (entity : String) :
    ∃ names, Export.Reserves
        { entity, kind, symbols := d.symbols (r.answers d.requests) } names ∧
      (r.after d.requests).names = r.names ++ names := by
  rcases kind_of_draft hkind hd with ⟨rfl, f, rfl⟩ | ⟨hne, c, rfl⟩
  · obtain ⟨x, hsymbols, hafter⟩ := field_reserves f r
    exact ⟨_, ⟨x, hsymbols, rfl⟩, hafter⟩
  · refine ⟨_, ?_, call_reserves c r⟩
    unfold Export.Reserves
    cases kind with
    | memberVariable => exact absurd rfl hne
    | freeFunction | memberFunction | virtualMemberFunction => rfl

end Issued

/-! ## The invariant -/

/-- The exports account for the names issued, in their order. -/
def Pass.Accounted (p : Pass) : Prop :=
  ∃ reserved, List.Forall₂ Export.Reserves p.exports reserved ∧
    p.ledger.names.names = reserved.flatten

namespace Pass.Accounted

variable {p : Pass}

theorem ofSetting (s : Setting) : (Pass.ofSetting s).Accounted := ⟨[], List.Forall₂.nil, rfl⟩

/-- The invariant depends on the exports and the names issued alone. -/
theorem of_eq {q : Pass} (h : p.Accounted) (hexports : q.exports = p.exports)
    (hnames : q.ledger.names = p.ledger.names) : q.Accounted := by
  rwa [Accounted, hexports, hnames]

/-- What a node takes is accounted for by its export. -/
theorem accept (h : p.Accounted) {n : Node} {kind : ExportKind} {d : Draft}
    (hkind : ExportKind.ofDeclaration? n.decl = some kind)
    (hd : p.setting.draft n = .ok (some d)) : (p.accept n kind d).Accounted := by
  obtain ⟨reserved, hexports, hnames⟩ := h
  obtain ⟨names, hnew, hafter⟩ :=
    draft_reserves hkind hd p.ledger.names (p.setting.qualifiedName n)
  refine ⟨reserved ++ [names], ?_, ?_⟩
  · rw [accept_exports]
    exact List.rel_append hexports (List.Forall₂.cons hnew List.Forall₂.nil)
  · rw [accept_names, hafter, hnames, List.flatten_append, List.flatten_singleton]

theorem visit (h : p.Accounted) (n : Node) (e : Event) : (p.visit n e).2.Accounted := by
  have hv := visited p n e
  generalize p.visit n e = result at hv
  cases hv with
  | left => exact h
  | skipped _ _ => exact h.of_eq rfl rfl
  | refused _ _ _ => exact h.of_eq rfl (refuse_names p n)
  | accepted _ _ hkind hd => exact h.accept hkind hd

/-- **The invariant** holds after any row of steps. -/
theorem reach (s : Setting) (steps : List Pass.Step) :
    ((Pass.ofSetting s).reach steps).Accounted :=
  reach_invariant (fun _ h => h.of_eq rfl rfl) (fun _ n e h => h.visit n e) steps _
    (ofSetting s)

end Pass.Accounted

/-! ## What the invariant says of symbols -/

section Symbols

theorem Export.Reserves.exists_bare {e : Export} {names : List String} (h : e.Reserves names) :
    ∃ bare, names = bare ++ e.symbols ∧ (e.kind = .memberVariable →
      ∀ x, e.symbols = ["get_" ++ x, "set_" ++ x] → x ∈ bare) := by
  unfold Export.Reserves at h
  cases hkind : e.kind with
  | memberVariable =>
    rw [hkind] at h
    obtain ⟨x, hsymbols, rfl⟩ := h
    refine ⟨[x], by rw [hsymbols]; rfl, fun _ y hy => ?_⟩
    rw [hsymbols] at hy
    have hxy : x = y := (String.append_right_inj "get_").mp (List.cons.inj hy).1
    rw [hxy]
    exact List.mem_singleton_self y
  | freeFunction | memberFunction | virtualMemberFunction =>
    rw [hkind] at h
    exact ⟨[], h, fun hne => by cases hne⟩

/-- The names issued are the symbols of the exports and the bare names of their fields. -/
theorem exists_bare_perm {es : List Export} {reserved : List (List String)}
    (h : List.Forall₂ Export.Reserves es reserved) :
    ∃ bare, reserved.flatten.Perm (bare ++ es.flatMap (·.symbols)) ∧
      ∀ e ∈ es, e.kind = .memberVariable →
        ∀ x, e.symbols = ["get_" ++ x, "set_" ++ x] → x ∈ bare := by
  induction h with
  | nil => exact ⟨[], List.Perm.refl _, fun e he => by cases he⟩
  | @cons e names es reserved hnames _ ih =>
    obtain ⟨bare, hperm, hbare⟩ := ih
    obtain ⟨own, rfl, hown⟩ := hnames.exists_bare
    refine ⟨own ++ bare, ?_, ?_⟩
    · rw [List.flatten_cons, List.flatMap_cons, List.append_assoc, List.append_assoc]
      refine List.Perm.append_left own ?_
      exact (hperm.append_left e.symbols).trans (List.perm_append_comm_assoc _ _ _)
    · intro e' he' hkind x hx
      rcases List.mem_cons.mp he' with rfl | he'
      · exact List.mem_append_left _ (hown hkind x hx)
      · exact List.mem_append_right _ (hbare e' he' hkind x hx)

end Symbols

/-- **Symbols of one artifact.**  After any row of steps, all symbols are different, none is the
bare name of a field, and the exports account for all names issued, in their order. -/
theorem symbols_nodup_and_accounted (s : Setting) (steps : List Pass.Step) :
    let p := (Pass.ofSetting s).reach steps
    (p.exports.flatMap (·.symbols)).Nodup ∧
    (∀ e ∈ p.exports, e.kind = .memberVariable →
      ∀ x, e.symbols = ["get_" ++ x, "set_" ++ x] → x ∉ p.exports.flatMap (·.symbols)) ∧
    ∃ reserved, List.Forall₂ Export.Reserves p.exports reserved ∧
      p.ledger.names.names = reserved.flatten := by
  intro p
  obtain ⟨reserved, hexports, hnames⟩ := Pass.Accounted.reach s steps
  obtain ⟨bare, hperm, hbare⟩ := exists_bare_perm hexports
  have hnodup := p.ledger.names.nodup
  rw [hnames, hperm.nodup_iff] at hnodup
  obtain ⟨-, hsymbols, hdisjoint⟩ := List.nodup_append.mp hnodup
  refine ⟨hsymbols, fun e he hkind x hx hmem => ?_, reserved, hexports, hnames⟩
  exact hdisjoint x (hbare e he hkind x hx) x hmem rfl

end FlatApi
