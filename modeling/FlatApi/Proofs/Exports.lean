import FlatApi.Proofs.Visit
import FlatApi.TypeTable
import Mathlib.Data.List.Forall2

/-!
# The exports of a walk

A walk that ends well has one export for each node that is up for export, in the order in which
the entities are written (`exports_of_generate`).  Which symbols an export has is said up to the
numbers that the registry puts behind their bases (`Setting.ExportedAs`).
-/

namespace FlatApi

open Forest (Node)
open FlatApi.Symbol (Registry)
open FlatApi.Symbol.Registry (Request candidate)

/-- A name is the symbol for a base, perhaps with a number behind it. -/
def Symbol.MadeFrom (base name : String) : Prop :=
  ∃ k, name = candidate (sanitize base) k

/-- The number of wrappers that a declaration has. -/
def Declaration.wrapperCount : Declaration → Nat
  | .freeFunction _ => 1
  | .memberFunction m => if m.isVirtual then 2 else 1
  | .memberVariable _ => 2
  | .nameSpace | .classType _ | .other => 0

/-- How a node is exported.  A virtual method has its own symbol first and then the one of its
override setter; the accessors of a field have one name in common. -/
def Setting.ExportedAs (s : Setting) (n : Node) (e : Export) : Prop :=
  e.entity = s.qualifiedName n ∧
  match n.decl with
  | .freeFunction _ =>
    e.kind = .freeFunction ∧ ∃ x, e.symbols = [x] ∧ Symbol.MadeFrom (s.qualifiedName n) x
  | .memberFunction m =>
    if m.isVirtual then
      e.kind = .virtualMemberFunction ∧ ∃ c x o, s.parentClass? n = some c ∧ e.symbols = [x, o] ∧
        Symbol.MadeFrom (s.qualifiedName n) x ∧
        Symbol.MadeFrom ("set_" ++ s.options.className c ++ "_fn" ++ n.name) o
    else
      e.kind = .memberFunction ∧ ∃ x, e.symbols = [x] ∧ Symbol.MadeFrom (s.qualifiedName n) x
  | .memberVariable _ =>
    e.kind = .memberVariable ∧ ∃ c x, s.parentClass? n = some c ∧
      e.symbols = ["get_" ++ x, "set_" ++ x] ∧
      Symbol.MadeFrom (s.qualifiedName c ++ "_" ++ n.name) x
  | .nameSpace | .classType _ | .other => False

/-! ## One node -/

section Node

variable {s : Setting} {n : Node} {kind : ExportKind} {d : Draft}

theorem madeFrom_issue (r : Registry) (q : Request) :
    Symbol.MadeFrom q.base (r.issue q).1 := by
  obtain ⟨k, hname, -, -⟩ := Registry.issue_spec r q
  exact ⟨k, hname⟩

/-- What settling a draft answers is what the node is exported as. -/
theorem exportedAs_of_draft (hkind : ExportKind.ofDeclaration? n.decl = some kind)
    (hd : s.draft n = .ok (some d)) (r : Registry) :
    s.ExportedAs n
      { entity := s.qualifiedName n, kind, symbols := d.symbols (r.answers d.requests) } := by
  refine ⟨rfl, ?_⟩
  rcases Setting.draft_ok_some hd with ⟨f, hdecl, h⟩ | ⟨m, hdecl, hrole, h⟩ | ⟨type, hdecl, h⟩
  · rw [hdecl] at hkind ⊢
    cases hkind
    obtain ⟨_, _, -, -, rfl⟩ := Setting.draftFunction_ok h
    exact ⟨rfl, _, rfl, madeFrom_issue r _⟩
  · rw [hdecl] at hkind ⊢
    obtain ⟨c, _, _, hc, -, -, hd⟩ := Setting.draftMethod_ok hrole h
    cases hd
    cases hv : m.isVirtual with
    | true =>
      simp only [ExportKind.ofDeclaration?, hv, if_true] at hkind ⊢
      cases hkind
      exact ⟨rfl, c, _, _, hc, rfl, madeFrom_issue r _, madeFrom_issue _ _⟩
    | false =>
      simp only [ExportKind.ofDeclaration?, hv, Bool.false_eq_true, if_false] at hkind ⊢
      cases hkind
      exact ⟨rfl, _, rfl, madeFrom_issue r _⟩
  · rw [hdecl] at hkind ⊢
    cases hkind
    obtain ⟨c, _, hc, -, f, rfl, hbase, -⟩ := Setting.draftField_ok h
    refine ⟨rfl, c, _, hc, rfl, ?_⟩
    rw [← hbase]
    exact madeFrom_issue r (.withHeads f.base FieldDraft.heads)

/-- An entity is exported under as many symbols as it has wrappers. -/
theorem Setting.ExportedAs.length_symbols {e : Export} (h : s.ExportedAs n e) :
    e.symbols.length = n.decl.wrapperCount := by
  obtain ⟨-, h⟩ := h
  cases hdecl : n.decl with
  | freeFunction f =>
    rw [hdecl] at h
    obtain ⟨-, x, hx, -⟩ := h
    rw [hx]
    rfl
  | memberFunction m =>
    rw [hdecl] at h
    unfold Declaration.wrapperCount
    cases hv : m.isVirtual with
    | true =>
      simp only [hv, if_true] at h ⊢
      obtain ⟨-, c, x, o, -, hx, -⟩ := h
      rw [hx]
      rfl
    | false =>
      simp only [hv, Bool.false_eq_true, if_false] at h ⊢
      obtain ⟨-, x, hx, -⟩ := h
      rw [hx]
      rfl
  | memberVariable type =>
    rw [hdecl] at h
    obtain ⟨-, c, x, -, hx, -⟩ := h
    rw [hx]
    rfl
  | nameSpace | classType _ | other =>
    rw [hdecl] at h
    exact h.elim

end Node

/-! ## All nodes -/

section Walk

/-- A walk adds one export for each node up for export, in the order of the nodes. -/
theorem foldlM_take_exports (ns : List Node) :
    ∀ p q : Pass, ns.foldlM Pass.take p = .ok q →
      ∃ new, q.exports = p.exports ++ new ∧
        List.Forall₂ p.setting.ExportedAs (ns.filter (·.isExported)) new := by
  induction ns with
  | nil =>
    intro p q h
    cases h
    exact ⟨[], (List.append_nil _).symm, List.Forall₂.nil⟩
  | cons n ns ih =>
    intro p q h
    rw [List.foldlM_cons] at h
    obtain ⟨p', ht, hrest⟩ := bind_eq_ok.mp h
    obtain ⟨new, hexports, hnew⟩ := ih p' q hrest
    rw [Pass.take_setting ht] at hnew
    rcases Pass.take_ok ht with ⟨hn, rfl⟩ | ⟨hn, kind, d, hkind, hd, rfl⟩
    · rw [List.filter_cons_of_neg (by rw [hn]; exact Bool.false_ne_true)]
      exact ⟨new, hexports, hnew⟩
    · rw [List.filter_cons_of_pos hn]
      rw [Pass.accept_exports, List.append_assoc] at hexports
      exact ⟨_ :: new, hexports,
        List.Forall₂.cons (exportedAs_of_draft hkind hd p.ledger.names) hnew⟩

theorem wrapperCount_of_exportedAs {s : Setting} {ns : List Node} {exports : List Export}
    (h : List.Forall₂ s.ExportedAs ns exports) :
    exports.foldr (fun e k => e.symbols.length + k) 0 =
      ns.foldr (fun n k => n.decl.wrapperCount + k) 0 := by
  induction h with
  | nil => rfl
  | cons hn _ ih => rw [List.foldr_cons, List.foldr_cons, hn.length_symbols, ih]

end Walk

/-- **Exports of a walk.**  There is one for each node that is up for export, in the order in
which the entities are written, and their wrappers are counted by the declarations. -/
theorem exports_of_generate {es : List Entity} {types : String → Option String}
    {options : Options} {out : Output}
    (h : generate (.ofEntities es types options) = .ok out) :
    List.Forall₂ (Setting.ofEntities es types options).ExportedAs (Entity.exported es)
        out.exports ∧
      out.wrapperCount = (Entity.exported es).foldr (fun n k => n.decl.wrapperCount + k) 0 := by
  rw [generate_eq_foldlM] at h
  obtain ⟨q, hq, rfl⟩ := map_eq_ok.mp h
  obtain ⟨new, hexports, hnew⟩ := foldlM_take_exports _ _ q hq
  have hnone : (Pass.ofSetting (.ofEntities es types options)).start.exports = [] := rfl
  rw [hnone, List.nil_append] at hexports
  have hall : List.Forall₂ (Setting.ofEntities es types options).ExportedAs
      (Entity.exported es) q.stop.exports := by
    rw [← hexports] at hnew
    exact hnew
  exact ⟨hall, wrapperCount_of_exportedAs hall⟩

/-- A class with members of all sorts in a namespace, and a function with another one inside. -/
def Entity.gallery : List Entity :=
  [{ name := "ui", decl := .nameSpace, children :=
      [{ name := "Shape", decl := .classType true, children :=
          [{ name := "Shape",
             decl := .memberFunction { returns := "Shape*", role := .constructor } },
            { name := "Draw", decl := .memberFunction { isVirtual := true } },
            { name := "radius", decl := .memberVariable "float", access := .subclasses },
            { name := "cache", decl := .memberVariable "Cache", access := .ownClass }] },
        { name := "Add", decl := .freeFunction { returns := "int" }, children :=
          [{ name := "Add",
             decl := .freeFunction { params := [{ type := "const char *" }] } }] }] }]

theorem exports_of_gallery :
    ∃ out, generate (.ofEntities Entity.gallery TypeTable.builtins.lookup {}) = .ok out ∧
      List.Forall₂
        (Setting.ofEntities Entity.gallery TypeTable.builtins.lookup {}).ExportedAs
        (Entity.exported Entity.gallery) out.exports ∧
      out.exports.map (fun e => (e.entity, e.symbols)) =
        [("ui::Shape::Draw", ["ui_Shape_Draw", "set_ShapeEx_fnDraw"]),
          ("ui::Shape::radius", ["get_ui_Shape_radius", "set_ui_Shape_radius"]),
          ("ui::Add", ["ui_Add"]), ("ui::Add", ["ui_Add0"])] ∧
      out.wrapperCount = 6 := by
  have hrun : (generate (.ofEntities Entity.gallery TypeTable.builtins.lookup {})).toOption.map
      (fun out => out.exports.map fun e => (e.entity, e.symbols)) =
        some [("ui::Shape::Draw", ["ui_Shape_Draw", "set_ShapeEx_fnDraw"]),
          ("ui::Shape::radius", ["get_ui_Shape_radius", "set_ui_Shape_radius"]),
          ("ui::Add", ["ui_Add"]), ("ui::Add", ["ui_Add0"])] := by decide +kernel
  cases h : generate (.ofEntities Entity.gallery TypeTable.builtins.lookup {}) with
  | error r =>
    rw [h] at hrun
    cases hrun
  | ok out =>
    rw [h] at hrun
    obtain ⟨hall, hcount⟩ := exports_of_generate h
    exact ⟨out, rfl, hall, Option.some.inj hrun, hcount.trans (by decide +kernel)⟩

end FlatApi
