import FlatApi.Proofs.Visit

/-!
# Which fault ends a walk

A walk over entities fails exactly if a node up for export has a fault, and then with the fault
of the first one that has (`generate_eq_error_iff`).  What is not up for export never matters,
whatever types it uses and wherever it stands.
-/

namespace FlatApi

open Forest (Node)

namespace Setting

variable {s : Setting} {n : Node}

theorem typeFault?_eq_none {types : List String} :
    s.typeFault? n types = none ↔ ∀ t ∈ types, s.types t ≠ none := by
  rw [typeFault?, Option.map_eq_none_iff, List.find?_eq_none]
  simp only [Option.isNone_iff_eq_none, ne_eq]

/-- A node without a fault is in its class, if it is a member, and all its types have C types. -/
theorem fault?_eq_none :
    s.fault? n = none ↔
      ¬ (n.decl.isMember = true ∧ s.outsideClass n = true) ∧
        ∀ t ∈ n.decl.typesUsed, s.types t ≠ none := by
  unfold fault?
  rw [← Bool.and_eq_true]
  by_cases h : (n.decl.isMember && s.outsideClass n) = true
  · rw [if_pos h]
    constructor
    · intro hr
      cases hr
    · intro hne
      exact absurd h hne.1
  · rw [if_neg h, typeFault?_eq_none]
    exact ⟨fun ht => ⟨h, ht⟩, fun ht => ht.2⟩

theorem exists_fault_iff :
    (∃ r, s.fault? n = some r) ↔
      (n.decl.isMember = true ∧ s.outsideClass n = true) ∨
        ∃ t ∈ n.decl.typesUsed, s.types t = none := by
  rw [← Option.isSome_iff_exists, ← Option.ne_none_iff_isSome, ne_eq, fault?_eq_none,
    not_and_or, not_not]
  simp only [not_forall, not_not, exists_prop]

end Setting

/-- The first fault of the nodes up for export is what a walk fails with. -/
theorem generate_eq_error (es : List Entity) (types : String → Option String)
    (options : Options) (r : Refusal) :
    generate (.ofEntities es types options) = .error r ↔
      (Entity.exported es).findSome? (Setting.ofEntities es types options).fault? = some r := by
  rw [generate_eq_foldlM, map_eq_error, Pass.foldlM_take_eq_error]
  rfl

/-- **Faults of a walk.**  It fails exactly if a node up for export is a member outside of a class
or uses a type without a C type, and it fails with the fault of the first node that has one. -/
theorem generate_eq_error_iff (es : List Entity) (types : String → Option String)
    (options : Options) :
    let s := Setting.ofEntities es types options
    ((∃ r, generate s = .error r) ↔ ∃ n ∈ Entity.exported es,
      (n.decl.isMember = true ∧ s.outsideClass n = true) ∨
        ∃ t ∈ n.decl.typesUsed, types t = none) ∧
    ∀ r, generate s = .error r ↔ ∃ before n behind,
      Entity.exported es = before ++ n :: behind ∧ (∀ m ∈ before, s.fault? m = none) ∧
        s.fault? n = some r := by
  intro s
  constructor
  · simp only [s, generate_eq_error, ← Option.isSome_iff_exists, List.findSome?_isSome_iff]
    simp only [Option.isSome_iff_exists, Setting.exists_fault_iff]
    rfl
  · intro r
    rw [generate_eq_error, List.findSome?_eq_some_iff]
    constructor
    · rintro ⟨before, n, behind, hsplit, hfault, hfirst⟩
      exact ⟨before, n, behind, hsplit, hfirst, hfault⟩
    · rintro ⟨before, n, behind, hsplit, hfirst, hfault⟩
      exact ⟨before, n, behind, hsplit, hfault, hfirst⟩

end FlatApi
