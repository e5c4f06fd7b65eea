import FlatApi.Pass
import FlatApi.Proofs.Actions

/-!
# What is drafted and what is refused

* `draft_error_iff`: a draft is refused exactly for the fault of the node, which is read off the
  class around it and the types it uses, in their order.
* `draft_ok_none_iff`: no draft at all is made for what has no wrappers.
* `draftFunction_ok`, `draftMethod_ok`, `draftField_ok`: all that is in a draft.

Later modules cite these and do not open the drafts.
-/

namespace FlatApi

open Forest (Node)

/-! ## Faults -/

namespace Declaration

/-- Declarations that wrappers are made for.  Constructors and destructors are not among them. -/
def isExportable : Declaration → Bool
  | .freeFunction _ | .memberVariable _ => true
  | .memberFunction m => m.role = .ordinary
  | .nameSpace | .classType _ | .other => false

def isMember : Declaration → Bool
  | .memberFunction _ | .memberVariable _ => true
  | .nameSpace | .classType _ | .freeFunction _ | .other => false

/-- The native types in a declaration: what is returned first, then the parameters in order. -/
def typesUsed : Declaration → List String
  | .freeFunction f => f.returns :: f.params.map (·.type)
  | .memberFunction m => m.returns :: m.params.map (·.type)
  | .memberVariable type => [type]
  | .nameSpace | .classType _ | .other => []

end Declaration

/-- What is up for export: all that wrappers are made for, unless it is private. -/
def Forest.Node.isExported (n : Node) : Bool := n.decl.isExportable && n.access != .ownClass

namespace Setting

/-- The parent of a node is no class, or there is none. -/
def outsideClass (s : Setting) (n : Node) : Bool :=
  (s.forest.parent? n).all fun p => !p.decl.isClass

/-- The refusal for the first of the types that has no C type. -/
def typeFault? (s : Setting) (n : Node) (types : List String) : Option Refusal :=
  (types.find? fun t => (s.types t).isNone).map fun t => .unmappedType t (s.qualifiedName n)

/-- What is wrong with a node, if something is.  A member that is not in a class is told before
its types are looked at. -/
def fault? (s : Setting) (n : Node) : Option Refusal :=
  if n.decl.isMember && s.outsideClass n then some (.missingClass (s.qualifiedName n))
  else s.typeFault? n n.decl.typesUsed

variable {s : Setting} {n : Node}

/-! ## Parts of a draft -/

section Parts

theorem cType_eq_ok {type c : String} : s.cType n type = .ok c ↔ s.types type = some c := by
  unfold cType
  cases s.types type with
  | none => exact ⟨nofun, nofun⟩
  | some c' => simp

/-- A type that is not mapped is refused, in the name of the entity that uses it. -/
theorem cType_eq_error {type : String} {r : Refusal} :
    s.cType n type = .error r ↔
      s.types type = none ∧ r = .unmappedType type (s.qualifiedName n) := by
  unfold cType
  cases s.types type with
  | none => simp [eq_comm]
  | some c => exact ⟨nofun, nofun⟩

/-- The first type that is not mapped is at fault. -/
theorem typeFault?_cons (type : String) (types : List String) {r : Refusal} :
    s.typeFault? n (type :: types) = some r ↔
      s.cType n type = .error r ∨
        (∃ c, s.cType n type = .ok c) ∧ s.typeFault? n types = some r := by
  simp only [cType_eq_ok, cType_eq_error, typeFault?, List.find?_cons]
  cases s.types type with
  | none => simp [eq_comm]
  | some c => simp

/-- What needs a C type is refused for the first fault, be it of this type or of those behind. -/
theorem cType_bind_eq_error {β : Type} {k : String → Except Refusal β} {type : String}
    {types : List String} {r : Refusal}
    (hk : ∀ c, k c = .error r ↔ s.typeFault? n types = some r) :
    (s.cType n type >>= k) = .error r ↔ s.typeFault? n (type :: types) = some r := by
  rw [typeFault?_cons, bind_eq_error]
  apply or_congr_right
  constructor
  · rintro ⟨c, hc, h⟩
    exact ⟨⟨c, hc⟩, (hk c).mp h⟩
  · rintro ⟨⟨c, hc⟩, h⟩
    exact ⟨c, hc, (hk c).mpr h⟩

theorem mapM_cType_eq_error (types : List String) {r : Refusal} :
    types.mapM (s.cType n) = .error r ↔ s.typeFault? n types = some r := by
  induction types with
  | nil => exact ⟨nofun, nofun⟩
  | cons type types ih =>
    rw [List.mapM_cons]
    apply cType_bind_eq_error
    intro c
    rw [bind_pure_eq_error, ih]

theorem cParams_eq_error {params : List Parameter} {r : Refusal} :
    s.cParams n params = .error r ↔ s.typeFault? n (params.map (·.type)) = some r := by
  rw [← mapM_cType_eq_error, List.mapM_map, cParams, bind_pure_eq_error]
  rfl

/-- The types of a signature are looked up in the order in which they are used. -/
theorem signature_eq_error {β : Type} {f : Signature} {k : String → List Param → β}
    {r : Refusal} :
    (do
      let returnType ← s.cType n f.returns
      let params ← s.cParams n f.params
      return k returnType params) = Except.error r ↔
      s.typeFault? n (f.returns :: f.params.map (·.type)) = some r := by
  apply cType_bind_eq_error
  intro c
  rw [bind_pure_eq_error, cParams_eq_error]

theorem parentClass?_eq_none : s.parentClass? n = none ↔ s.outsideClass n = true := by
  unfold parentClass? outsideClass
  cases s.forest.parent? n with
  | none => exact ⟨fun _ => rfl, fun _ => rfl⟩
  | some p => simp

theorem parentClass?_of_classLookedUp? {c : Node} (h : s.classLookedUp? n = some c) :
    s.parentClass? n = some c := by
  unfold classLookedUp? at h
  split at h
  · split at h
    · exact h
    · cases h
  · exact h
  all_goals cases h

theorem parentClass_eq_ok {c : Node} : s.parentClass n = .ok c ↔ s.parentClass? n = some c := by
  unfold parentClass
  cases s.parentClass? n with
  | none => exact ⟨nofun, nofun⟩
  | some c' => simp

theorem parentClass_eq_error {r : Refusal} :
    s.parentClass n = .error r ↔
      s.outsideClass n = true ∧ r = .missingClass (s.qualifiedName n) := by
  rw [parentClass, ← parentClass?_eq_none]
  cases s.parentClass? n with
  | none => simp [eq_comm]
  | some c => exact ⟨nofun, nofun⟩

/-- What needs the class around a node is refused without it, and otherwise for what follows. -/
theorem parentClass_bind_eq_error {β : Type} {k : Node → Except Refusal β} {r : Refusal}
    {types : List String}
    (hk : ∀ c, k c = .error r ↔ s.typeFault? n types = some r) :
    (s.parentClass n >>= k) = .error r ↔
      (if s.outsideClass n then some (.missingClass (s.qualifiedName n))
        else s.typeFault? n types) = some r := by
  rw [bind_eq_error, parentClass_eq_error]
  cases h : s.outsideClass n with
  | true =>
    have hnone : s.parentClass? n = none := parentClass?_eq_none.mpr h
    rw [if_pos rfl]
    refine ⟨?_, fun hr => Or.inl ⟨rfl, (Option.some.inj hr).symm⟩⟩
    rintro (⟨-, rfl⟩ | ⟨c, hc, -⟩)
    · rfl
    · rw [parentClass_eq_ok, hnone] at hc
      cases hc
  | false =>
    obtain ⟨c, hc⟩ : ∃ c, s.parentClass? n = some c := by
      cases hc : s.parentClass? n with
      | none =>
        rw [parentClass?_eq_none.mp hc] at h
        cases h
      | some c => exact ⟨c, rfl⟩
    rw [if_neg Bool.false_ne_true]
    refine ⟨?_, fun hr => Or.inr ⟨c, parentClass_eq_ok.mpr hc, (hk c).mpr hr⟩⟩
    rintro (⟨h, -⟩ | ⟨c, -, hr⟩)
    · cases h
    · exact (hk c).mp hr

end Parts

/-! ## Whole drafts -/

section Drafts

/-- A function is refused for its result first, and then for its parameters. -/
theorem draftFunction_eq_error {f : Signature} {r : Refusal} :
    s.draftFunction n f = .error r ↔
      s.typeFault? n (f.returns :: f.params.map (·.type)) = some r :=
  signature_eq_error

/-- A method is refused for its class first, and then for its types. -/
theorem draftMethod_eq_error {m : Method} (hrole : m.role = .ordinary) {r : Refusal} :
    s.draftMethod n m = .error r ↔
      (if s.outsideClass n then some (.missingClass (s.qualifiedName n))
        else s.typeFault? n (m.returns :: m.params.map (·.type))) = some r := by
  rw [draftMethod, if_neg (not_not_intro hrole)]
  exact parentClass_bind_eq_error fun c => signature_eq_error

/-- A field is refused for its class first, and then for its type. -/
theorem draftField_eq_error {type : String} {r : Refusal} :
    s.draftField n type = .error r ↔
      (if s.outsideClass n then some (.missingClass (s.qualifiedName n))
        else s.typeFault? n [type]) = some r := by
  apply parentClass_bind_eq_error
  intro c
  apply cType_bind_eq_error
  intro cType
  exact ⟨nofun, nofun⟩

/-- Special methods have no wrappers. -/
theorem draft_of_special {m : Method} (hdecl : n.decl = .memberFunction m)
    (hrole : m.role ≠ .ordinary) : s.draft n = .ok none := by
  rw [draft, hdecl]
  exact if_pos hrole

/-- **A draft is refused** exactly for the fault of a node that wrappers are made for. -/
theorem draft_error_iff {r : Refusal} :
    s.draft n = .error r ↔ n.decl.isExportable = true ∧ s.fault? n = some r := by
  unfold fault?
  cases hdecl : n.decl with
  | freeFunction f =>
    rw [draft, hdecl, map_eq_error, draftFunction_eq_error]
    simp [Declaration.isExportable, Declaration.isMember, Declaration.typesUsed]
  | memberFunction m =>
    by_cases hrole : m.role = .ordinary
    · rw [draft, hdecl]
      simp only [draftMethod_eq_error hrole, Declaration.isExportable, Declaration.isMember,
        Declaration.typesUsed, hrole, decide_true, true_and, Bool.true_and]
    · rw [draft_of_special hdecl hrole]
      simp [Declaration.isExportable, hrole]
  | memberVariable type =>
    rw [draft, hdecl, map_eq_error, draftField_eq_error]
    simp only [Declaration.isExportable, Declaration.isMember, Declaration.typesUsed, true_and,
      Bool.true_and]
  | nameSpace | classType _ | other =>
    rw [draft, hdecl]
    simp [Declaration.isExportable]

/-- Only functions, methods and fields are drafted. -/
theorem draft_ok_some {d : Draft} (h : s.draft n = .ok (some d)) :
    (∃ f, n.decl = .freeFunction f ∧ s.draftFunction n f = .ok d) ∨
    (∃ m, n.decl = .memberFunction m ∧ m.role = .ordinary ∧
      s.draftMethod n m = .ok (some d)) ∨
    ∃ type, n.decl = .memberVariable type ∧ s.draftField n type = .ok d := by
  cases hdecl : n.decl with
  | freeFunction f =>
    rw [draft, hdecl] at h
    obtain ⟨d', hd', heq⟩ := map_eq_ok.mp h
    cases heq
    exact Or.inl ⟨f, rfl, hd'⟩
  | memberFunction m =>
    by_cases hrole : m.role = .ordinary
    · rw [draft, hdecl] at h
      exact Or.inr (Or.inl ⟨m, rfl, hrole, h⟩)
    · rw [draft_of_special hdecl hrole] at h
      cases h
  | memberVariable type =>
    rw [draft, hdecl] at h
    obtain ⟨d', hd', heq⟩ := map_eq_ok.mp h
    cases heq
    exact Or.inr (Or.inr ⟨type, rfl, hd'⟩)
  | nameSpace | classType _ | other =>
    rw [draft, hdecl] at h
    cases h

/-- The draft of a function. -/
theorem draftFunction_ok {f : Signature} {d : Draft} (h : s.draftFunction n f = .ok d) :
    ∃ returnType params, s.types f.returns = some returnType ∧
      s.cParams n f.params = .ok params ∧
      d = .call
        { base := s.qualifiedName n
          returnType
          params
          statement := s.options.callStatement f.returns
            (s.qualifiedName n ++ "(" ++ s.options.arguments f.params ++ ")") } := by
  obtain ⟨returnType, hreturn, h⟩ := bind_eq_ok.mp h
  obtain ⟨params, hparams, h⟩ := bind_eq_ok.mp h
  cases h
  exact ⟨returnType, params, cType_eq_ok.mp hreturn, hparams, rfl⟩

/-- The draft of a method that is no constructor or destructor. -/
theorem draftMethod_ok {m : Method} {d : Option Draft} (hrole : m.role = .ordinary)
    (h : s.draftMethod n m = .ok d) :
    ∃ c returnType params, s.parentClass? n = some c ∧ s.types m.returns = some returnType ∧
      s.cParams n m.params = .ok params ∧
      d = some (.call
        { base := s.qualifiedName n
          returnType
          params := .ofInstance (s.options.className c) :: params
          statement := s.options.callStatement m.returns
            ("cls->" ++ n.name ++ "(" ++ s.options.arguments m.params ++ ")")
          overridable :=
            if m.isVirtual then some (s.options.className c, n.name) else none }) := by
  rw [draftMethod, if_neg (not_not_intro hrole)] at h
  obtain ⟨c, hc, h⟩ := bind_eq_ok.mp h
  obtain ⟨returnType, hreturn, h⟩ := bind_eq_ok.mp h
  obtain ⟨params, hparams, h⟩ := bind_eq_ok.mp h
  cases h
  exact ⟨c, returnType, params, parentClass_eq_ok.mp hc, cType_eq_ok.mp hreturn, hparams, rfl⟩

/-- The draft of a field. -/
theorem draftField_ok {type : String} {d : Draft} (h : s.draftField n type = .ok d) :
    ∃ c cType, s.parentClass? n = some c ∧ s.types type = some cType ∧
      ∃ f : FieldDraft, d = .field f ∧ f.base = s.qualifiedName c ++ "_" ++ n.name ∧
        f.className = s.options.className c ∧ f.cType = cType ∧
        (f.readExpr, f.writeStatement) =
          if n.access = .subclasses then
            ("cls->" ++ s.options.getterHead ++ n.name ++ "()",
              "cls->" ++ s.options.setterHead ++ n.name ++ "(" ++ s.options.inbound "value" ++
                ");")
          else
            ("cls->" ++ n.name,
              "cls->" ++ n.name ++ " = " ++ s.options.inbound "value" ++ ";") := by
  obtain ⟨c, hc, h⟩ := bind_eq_ok.mp h
  obtain ⟨cType, htype, h⟩ := bind_eq_ok.mp h
  cases h
  refine ⟨c, cType, parentClass_eq_ok.mp hc, cType_eq_ok.mp htype, _, rfl, rfl, rfl, rfl, ?_⟩
  cases n.access <;> rfl

/-- No draft is made for what has no wrappers, and for nothing else. -/
theorem draft_ok_none_iff : s.draft n = .ok none ↔ n.decl.isExportable = false := by
  cases hdecl : n.decl with
  | freeFunction f =>
    rw [draft, hdecl, map_eq_ok]
    simp [Declaration.isExportable]
  | memberFunction m =>
    by_cases hrole : m.role = .ordinary
    · rw [draft, hdecl]
      simp only [Declaration.isExportable, hrole, decide_true, Bool.true_eq_false, iff_false]
      intro h
      obtain ⟨_, _, _, -, -, -, hd⟩ := draftMethod_ok hrole h
      cases hd
    · rw [draft_of_special hdecl hrole]
      simp [Declaration.isExportable, hrole]
  | memberVariable type =>
    rw [draft, hdecl, map_eq_ok]
    simp [Declaration.isExportable]
  | nameSpace | classType _ | other =>
    rw [draft, hdecl]
    simp [Declaration.isExportable]

end Drafts

end Setting

end FlatApi
