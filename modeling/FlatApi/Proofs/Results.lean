import FlatApi.Proofs.Forwarding
import FlatApi.Proofs.Respelling
import FlatApi.Proofs.TypeTable

/-!
# Results

What a wrapper is declared to return comes from the table of types.  Whether its statement returns
anything is decided by the spelling of the native type alone (`exists_call_of_wraps`).

So the two agree for a wrapper exactly if its native and its C type are both `void` or both not
(`Wrapper.returnsAsDeclared_iff`), and they agree in all libraries exactly if the table keeps `void`
apart (`KeepsVoid`).  A table that is read from a file does so exactly if the entries in effect do
(`TypeTable.keepsVoid_ofFile_iff`): the builtin types stand for themselves.  One alias of `void` in
a file is enough for a function that returns nothing to have a wrapper that returns something
(`alias_of_void`).
-/

namespace FlatApi

open Forest (Node)

/-! ## Statements with and without a result -/

namespace Declaration

/-- What a function or a method returns. -/
def returns? : Declaration → Option String
  | .freeFunction f => some f.returns
  | .memberFunction m => some m.returns
  | .memberVariable _ | .nameSpace | .classType _ | .other => none

end Declaration

namespace Wrapper

variable {o : Options} {call native : String} {w : Wrapper}

/-- The only statement returns what comes of the call, converted. -/
def ReturnsResult (o : Options) (call : String) (w : Wrapper) : Prop :=
  w.body = ["return " ++ o.outbound call ++ ";"]

/-- The only statement is the call, and nothing is returned. -/
def DropsResult (call : String) (w : Wrapper) : Prop := w.body = [call ++ ";"]

/-- The wrapper returns no result if it is declared void, and one if it is declared with another
type. -/
structure ReturnsAsDeclared (o : Options) (call : String) (w : Wrapper) : Prop where
  drops : Spelling.isVoid w.returnType = true → w.DropsResult call
  returns : Spelling.isVoid w.returnType = false → w.ReturnsResult o call

theorem ReturnsResult.not_dropsResult (h : w.ReturnsResult o call) : ¬ w.DropsResult call := by
  intro hdrops
  rw [ReturnsResult, hdrops] at h
  have hlength := congrArg String.length (List.head_eq_of_cons_eq h)
  simp only [Options.outbound, String.length_append] at hlength
  have hreturn : "return ".length = 7 := rfl
  omega

section Statement

variable (h : w.body = [o.callStatement native call])

include h

theorem returnsResult_iff : w.ReturnsResult o call ↔ Spelling.isVoid native = false := by
  cases hvoid : Spelling.isVoid native with
  | true =>
    rw [Options.callStatement, hvoid, if_pos rfl] at h
    exact iff_of_false (fun hreturns => hreturns.not_dropsResult h) Bool.noConfusion
  | false =>
    rw [Options.callStatement, hvoid] at h
    exact iff_of_true h rfl

theorem dropsResult_iff : w.DropsResult call ↔ Spelling.isVoid native = true := by
  cases hvoid : Spelling.isVoid native with
  | true =>
    rw [Options.callStatement, hvoid, if_pos rfl] at h
    exact iff_of_true h rfl
  | false =>
    have hreturns := (returnsResult_iff h).mpr hvoid
    exact iff_of_false hreturns.not_dropsResult Bool.noConfusion

/-- The declared type and the native one have to agree on whether there is a result. -/
theorem returnsAsDeclared_iff :
    w.ReturnsAsDeclared o call ↔ Spelling.isVoid w.returnType = Spelling.isVoid native := by
  constructor
  · intro hdeclared
    cases hvoid : Spelling.isVoid w.returnType with
    | true => exact ((dropsResult_iff h).mp (hdeclared.drops hvoid)).symm
    | false => exact ((returnsResult_iff h).mp (hdeclared.returns hvoid)).symm
  · intro hsame
    constructor
    case drops => exact fun hvoid => (dropsResult_iff h).mpr (hsame ▸ hvoid)
    case returns => exact fun hvoid => (returnsResult_iff h).mpr (hsame ▸ hvoid)

end Statement

end Wrapper

/-! ## Wrappers of functions and methods -/

namespace Setting

/-- The call in the wrapper of a function or a method, which hands on what the wrapper takes behind
the instance. -/
def callOf (s : Setting) (n : Node) (w : Wrapper) : String :=
  if n.decl.isMember then s.options.callText ("cls->" ++ n.name) w.params.tail
  else s.options.callText (s.qualifiedName n) w.params

/-- The first of the wrappers, the one that makes the call, returns as it is declared. -/
def ReturnsAsDeclared (s : Setting) (n : Node) (ws : List Wrapper) : Prop :=
  ∃ w setters, ws = w :: setters ∧ w.ReturnsAsDeclared s.options (s.callOf n w)

end Setting

section Wrappers

variable {s : Setting} {n : Node} {native : String}

/-- The first wrapper of a function or a method is declared with what the table has, and its
statement is made for the native type. -/
theorem exists_call_of_wraps {ws : List Wrapper} (h : s.Wraps n ws)
    (hn : n.decl.isExportable = true) (hreturns : n.decl.returns? = some native) :
    ∃ w setters, ws = w :: setters ∧ s.types native = some w.returnType ∧
      w.body = [s.options.callStatement native (s.callOf n w)] := by
  unfold Setting.Wraps at h
  cases hdecl : n.decl with
  | freeFunction f =>
    simp only [hdecl] at h
    obtain ⟨w, rfl, hw⟩ := h
    rw [hdecl] at hreturns
    cases hreturns
    refine ⟨w, [], rfl, hw.returnType, ?_⟩
    rw [hw.body, Setting.callOf, hdecl]
    rfl
  | memberFunction m =>
    rw [hdecl] at hn hreturns
    cases hreturns
    simp only [hdecl, if_pos (of_decide_eq_true hn)] at h
    obtain ⟨c, w, params, setters, -, rfl, hparams, hw, -, -⟩ := h
    refine ⟨w, setters, rfl, hw.returnType, ?_⟩
    rw [hw.body, Setting.callOf, hdecl, hparams]
    rfl
  | memberVariable type | nameSpace | classType _ | other =>
    rw [hdecl] at hreturns
    cases hreturns

end Wrappers

/-! ## Tables that keep `void` apart -/

/-- The type `void` stands for `void`, in any spelling, and for nothing else. -/
def KeepsVoid (types : String → Option String) : Prop :=
  ∀ native cType, types native = some cType → Spelling.isVoid cType = Spelling.isVoid native

namespace TypeTable

variable {t : TypeTable} {native cType : String}

/-- A type that is found was there before or is that of an entry. -/
theorem lookup_insertAll_cases {pairs : List (String × String)}
    (h : (t.insertAll pairs).lookup native = some cType) :
    t.lookup native = some cType ∨
      ∃ p ∈ pairs, Spelling.normalize p.1 = Spelling.normalize native ∧ p.2 = cType := by
  rw [lookup_insertAll] at h
  cases hlatest : latest? pairs native with
  | none =>
    rw [hlatest] at h
    exact Or.inl h
  | some latest =>
    rw [hlatest] at h
    cases h
    exact Or.inr (exists_of_latest? hlatest)

theorem keepsVoid_builtins : KeepsVoid builtins.lookup := by
  intro native cType h
  rcases lookup_insertAll_cases h with hempty | ⟨p, hp, hnative, rfl⟩
  · cases hempty
  · obtain ⟨type, -, rfl⟩ := List.mem_map.mp hp
    exact Spelling.isVoid_congr hnative

/-- The builtin types keep `void` apart, so it is up to the entries of the file.  Those that a later
one replaces do not count. -/
theorem keepsVoid_ofFile_iff (f : TypeFile) :
    KeepsVoid (ofFile f).lookup ↔
      ∀ e ∈ f.types, (ofFile f).lookup e.native = some e.cType →
        Spelling.isVoid e.cType = Spelling.isVoid e.native := by
  constructor
  · intro h e _ he
    exact h e.native e.cType he
  · intro h native cType hlookup
    rcases lookup_insertAll_cases hlookup with hbuiltin | ⟨p, hp, hnative, rfl⟩
    · exact keepsVoid_builtins native cType hbuiltin
    · obtain ⟨e, he, rfl⟩ := List.mem_map.mp hp
      have hsame : (ofFile f).lookup e.native = some e.cType := by
        rw [(ofFile f).lookup_congr hnative]
        exact hlookup
      rw [h e he hsame]
      exact Spelling.isVoid_congr hnative

end TypeTable

/-! ## Libraries -/

/-- The wrappers are those that are made for the node at some time. -/
def Setting.Emits (s : Setting) (n : Node) (ws : List Wrapper) : Prop :=
  ∃ l l' : Ledger, l.emit s n = (.ok ws, l')

theorem emits_of_fst {s : Setting} {n : Node} {ws : List Wrapper} {l : Ledger}
    (h : (l.emit s n).1 = .ok ws) : s.Emits n ws := by
  refine ⟨l, (l.emit s n).2, ?_⟩
  rw [← h]

/-- What `exists_call_of_wraps` says holds of the wrappers of a library. -/
theorem exists_call_of_emits {es : List Entity} {types : String → Option String}
    {options : Options} {n : Node} {native : String} {ws : List Wrapper}
    (hn : n ∈ Entity.exported es) (hreturns : n.decl.returns? = some native)
    (h : (Setting.ofEntities es types options).Emits n ws) :
    let s := Setting.ofEntities es types options
    ∃ w setters, ws = w :: setters ∧ types native = some w.returnType ∧
      w.body = [s.options.callStatement native (s.callOf n w)] := by
  obtain ⟨l, l', hemit⟩ := h
  have hexportable : n.decl.isExportable = true := by
    have hexported := (List.mem_filter.mp hn).2
    rw [Node.isExported, Bool.and_eq_true] at hexported
    exact hexported.1
  exact exists_call_of_wraps (wraps_of_emit hemit) hexportable hreturns

/-- A library of one function. -/
def Entity.alone (name : String) (f : Signature) : List Entity :=
  [{ name, decl := .freeFunction f }]

/-- The node of a function that is alone. -/
def Forest.Node.alone (name : String) (f : Signature) : Node :=
  { id := 0, name, decl := .freeFunction f, access := .anyone, parent := none, children := [] }

theorem alone_mem_exported (name : String) (f : Signature) :
    Node.alone name f ∈ Entity.exported (Entity.alone name f) :=
  List.mem_singleton_self _

/-- A type with a C type can be returned. -/
theorem exists_emits_alone {types : String → Option String} {native cType : String}
    (name : String) (options : Options) (h : types native = some cType) :
    ∃ ws, (Setting.ofEntities (Entity.alone name { returns := native }) types options).Emits
      (Node.alone name { returns := native }) ws := by
  generalize hs : Setting.ofEntities (Entity.alone name { returns := native }) types options = s
  have htype : s.cType (Node.alone name { returns := native }) native = .ok cType := by
    rw [← hs]
    exact Setting.cType_eq_ok.mpr h
  obtain ⟨d, hd⟩ : ∃ d, s.draftFunction (Node.alone name { returns := native })
      { returns := native } = .ok d := by
    rw [Setting.draftFunction, htype]
    exact ⟨_, rfl⟩
  have hdraft : s.draft (Node.alone name { returns := native }) = .ok (some d) := by
    show some <$> s.draftFunction _ _ = _
    rw [hd]
    rfl
  exact ⟨_, {}, _, Pass.emit_of_some {} hdraft⟩

/-- **Wrappers return as they are declared** in all libraries exactly if the table keeps `void`
apart, as a table from a file does if its entries in effect do.  In any case a wrapper returns a
result exactly if the native type is not `void`, whatever it is declared with. -/
theorem returns_as_declared_iff (types : String → Option String) (options : Options) :
    (∀ es n native ws, n ∈ Entity.exported es → n.decl.returns? = some native →
      let s := Setting.ofEntities es types options
      s.Emits n ws → ∃ w setters, ws = w :: setters ∧ types native = some w.returnType ∧
        (w.ReturnsResult s.options (s.callOf n w) ↔ Spelling.isVoid native = false) ∧
        (w.DropsResult (s.callOf n w) ↔ Spelling.isVoid native = true)) ∧
    ((∀ es n native ws, n ∈ Entity.exported es → n.decl.returns? = some native →
      let s := Setting.ofEntities es types options
      s.Emits n ws → s.ReturnsAsDeclared n ws) ↔ KeepsVoid types) ∧
    ∀ f : TypeFile, KeepsVoid (TypeTable.ofFile f).lookup ↔
      ∀ e ∈ f.types, (TypeTable.ofFile f).lookup e.native = some e.cType →
        Spelling.isVoid e.cType = Spelling.isVoid e.native := by
  refine ⟨?_, ⟨?_, ?_⟩, TypeTable.keepsVoid_ofFile_iff⟩
  · intro es n native ws hn hreturns s hemits
    obtain ⟨w, setters, hws, htype, hbody⟩ := exists_call_of_emits hn hreturns hemits
    exact ⟨w, setters, hws, htype, w.returnsResult_iff hbody, w.dropsResult_iff hbody⟩
  · intro h native cType htype
    -- a function that returns this type is a library
    obtain ⟨ws, hemits⟩ := exists_emits_alone "f" options htype
    have hmem := alone_mem_exported "f" { returns := native }
    obtain ⟨w, setters, rfl, htype', hbody⟩ := exists_call_of_emits hmem rfl hemits
    obtain ⟨w', setters', hws, hdeclared⟩ := h _ _ native _ hmem rfl hemits
    cases hws
    rw [htype] at htype'
    cases htype'
    exact (w.returnsAsDeclared_iff hbody).mp hdeclared
  · intro h es n native ws hn hreturns s hemits
    obtain ⟨w, setters, hws, htype, hbody⟩ := exists_call_of_emits hn hreturns hemits
    exact ⟨w, setters, hws, (w.returnsAsDeclared_iff hbody).mpr (h native w.returnType htype)⟩

theorem returns_as_declared_iff_alone :
    let f : Signature := { returns := "bool" }
    let file : TypeFile := { types := [⟨"bool", "unsigned char"⟩, ⟨"Handle", "void *"⟩] }
    let types := (TypeTable.ofFile file).lookup
    let s := Setting.ofEntities (Entity.alone "IsOpen" f) types {}
    let w : Wrapper :=
      { returnType := "unsigned char", name := "IsOpen", body := ["return ToForeign(IsOpen());"] }
    Node.alone "IsOpen" f ∈ Entity.exported (Entity.alone "IsOpen" f) ∧
      s.Emits (Node.alone "IsOpen" f) [w] ∧ KeepsVoid types ∧
      w.ReturnsResult s.options (s.callOf (Node.alone "IsOpen" f) w) ∧
      s.ReturnsAsDeclared (Node.alone "IsOpen" f) [w] := by
  intro f file types s w
  have hemit : (Ledger.emit s {} (Node.alone "IsOpen" f)).1 = .ok [w] := by decide +kernel
  have hemits : s.Emits (Node.alone "IsOpen" f) [w] := emits_of_fst hemit
  have hmem := alone_mem_exported "IsOpen" f
  obtain ⟨hresult, hdeclared, hfile⟩ := returns_as_declared_iff types {}
  have hentries : ∀ e ∈ file.types, Spelling.isVoid e.cType = Spelling.isVoid e.native := by
    decide +kernel
  have hkeeps : KeepsVoid types := (hfile file).mpr fun e he _ => hentries e he
  obtain ⟨w', setters, hws, -, hreturns, -⟩ := hresult _ _ "bool" _ hmem rfl hemits
  cases hws
  exact ⟨hmem, hemits, hkeeps, hreturns.mpr (by decide +kernel),
    hdeclared.mpr hkeeps _ _ "bool" _ hmem rfl hemits⟩

/-- With an alias of `void` among the types, a function that returns nothing has a wrapper that is
declared void and returns a result. -/
theorem alias_of_void :
    let f : Signature := { returns := "VOID" }
    let types := (TypeTable.ofFile { types := [⟨"VOID", "void"⟩] }).lookup
    let s := Setting.ofEntities (Entity.alone "Reset" f) types {}
    let w : Wrapper :=
      { returnType := "void", name := "Reset", body := ["return ToForeign(Reset());"] }
    Node.alone "Reset" f ∈ Entity.exported (Entity.alone "Reset" f) ∧
      s.Emits (Node.alone "Reset" f) [w] ∧
      Spelling.isVoid w.returnType = true ∧
      w.ReturnsResult s.options (s.callOf (Node.alone "Reset" f) w) ∧
      ¬ s.ReturnsAsDeclared (Node.alone "Reset" f) [w] := by
  intro f types s w
  have hemit : (Ledger.emit s {} (Node.alone "Reset" f)).1 = .ok [w] := by decide +kernel
  have hemits : s.Emits (Node.alone "Reset" f) [w] := emits_of_fst hemit
  have hvoid : Spelling.isVoid w.returnType = true := by decide +kernel
  have hreturns : w.ReturnsResult s.options (s.callOf (Node.alone "Reset" f) w) := by
    show w.body = _
    decide +kernel
  refine ⟨alone_mem_exported "Reset" f, hemits, hvoid, hreturns, ?_⟩
  rintro ⟨w', setters, hws, hdeclared⟩
  cases hws
  exact hreturns.not_dropsResult (hdeclared.drops hvoid)

end FlatApi
