import FlatApi.Proofs.Agreement
import FlatApi.Proofs.Artifact
import FlatApi.Proofs.Identifiers

/-!
# Keys of the override table

A virtual method is overridden through a table, under the symbol of its own wrapper.

* Of all wrappers, only the setters behind virtual methods store into the table: a statement that
  ends in a call stores nothing (`EndsInCall.ne_tableStatement`).
* A setter stores under one key, as the key can be read off its statement
  (`Options.tableStatement_injective`).
* The key is the name that is noted for the method, and those names are all different.  So no
  setter stores under the key of another (`overrides_have_own_keys`), though their classes,
  methods and arguments may be spelled alike.
-/

namespace FlatApi

open Forest (Node)
open FlatApi.Symbol (IsWord)

/-! ## Statements that store -/

namespace Options

/-- The statement that stores a function under a key of the table. -/
def tableStatement (o : Options) (key : String) : String :=
  "cls->" ++ o.overrideTable ++ "[\"" ++ key ++ "\"] = fn;"

theorem tableStatement_injective (o : Options) {x y : String}
    (h : o.tableStatement x = o.tableStatement y) : x = y := by
  unfold tableStatement at h
  have hkeys := (String.append_left_inj "\"] = fn;").mp h
  exact (String.append_right_inj ("cls->" ++ o.overrideTable ++ "[\"")).mp hkeys

theorem overrideStatement_of_table {o : Options} (htable : o.overrideStyle = .table)
    (method symbol : String) :
    CallDraft.overrideStatement o method symbol = o.tableStatement symbol := by
  unfold CallDraft.overrideStatement
  rw [htable]
  rfl

end Options

theorem EndsInCall.ne_tableStatement {text : String} (h : EndsInCall text) (o : Options)
    (key : String) : text ≠ o.tableStatement key := by
  obtain ⟨front, rfl⟩ := h
  intro heq
  -- both are closed by a semicolon, but a call has a parenthesis in front of it
  have htail : ("\"] = fn;" : String) = "\"] = f" ++ "n;" := by decide
  unfold Options.tableStatement at heq
  rw [htail, ← String.append_assoc] at heq
  have hchars := congrArg String.toList heq
  rw [String.toList_append, String.toList_append] at hchars
  have hends := (List.append_inj' hchars (by decide)).2
  exact absurd hends (by decide)

namespace Wrapper

/-- One of the statements stores a function under the key. -/
def StoresUnder (o : Options) (w : Wrapper) (key : String) : Prop := o.tableStatement key ∈ w.body

theorem not_storesUnder {o : Options} {w : Wrapper} {text : String} (hbody : w.body = [text])
    (h : EndsInCall text) (key : String) : ¬ w.StoresUnder o key := by
  intro hstores
  unfold StoresUnder at hstores
  rw [hbody, List.mem_singleton] at hstores
  exact h.ne_tableStatement o key hstores.symm

/-- A statement for the table stores under its own key only. -/
theorem storesUnder_iff {o : Options} {w : Wrapper} {symbol : String}
    (hbody : w.body = [o.tableStatement symbol]) (key : String) :
    w.StoresUnder o key ↔ key = symbol := by
  unfold StoresUnder
  rw [hbody, List.mem_singleton]
  constructor
  · exact o.tableStatement_injective
  · intro heq
    rw [heq]

end Wrapper

/-! ## Overrides of turns -/

/-- The wrappers of a virtual method: the one that forwards to it, and right behind it its setter,
which takes an instance of the same class and stores under the symbol of the first. -/
structure Setting.Overrides (s : Setting) (n : Node) (call setter : Wrapper) : Prop where
  receiver : ∃ c params, s.parentClass? n = some c ∧
    call.params = .ofInstance (s.options.className c) :: params ∧
    setter.params =
      [.ofInstance (s.options.className c), { cType := "void*", name := "fn" }]
  forwards : ∃ m, n.decl = .memberFunction m ∧ call.body = [s.options.callStatement m.returns
    ("cls->" ++ n.name ++ "(" ++ s.options.arguments m.params ++ ")")]
  stores : setter.body = [s.options.tableStatement call.name]

namespace Setting.Overrides

variable {s : Setting} {n : Node} {call setter : Wrapper}

theorem not_storesUnder_call (h : s.Overrides n call setter) (key : String) :
    ¬ call.StoresUnder s.options key := by
  obtain ⟨m, -, hbody⟩ := h.forwards
  apply Wrapper.not_storesUnder hbody
  exact EndsInCall.callStatement s.options m.returns ("cls->" ++ n.name) _

theorem storesUnder_setter (h : s.Overrides n call setter) (key : String) :
    setter.StoresUnder s.options key ↔ key = call.name :=
  Wrapper.storesUnder_iff h.stores key

end Setting.Overrides

namespace Turn

variable {s : Setting} {t : Turn}

/-- A virtual method has a wrapper and a setter that overrides it. -/
theorem overrides_of_virtual (htable : s.options.overrideStyle = .table)
    (h : s.job t.node = .ok (some t.job)) (hvirtual : t.node.isVirtual = true) :
    ∃ call setter, t.wrappers s.options = [call, setter] ∧ call.name = t.note s.options ∧
      s.Overrides t.node call setter := by
  obtain ⟨m, c, d, params, setter, hdecl, hc, -, hparams, hstatement, hwrappers⟩ :=
    wrappers_of_virtual h hvirtual
  refine ⟨_, _, hwrappers, rfl, ?_⟩
  constructor
  case receiver => exact ⟨c, params, hc, hparams, rfl⟩
  case forwards => exact ⟨m, hdecl, congrArg (fun text => [text]) hstatement⟩
  case stores =>
    have hstores := Options.overrideStatement_of_table htable t.node.name (t.note s.options)
    exact congrArg (fun text => [text]) hstores

/-- Wrappers of what is not virtual store nothing. -/
theorem not_storesUnder_of_plain (h : s.job t.node = .ok (some t.job))
    (hvirtual : t.node.isVirtual = false) :
    ∀ w ∈ t.wrappers s.options, ∀ key, ¬ w.StoresUnder s.options key := by
  intro w hw key
  obtain ⟨text, hbody, hcall⟩ := endsInCall_of_plain h hvirtual w hw
  exact Wrapper.not_storesUnder hbody hcall key

/-- Whatever a turn stores, it stores under the name that is noted in it. -/
theorem eq_note_of_storesUnder (htable : s.options.overrideStyle = .table)
    (h : s.job t.node = .ok (some t.job)) {w : Wrapper} (hw : w ∈ t.wrappers s.options)
    {key : String} (hstores : w.StoresUnder s.options key) : key = t.note s.options := by
  cases hvirtual : t.node.isVirtual with
  | false => exact absurd hstores (not_storesUnder_of_plain h hvirtual w hw key)
  | true =>
    obtain ⟨call, setter, hwrappers, hname, ho⟩ := overrides_of_virtual htable h hvirtual
    rw [hwrappers] at hw
    rcases List.mem_cons.mp hw with rfl | hw
    · exact absurd hstores (ho.not_storesUnder_call key)
    · rw [List.mem_singleton.mp hw] at hstores
      rw [← hname]
      exact (ho.storesUnder_setter key).mp hstores

/-- A turn stores at most once. -/
theorem pairwise_storesUnder (htable : s.options.overrideStyle = .table)
    (h : s.job t.node = .ok (some t.job)) :
    (t.wrappers s.options).Pairwise fun w u =>
      ∀ key, w.StoresUnder s.options key → ¬ u.StoresUnder s.options key := by
  cases hvirtual : t.node.isVirtual with
  | false =>
    apply List.pairwise_of_forall_mem_list
    intro w hw u _ key hstores
    exact absurd hstores (not_storesUnder_of_plain h hvirtual w hw key)
  | true =>
    obtain ⟨call, setter, hwrappers, -, ho⟩ := overrides_of_virtual htable h hvirtual
    rw [hwrappers]
    apply List.pairwise_pair.mpr
    intro key hstores
    exact absurd hstores (ho.not_storesUnder_call key)

end Turn

namespace Output.OfTurns

variable {s : Setting} {out : Output} {turns : List Turn}

/-- No two wrappers store under one key. -/
theorem pairwise_storesUnder (h : out.OfTurns s turns)
    (htable : s.options.overrideStyle = .table) :
    (turns.flatMap (·.wrappers s.options)).Pairwise fun w u =>
      ∀ key, w.StoresUnder s.options key → ¬ u.StoresUnder s.options key := by
  apply List.pairwise_flatMap.mpr
  -- first within one turn, then between two turns, which note different names
  constructor
  · intro t ht
    exact Turn.pairwise_storesUnder htable (h.job t ht)
  · have hnotes : turns.Pairwise fun t u => t.note s.options ≠ u.note s.options :=
      List.pairwise_map.mp (h.nodup_notes s.options)
    refine hnotes.imp_of_mem fun {t u} ht hu hne w hw v hv key hwkey hvkey => ?_
    have hkey := Turn.eq_note_of_storesUnder htable (h.job t ht) hw hwkey
    rw [hkey] at hvkey
    exact hne (Turn.eq_note_of_storesUnder htable (h.job u hu) hv hvkey)

/-- All wrappers are called by words. -/
theorem isWord_name (h : out.OfTurns s turns) {t : Turn} (ht : t ∈ turns) {w : Wrapper}
    (hw : w ∈ t.wrappers s.options) : IsWord w.name := by
  have hmem : w.name ∈ t.entry.symbols := by
    rw [← t.map_name_wrappers s.options]
    exact List.mem_map_of_mem hw
  exact (h.exportedAs ht).isWord hmem

end Output.OfTurns

/-- **Overrides have keys of their own.**  Each exported virtual method has one setter, right behind
the wrapper that forwards to it; it stores under the symbol of that wrapper, which is the name in
the record of the method and needs no escapes.  No other node has a setter, and no two setters
store under one key. -/
theorem overrides_have_own_keys {es : List Entity} {types : String → Option String}
    {options : Options} {out : Output} (htable : options.overrideStyle = .table)
    (h : generate (.ofEntities es types options) = .ok out) :
    ∃ made : List (List Wrapper),
      out.source = options.sourceText made.flatten ∧
      made.map (·.map (·.name)) = out.exports.map (·.symbols) ∧
      List.Forall₂ (fun n ws =>
        (∃ l l', Ledger.emit (.ofEntities es types options) l n = (.ok ws, l')) ∧
        (n.isVirtual = true → ∃ call setter, ws = [call, setter] ∧
          (Setting.ofEntities es types options).Overrides n call setter ∧
          (∀ key, ¬ call.StoresUnder options key) ∧
          (∀ key, setter.StoresUnder options key ↔ key = call.name) ∧
          out.records.functionName? n.id = some call.name ∧ IsWord call.name) ∧
        (n.isVirtual = false → ∀ w ∈ ws, ∀ key, ¬ w.StoresUnder options key))
        (Entity.exported es) made ∧
      made.flatten.Pairwise fun w u =>
        ∀ key, w.StoresUnder options key → ¬ u.StoresUnder options key := by
  obtain ⟨turns, hturns⟩ := exists_turns h
  have hoptions : (Setting.ofEntities es types options).options = options := rfl
  have htable' : (Setting.ofEntities es types options).options.overrideStyle = .table := htable
  have hnames := names_wrappers hturns
  have hsource := source_eq_sourceText hturns
  have hkeys := hturns.pairwise_storesUnder htable'
  rw [hoptions] at hnames hsource hkeys
  refine ⟨turns.map (·.wrappers options), ?_, hnames, ?_, ?_⟩
  · rw [hsource, List.flatMap_def]
  · apply hturns.forall₂_exported
    intro t ht
    have hjob := hturns.job t ht
    refine ⟨emit_of_turn hjob, ?_, ?_⟩
    · intro hvirtual
      obtain ⟨call, setter, hwrappers, hname, ho⟩ :=
        Turn.overrides_of_virtual htable' hjob hvirtual
      have hword : IsWord call.name := by
        apply hturns.isWord_name ht
        rw [hwrappers]
        exact List.mem_cons_self
      have hrecord := hturns.functionName?_of_turn ht
      rw [← hname] at hrecord
      rw [hoptions] at hwrappers
      exact ⟨call, setter, hwrappers, ho, ho.not_storesUnder_call, ho.storesUnder_setter,
        hrecord, hword⟩
    · exact Turn.not_storesUnder_of_plain hjob
  · rw [← List.flatMap_def]
    exact hkeys

/-- Virtual methods that are spelled alike: overloads in one class, and methods of two classes
whose names only differ where symbols have an underscore. -/
def Entity.namesakes : List Entity :=
  [{ name := "Add", decl := .freeFunction {} },
    { name := "ui", decl := .nameSpace, children :=
      [{ name := "Pen", decl := .classType true, children :=
        [{ name := "Draw", decl := .memberFunction { isVirtual := true } },
          { name := "Draw", decl := .memberFunction
              { isVirtual := true, params := [{ type := "int" }] } },
          { name := "Lift", decl := .memberFunction {} }] }] },
    { name := "ui::Pen", decl := .classType true, children :=
      [{ name := "Draw", decl := .memberFunction { isVirtual := true } },
        { name := "width", decl := .memberVariable "int" }] }]

theorem overrides_have_own_keys_namesakes :
    ∃ (out : Output) (made : List (List Wrapper)),
      generate (.ofEntities Entity.namesakes TypeTable.builtins.lookup {}) = .ok out ∧
      out.source = ({} : Options).sourceText made.flatten ∧
      out.exports.map (·.symbols) =
        [["Add"], ["ui_Pen_Draw", "set_PenEx_fnDraw"], ["ui_Pen_Draw0", "set_PenEx_fnDraw0"],
          ["ui_Pen_Lift"], ["ui_Pen_Draw1", "set_ui_PenEx_fnDraw"],
          ["get_ui_Pen_width", "set_ui_Pen_width"]] ∧
      made.map (·.map (·.name)) = out.exports.map (·.symbols) ∧
      made.flatten.Pairwise fun w u =>
        ∀ key, w.StoresUnder {} key → ¬ u.StoresUnder {} key := by
  have hrun : (generate (.ofEntities Entity.namesakes TypeTable.builtins.lookup {})).toOption.map
      (fun out => out.exports.map (·.symbols)) =
        some [["Add"], ["ui_Pen_Draw", "set_PenEx_fnDraw"], ["ui_Pen_Draw0", "set_PenEx_fnDraw0"],
          ["ui_Pen_Lift"], ["ui_Pen_Draw1", "set_ui_PenEx_fnDraw"],
          ["get_ui_Pen_width", "set_ui_Pen_width"]] := by decide +kernel
  obtain ⟨out, hout, hsymbols⟩ := exists_ok_of_toOption hrun
  obtain ⟨made, hsource, hnames, -, hkeys⟩ := overrides_have_own_keys rfl hout
  exact ⟨out, made, hout, hsource, hsymbols, hnames, hkeys⟩

end FlatApi
