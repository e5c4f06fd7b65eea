import FlatApi.Proofs.Accounts
import FlatApi.Proofs.Refusals
import FlatApi.Proofs.Turns

/-!
# Records, nodes and exports agree

* After a walk there is one record for each node, in their order.  It has a name exactly if the
  node is exported, the name is the one that its export begins with, and no name is noted twice
  (`records_agree`).
* The flag of a record is that of the declaration at any time, in whatever order nodes are visited
  or looked up (`Ledger.flagged_reach`, `Pass.flagged_reach`).  Nothing ever writes a flag; the
  invariant only has to survive that a record is made where its class is first looked up.
-/

namespace FlatApi

open Forest (Node)

/-! ## Flags -/

theorem Declaration.hasWrapper_iff {d : Declaration} :
    d.hasWrapper = true ↔ d = .classType true := by
  cases d <;> simp [hasWrapper]

/-- Each record says of a node whether it is declared with a class that stands in. -/
def Records.FlagsDeclared (r : Records) (f : Forest) : Prop :=
  ∀ e ∈ r.entries, ∃ n, f.node? e.1 = some n ∧ (e.2.hasWrapper = true ↔ n.decl = .classType true)

/-- Numbers that rise do not come twice, so an entry is found. -/
theorem Records.lookup_of_mem {es : List (Nat × Record)} (h : Rising es) {e : Nat × Record}
    (he : e ∈ es) : es.lookup e.1 = some e.2 := by
  induction es with
  | nil => cases he
  | cons d es ih =>
    obtain ⟨hfirst, hrest⟩ := List.pairwise_cons.mp h
    rw [lookup_cons_eq]
    rcases List.mem_cons.mp he with rfl | he
    · exact if_pos rfl
    · have hlt := hfirst e he
      rw [if_neg (by omega)]
      exact ih hrest he

theorem Pass.Flagged.flagsDeclared {f : Forest} {r : Records} (h : Flagged f r) :
    r.FlagsDeclared f := by
  intro e he
  obtain ⟨n, hn, hflag⟩ := h e.1 e.2 (Records.lookup_of_mem r.rising he)
  exact ⟨n, hn, by rw [hflag, Declaration.hasWrapper_iff]⟩

/-! ## Ledgers on their own -/

namespace Ledger

/-- What a ledger can be told, with no pass around it. -/
inductive Step where
  | touch (n : Node)
  | className (c : Node)
  | reserve (base : String) (heads : List String)
  | assignFunctionName (n : Node) (base : String)
  | assignAccessorName (n : Node) (base : String)
  | emit (n : Node)

/-- The node of a step is one of the forest. -/
def Step.Within (f : Forest) : Step → Prop
  | .reserve _ _ => True
  | .touch n | .className n | .assignFunctionName n _ | .assignAccessorName n _ | .emit n =>
    f.node? n.id = some n

def step (s : Setting) (l : Ledger) : Step → Ledger
  | .touch n => l.touch n
  | .className c => (l.className s c).2
  | .reserve base heads => { l with names := (l.names.reserveWith base heads).2 }
  | .assignFunctionName n base => (l.assignFunctionName n base).2
  | .assignAccessorName n base => (l.assignAccessorName n base).2
  | .emit n => (l.emit s n).2

/-- The ledger after a row of steps. -/
def reach (s : Setting) (l : Ledger) (steps : List Step) : Ledger := steps.foldl (step s) l

section Flags

variable {s : Setting} {l : Ledger} {n : Node}

open Pass (Flagged)

/-- The record of the class around a node has the flag of that class. -/
theorem flagged_touchClass (hs : s.forest.Numbered) (h : Flagged s.forest l.records) :
    Flagged s.forest (l.touchClass s n).records := by
  unfold touchClass
  cases hc : s.classLookedUp? n with
  | none => exact h
  | some c =>
    have hparent : s.forest.parent? n = some c :=
      (Option.filter_eq_some_iff.mp (Setting.parentClass?_of_classLookedUp? hc)).1
    -- the class may never have been visited; its record is then made from its declaration
    obtain ⟨i, -, hi⟩ := Option.bind_eq_some_iff.mp hparent
    exact h.touch (by rwa [hs.id_eq hi])

/-- Making wrappers keeps the flags right, also when it is refused. -/
theorem flagged_emit (hs : s.forest.Numbered) (h : Flagged s.forest l.records)
    (hn : s.forest.node? n.id = some n) : Flagged s.forest (l.emit s n).2.records := by
  have hclass : Flagged s.forest (l.touchClass s n).records := flagged_touchClass hs h
  cases hd : s.draft n with
  | error r =>
    rw [Pass.emit_of_error l hd]
    exact hclass
  | ok d =>
    cases d with
    | none =>
      rw [Pass.emit_of_none l hd]
      exact hclass
    | some d =>
      rw [Pass.emit_of_some l hd]
      exact hclass.setName hn _

/-- Each use of a ledger keeps the flags right. -/
theorem flagged_step (hs : s.forest.Numbered) (h : Flagged s.forest l.records) {t : Step}
    (ht : t.Within s.forest) : Flagged s.forest (l.step s t).records := by
  cases t with
  | touch n => exact h.touch ht
  | className c => exact h.touch ht
  | reserve base heads => exact h
  | assignFunctionName n base => exact h.setName ht _
  | assignAccessorName n base => exact h.setName ht _
  | emit n => exact flagged_emit hs h ht

/-- Any row of uses keeps the flags right. -/
theorem flagged_reach (hs : s.forest.Numbered) (steps : List Step) :
    ∀ l : Ledger, (∀ t ∈ steps, t.Within s.forest) → Flagged s.forest l.records →
      Flagged s.forest (l.reach s steps).records := by
  induction steps with
  | nil => exact fun _ _ h => h
  | cons t steps ih =>
    intro l hwithin h
    have hstep := flagged_step hs h (hwithin t List.mem_cons_self)
    exact ih (l.step s t) (fun u hu => hwithin u (List.mem_cons_of_mem _ hu)) hstep

/-- The record of a class never gives it another name than its declaration. -/
theorem className_eq_declared (h : Flagged s.forest l.records)
    (hn : s.forest.node? n.id = some n) : (l.className s n).1 = s.options.className n := by
  have hget : (l.touch n).records.get? n.id = some ((l.records.get? n.id).getD (.ofNode n)) := by
    rw [touch, Records.get?_touch, if_pos rfl]
  obtain ⟨c, hc, hflag⟩ := (h.touch hn) n.id _ hget
  obtain rfl : c = n := Option.some.inj (hc.symm.trans hn)
  show s.options.classNameIf (((l.touch c).records.get? c.id).any (·.hasWrapper)) c = _
  rw [hget, Option.any_some, hflag]
  rfl

end Flags

end Ledger

/-! ## Names -/

/-- The name is the one that an export begins with: its first symbol, or for a field the one that
both accessors end in. -/
def Export.Notes (e : Export) (x : String) : Prop :=
  match e.kind with
  | .memberVariable => e.symbols = ["get_" ++ x, "set_" ++ x]
  | .freeFunction | .memberFunction | .virtualMemberFunction => e.symbols.head? = some x

theorem Turn.entry_notes {s : Setting} {t : Turn} (h : s.job t.node = .ok (some t.job)) :
    t.entry.Notes (t.note s.options) := by
  obtain ⟨-, hkind, hdraft, -⟩ := Setting.job_eq_ok_some.mp h
  have hhead := t.head?_answers s.options
  unfold Export.Notes
  unfold Job.requests at hhead
  rcases kind_of_draft hkind hdraft with ⟨hfield, f, hd⟩ | ⟨hother, c, hd⟩
  · have hkind : t.entry.kind = .memberVariable := hfield
    rw [hd] at hhead
    have hnote : (t.names.issue (.withHeads f.base FieldDraft.heads)).1 = t.note s.options :=
      Option.some.inj hhead
    have hsymbols : t.entry.symbols =
        ["get_" ++ t.note s.options, "set_" ++ t.note s.options] := by
      simp only [entry, Job.entry, Job.requests, hd, ← hnote]
      rfl
    rw [hkind]
    exact hsymbols
  · have hsymbols : t.entry.symbols.head? = some (t.note s.options) := by
      rw [← hhead]
      simp only [entry, Job.entry, Job.requests, hd]
      rfl
    cases hk : t.entry.kind with
    | memberVariable => exact absurd hk hother
    | freeFunction | memberFunction | virtualMemberFunction => exact hsymbols

namespace Output.OfTurns

variable {s : Setting} {out : Output} {turns : List Turn}

/-- What is up for export has its turn. -/
theorem exists_turn_of_exported (h : out.OfTurns s turns) {n : Node}
    (hn : n ∈ s.forest.nodes.toList) (hexported : n.isExported = true) :
    ∃ t ∈ turns, t.node = n := by
  have hmem : n ∈ turns.map (·.node) := by
    rw [h.nodes]
    exact List.mem_filter.mpr ⟨hn, hexported⟩
  obtain ⟨t, ht, htn⟩ := List.mem_map.mp hmem
  exact ⟨t, ht, htn⟩

/-- The record of a node is that of its turn, or that of an untouched node. -/
theorem record_of_node (h : out.OfTurns s turns) (hs : s.forest.Numbered) {i : Nat} {n : Node}
    (hn : s.forest.node? i = some n) :
    (n.isExported = false ∧ out.records.get? i = some (.ofNode n)) ∨
    (n.isExported = true ∧ ∃ t ∈ turns, t.node = n ∧ out.records.get? i =
      some { functionName := some (t.note s.options), hasWrapper := n.decl.hasWrapper }) := by
  have hid := hs.id_eq hn
  have hmem : n ∈ s.forest.nodes.toList := by
    rw [Forest.node?, ← Array.getElem?_toList] at hn
    exact List.mem_of_getElem? hn
  cases hexported : n.isExported with
  | false =>
    have hrecord := h.untouched n hmem hexported
    rw [hid] at hrecord
    exact Or.inl ⟨rfl, hrecord⟩
  | true =>
    obtain ⟨t, ht, htn⟩ := h.exists_turn_of_exported hmem hexported
    have hrecord := h.recorded t ht
    rw [htn, hid] at hrecord
    exact Or.inr ⟨rfl, t, ht, htn, hrecord⟩

/-- Each record is that of a node. -/
theorem node_of_get? (h : out.OfTurns s turns) {i : Nat} {x : Record}
    (hx : out.records.get? i = some x) : ∃ n, s.forest.node? i = some n := by
  obtain ⟨before, behind, hentries, -⟩ := List.lookup_eq_some_iff.mp hx
  have hmem : i ∈ out.records.entries.map (·.1) := by
    rw [hentries]
    simp
  rw [h.numbers, List.mem_range] at hmem
  exact ⟨s.forest.nodes[i], Array.getElem?_eq_getElem hmem⟩

/-- A symbol that is recorded was noted at the turn of its node. -/
theorem exists_turn_of_name (h : out.OfTurns s turns) (hs : s.forest.Numbered) {i : Nat}
    {x : String} (hx : out.records.functionName? i = some x) :
    ∃ t ∈ turns, t.node.id = i ∧ t.note s.options = x := by
  obtain ⟨r, hr, hname⟩ := Option.bind_eq_some_iff.mp hx
  obtain ⟨n, hn⟩ := h.node_of_get? hr
  rcases h.record_of_node hs hn with ⟨-, hrecord⟩ | ⟨-, t, ht, htn, hrecord⟩
  · rw [hr] at hrecord
    cases hrecord
    cases hname
  · rw [hr] at hrecord
    cases hrecord
    exact ⟨t, ht, by rw [htn, hs.id_eq hn], Option.some.inj hname⟩

/-- A name is noted for one node only. -/
theorem functionName?_injective (h : out.OfTurns s turns) (hs : s.forest.Numbered) {i j : Nat}
    {x : String} (hi : out.records.functionName? i = some x)
    (hj : out.records.functionName? j = some x) : i = j := by
  obtain ⟨t, ht, rfl, htx⟩ := h.exists_turn_of_name hs hi
  obtain ⟨u, hu, rfl, hux⟩ := h.exists_turn_of_name hs hj
  have heq : t = u := List.inj_on_of_nodup_map (h.nodup_notes s.options) ht hu (htx.trans hux.symm)
  rw [heq]

/-- The symbol that is noted at a turn is recorded. -/
theorem functionName?_of_turn (h : out.OfTurns s turns) {t : Turn} (ht : t ∈ turns) :
    out.records.functionName? t.node.id = some (t.note s.options) := by
  rw [Records.functionName?, h.recorded t ht]
  rfl

end Output.OfTurns

/-- **Records, nodes and exports agree.**  After a walk, each node has one record, with the flag of
its declaration and with a name exactly if it is exported, namely the one that its export begins
with; different nodes have different names.  The flags are right at any time, for any steps of a
pass or of a ledger that are about nodes of the forest. -/
theorem records_agree (es : List Entity) (types : String → Option String) (options : Options) :
    let s := Setting.ofEntities es types options
    (∀ out, generate s = .ok out →
      out.records.entries.map (·.1) = List.range s.forest.size ∧
      (∀ i n, s.forest.node? i = some n → ∃ x, out.records.get? i = some x ∧
        (x.hasWrapper = true ↔ n.decl = .classType true) ∧
        (x.functionName.isSome ↔ n.isExported)) ∧
      List.Forall₂ (fun n e => e.entity = s.qualifiedName n ∧
        ExportKind.ofDeclaration? n.decl = some e.kind ∧
        ∃ x, out.records.functionName? n.id = some x ∧ e.Notes x)
        (Entity.exported es) out.exports ∧
      ∀ i j x, out.records.functionName? i = some x → out.records.functionName? j = some x →
        i = j) ∧
    (∀ steps : List Pass.Step, (∀ t ∈ steps, t.Within s.forest) →
      ((Pass.ofSetting s).reach steps).ledger.records.FlagsDeclared s.forest) ∧
    ∀ steps : List Ledger.Step, (∀ t ∈ steps, t.Within s.forest) →
      (Ledger.reach s {} steps).records.FlagsDeclared s.forest := by
  intro s
  have hs : s.forest.Numbered := Forest.numbered_ofEntities es
  refine ⟨fun out hout => ?_, fun steps hwithin => ?_, fun steps hwithin => ?_⟩
  · obtain ⟨turns, h⟩ := exists_turns hout
    refine ⟨h.numbers, fun i n hn => ?_, ?_, fun i j x => h.functionName?_injective hs⟩
    · rcases h.record_of_node hs hn with ⟨hexported, hrecord⟩ | ⟨hexported, t, -, -, hrecord⟩
      · exact ⟨_, hrecord, Declaration.hasWrapper_iff, by simp [Record.ofNode, hexported]⟩
      · exact ⟨_, hrecord, Declaration.hasWrapper_iff, by simp [hexported]⟩
    · rw [h.exports]
      apply h.forall₂_exported
      intro t ht
      have hjob := h.job t ht
      obtain ⟨-, hkind, -, hentity⟩ := Setting.job_eq_ok_some.mp hjob
      exact ⟨hentity, hkind, _, h.functionName?_of_turn ht, Turn.entry_notes hjob⟩
  · exact (Pass.flagged_reach steps _ hs hwithin (Pass.flagged_empty _)).flagsDeclared
  · exact (Ledger.flagged_reach hs steps {} hwithin (Pass.flagged_empty _)).flagsDeclared

/-- The class of the gallery has a record also where only its members were looked at. -/
theorem records_agree_gallery :
    let s := Setting.ofEntities Entity.gallery TypeTable.builtins.lookup {}
    let draw : Node :=
      { id := 3, name := "Draw", decl := .memberFunction { isVirtual := true },
        access := .anyone, parent := some 1, children := [] }
    let p := (Pass.ofSetting s).reach [.visit draw .leaf, .start]
    let l := Ledger.reach s {}
      [.emit draw, .reserve "ui::Add" [], .assignFunctionName draw "ui::Add"]
    (∃ out, generate s = .ok out ∧
      out.records.entries.map (·.1) = [0, 1, 2, 3, 4, 5, 6, 7] ∧
      (List.range 8).map out.records.functionName? =
        [none, none, none, some "ui_Shape_Draw", some "ui_Shape_radius", none, some "ui_Add",
          some "ui_Add0"] ∧
      ∀ i j x, out.records.functionName? i = some x → out.records.functionName? j = some x →
        i = j) ∧
    p.ledger.records.FlagsDeclared s.forest ∧
    p.ledger.records.entries = [(1, { hasWrapper := true }),
      (3, { functionName := some "ui_Shape_Draw" })] ∧
    l.records.FlagsDeclared s.forest ∧
    l.records.entries = [(1, { hasWrapper := true }), (3, { functionName := some "ui_Add0" })] := by
  intro s draw p l
  have hdraw : s.forest.node? draw.id = some draw := by decide
  have hrun : (generate s).toOption.map (fun out => (List.range 8).map out.records.functionName?) =
      some [none, none, none, some "ui_Shape_Draw", some "ui_Shape_radius", none, some "ui_Add",
        some "ui_Add0"] := by decide +kernel
  obtain ⟨out, hout, hnames⟩ := exists_ok_of_toOption hrun
  obtain ⟨hwalk, hpass, hledger⟩ := records_agree Entity.gallery TypeTable.builtins.lookup {}
  obtain ⟨hnumbers, -, -, hdistinct⟩ := hwalk out hout
  refine ⟨⟨out, hout, hnumbers, hnames, hdistinct⟩, hpass _ ?_, by decide +kernel, hledger _ ?_,
    by decide +kernel⟩
  · intro t ht
    rcases List.mem_cons.mp ht with rfl | ht
    · exact hdraw
    · rw [List.mem_singleton.mp ht]
      trivial
  · intro t ht
    rcases List.mem_cons.mp ht with rfl | ht
    · exact hdraw
    · rcases List.mem_cons.mp ht with rfl | ht
      · trivial
      · rw [List.mem_singleton.mp ht]
        exact hdraw

end FlatApi
