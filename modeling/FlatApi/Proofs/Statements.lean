import FlatApi.Proofs.Turns

/-!
# Statements of wrappers

Each wrapper has one statement.

* The one of an override setter stores a function; a virtual method has such a setter behind its
  forwarding wrapper (`Turn.wrappers_of_virtual`).
* All others end in a call (`Turn.endsInCall_of_plain`), also those that read or write a field,
  because a value is converted on its way.

No statement is empty (`Turn.body_ne_empty`).
-/

namespace FlatApi

open Forest (Node)

/-! ## Texts that end in a call -/

def EndsInCall (text : String) : Prop := ∃ front, text = front ++ ");"

namespace EndsInCall

theorem close (text : String) : EndsInCall (text ++ ")" ++ ";") :=
  ⟨text, String.append_assoc⟩

theorem append {text : String} (h : EndsInCall text) (front : String) :
    EndsInCall (front ++ text) := by
  obtain ⟨inner, rfl⟩ := h
  exact ⟨front ++ inner, String.append_assoc.symm⟩

theorem ne_empty {text : String} (h : EndsInCall text) : text ≠ "" := by
  obtain ⟨front, rfl⟩ := h
  intro hempty
  exact absurd (String.append_eq_empty_iff.mp hempty).2 (by decide)

theorem outbound (o : Options) (expr : String) : EndsInCall (o.outbound expr ++ ";") := close _

theorem inbound (o : Options) (expr : String) : EndsInCall (o.inbound expr ++ ";") := close _

theorem callStatement (o : Options) (returns callee arguments : String) :
    EndsInCall (o.callStatement returns (callee ++ "(" ++ arguments ++ ")")) := by
  unfold Options.callStatement
  split
  · exact close _
  · rw [String.append_assoc]
    exact (outbound o _).append "return "

end EndsInCall

/-! ## Statements of drafts -/

def Forest.Node.isVirtual (n : Node) : Bool :=
  match n.decl with
  | .memberFunction m => m.isVirtual
  | .freeFunction _ | .memberVariable _ | .nameSpace | .classType _ | .other => false

section Drafts

variable {s : Setting} {n : Node}

/-- The statement of a wrapper for a function is a call. -/
theorem endsInCall_of_call {d : CallDraft} (h : s.draft n = .ok (some (.call d))) :
    EndsInCall d.statement := by
  rcases Setting.draft_ok_some h with ⟨f, -, h⟩ | ⟨m, -, hrole, h⟩ | ⟨type, -, h⟩
  · obtain ⟨_, _, -, -, hd⟩ := Setting.draftFunction_ok h
    cases hd
    dsimp only
    exact EndsInCall.callStatement s.options _ _ _
  · obtain ⟨_, _, _, -, -, -, hd⟩ := Setting.draftMethod_ok hrole h
    cases hd
    dsimp only
    exact EndsInCall.callStatement s.options _ _ _
  · obtain ⟨_, _, -, -, _, hd, -⟩ := Setting.draftField_ok h
    cases hd

theorem endsInCall_of_field {d : FieldDraft} (h : s.draft n = .ok (some (.field d))) :
    EndsInCall d.writeStatement := by
  rcases Setting.draft_ok_some h with ⟨f, -, h⟩ | ⟨m, -, hrole, h⟩ | ⟨type, -, h⟩
  · obtain ⟨_, _, -, -, hd⟩ := Setting.draftFunction_ok h
    cases hd
  · obtain ⟨_, _, _, -, -, -, hd⟩ := Setting.draftMethod_ok hrole h
    cases hd
  · obtain ⟨_, _, -, -, f, hf, -, -, -, hbodies⟩ := Setting.draftField_ok h
    cases hf
    -- a field is written by its accessor or directly, and either way the value is converted
    by_cases haccess : n.access = .subclasses
    · rw [if_pos haccess] at hbodies
      rw [(Prod.mk.inj hbodies).2]
      exact ⟨_, rfl⟩
    · rw [if_neg haccess] at hbodies
      rw [(Prod.mk.inj hbodies).2, String.append_assoc]
      exact (EndsInCall.inbound s.options "value").append _

/-- Virtual methods and nothing else can be overridden. -/
theorem overridable_of_plain {d : CallDraft} (h : s.draft n = .ok (some (.call d)))
    (hvirtual : n.isVirtual = false) : d.overridable = none := by
  rcases Setting.draft_ok_some h with ⟨f, -, h⟩ | ⟨m, hdecl, hrole, h⟩ | ⟨type, -, h⟩
  · obtain ⟨_, _, -, -, hd⟩ := Setting.draftFunction_ok h
    cases hd
    rfl
  · obtain ⟨_, _, _, -, -, -, hd⟩ := Setting.draftMethod_ok hrole h
    rw [Node.isVirtual, hdecl] at hvirtual
    cases hd
    simp only [hvirtual, Bool.false_eq_true, if_false]
  · obtain ⟨_, _, -, -, _, hd, -⟩ := Setting.draftField_ok h
    cases hd

end Drafts

/-! ## Statements of turns -/

namespace Turn

section Virtual

variable {s : Setting} {t : Turn}

theorem draft_of_job (h : s.job t.node = .ok (some t.job)) :
    s.draft t.node = .ok (some t.job.draft) :=
  (Setting.job_eq_ok_some.mp h).2.2.1

/-- An overridable function has a wrapper and a setter for its override. -/
theorem wrappers_of_overridable {d : CallDraft} {className method : String} (o : Options)
    (hd : t.job.draft = .call d) (hover : d.overridable = some (className, method)) :
    ∃ setter, t.wrappers o =
      [d.wrapper (t.note o), CallDraft.overrideSetter o className method (t.note o) setter] := by
  unfold wrappers note
  rw [hd, Draft.settle, CallDraft.settle, hover]
  exact ⟨_, rfl⟩

/-- A virtual method has its setter behind the wrapper that forwards to it, and both take an
instance of the same class. -/
theorem wrappers_of_virtual (h : s.job t.node = .ok (some t.job))
    (hvirtual : t.node.isVirtual = true) :
    ∃ m c d params setter, t.node.decl = .memberFunction m ∧ s.parentClass? t.node = some c ∧
      t.job.draft = .call d ∧ d.params = .ofInstance (s.options.className c) :: params ∧
      d.statement = s.options.callStatement m.returns
        ("cls->" ++ t.node.name ++ "(" ++ s.options.arguments m.params ++ ")") ∧
      t.wrappers s.options =
        [d.wrapper (t.note s.options),
          CallDraft.overrideSetter s.options (s.options.className c) t.node.name
            (t.note s.options) setter] := by
  have hdraft := draft_of_job h
  rcases Setting.draft_ok_some hdraft with ⟨f, hdecl, -⟩ | ⟨m, hdecl, hrole, hd⟩ | ⟨type, hdecl, -⟩
  · rw [Node.isVirtual, hdecl] at hvirtual
    cases hvirtual
  · rw [Node.isVirtual, hdecl] at hvirtual
    obtain ⟨c, _, params, hc, -, -, hd⟩ := Setting.draftMethod_ok hrole hd
    have hd := Option.some.inj hd
    simp only [hvirtual, if_true] at hd
    obtain ⟨setter, hwrappers⟩ := wrappers_of_overridable s.options hd rfl
    refine ⟨m, c, _, params, setter, hdecl, hc, hd, ?_, ?_, hwrappers⟩
    · dsimp only
    · dsimp only
  · rw [Node.isVirtual, hdecl] at hvirtual
    cases hvirtual

/-- Wrappers of what is not virtual have one statement, which is a call. -/
theorem endsInCall_of_plain (h : s.job t.node = .ok (some t.job))
    (hvirtual : t.node.isVirtual = false) :
    ∀ w ∈ t.wrappers s.options, ∃ text, w.body = [text] ∧ EndsInCall text := by
  have hdraft := draft_of_job h
  unfold wrappers
  cases hd : t.job.draft with
  | call d =>
    rw [hd] at hdraft
    have hwrappers : ((Draft.call d).settle s.options t.names).2.1 =
        [d.wrapper ((Draft.call d).settle s.options t.names).1] := by
      rw [Draft.settle, CallDraft.settle, overridable_of_plain hdraft hvirtual]
    intro w hw
    rw [hwrappers, List.mem_singleton] at hw
    rw [hw]
    exact ⟨d.statement, rfl, endsInCall_of_call hdraft⟩
  | field d =>
    rw [hd] at hdraft
    intro w hw
    rcases List.mem_cons.mp hw with rfl | hw
    · refine ⟨_, rfl, ?_⟩
      rw [String.append_assoc]
      exact (EndsInCall.outbound s.options d.readExpr).append "return "
    · rw [List.mem_singleton.mp hw]
      exact ⟨d.writeStatement, rfl, endsInCall_of_field hdraft⟩

theorem overrideStatement_ne_empty (o : Options) (method symbol : String) :
    CallDraft.overrideStatement o method symbol ≠ "" := by
  unfold CallDraft.overrideStatement
  cases o.overrideStyle with
  | table =>
    intro hempty
    exact absurd (String.append_eq_empty_iff.mp hempty).2 (by decide)
  | slot =>
    intro hempty
    exact absurd (String.append_eq_empty_iff.mp hempty).2 (by decide)

/-- No statement of a wrapper is empty. -/
theorem body_ne_empty (h : s.job t.node = .ok (some t.job)) :
    ∀ w ∈ t.wrappers s.options, ∀ text ∈ w.body, text ≠ "" := by
  intro w hw text htext
  cases hvirtual : t.node.isVirtual with
  | false =>
    obtain ⟨only, hbody, hcall⟩ := endsInCall_of_plain h hvirtual w hw
    rw [hbody, List.mem_singleton] at htext
    rw [htext]
    exact hcall.ne_empty
  | true =>
    obtain ⟨m, c, d, params, setter, -, -, hd, -, -, hwrappers⟩ := wrappers_of_virtual h hvirtual
    have hdraft := draft_of_job h
    rw [hd] at hdraft
    rw [hwrappers] at hw
    rcases List.mem_cons.mp hw with rfl | hw
    · rw [List.mem_singleton.mp htext]
      exact (endsInCall_of_call hdraft).ne_empty
    · rw [List.mem_singleton.mp hw] at htext
      rw [List.mem_singleton.mp htext]
      exact overrideStatement_ne_empty _ _ _

end Virtual

end Turn

end FlatApi
