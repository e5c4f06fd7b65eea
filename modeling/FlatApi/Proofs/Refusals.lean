import FlatApi.Proofs.Jobs

/-!
# Visits that are refused

* Records are the only thing that a refused visit changes (`unrecorded_refuse`): those that were
  there stay, and a new one is that of an untouched node (`get?_refuse_of_some`,
  `get?_refuse_of_none`).
* No visit reads the records, so passes that differ in nothing else answer alike and go on to
  differ in nothing else (`step_unrecorded`).
* Hence a run without its refused visits ends with the same text and the same exports
  (`refused_visits_invisible`).
* Records say of a class what the class declares, whatever was visited (`flagged_reach`).
-/

namespace FlatApi

open Forest (Node Event)

namespace Pass

variable {p q : Pass} {n : Node}

/-! ## All but the records -/

/-- A pass without its records. -/
def unrecorded (p : Pass) : Pass := { p with ledger := { p.ledger with records := {} } }

section Unrecorded

/-- But for records, a refusal changes nothing. -/
theorem unrecorded_refuse (p : Pass) (n : Node) : (p.refuse n).unrecorded = p.unrecorded := by
  unfold refuse unrecorded
  simp only [touchClass_names]
  rfl

theorem unrecorded_fill (job : Option Job) :
    (p.fill n job).unrecorded = (p.unrecorded.fill n job).unrecorded := by
  cases job <;> rfl

/-- A step answers the same without the records, and does the same up to them. -/
theorem step_eq_unrecorded (p : Pass) (t : Step) :
    (p.step t).1 = (p.unrecorded.step t).1 ∧
      (p.step t).2.unrecorded = (p.unrecorded.step t).2.unrecorded := by
  cases t with
  | start => exact ⟨rfl, rfl⟩
  | visit n e =>
    by_cases he : e = .leave
    · subst he
      exact ⟨rfl, rfl⟩
    · have hsetting : p.unrecorded.setting = p.setting := rfl
      rw [step, step, visit_eq_fill he, visit_eq_fill he, hsetting]
      cases p.setting.job n with
      | error r =>
        refine ⟨rfl, ?_⟩
        rw [unrecorded_refuse, unrecorded_refuse]
        rfl
      | ok job => exact ⟨rfl, unrecorded_fill job⟩

/-- Passes that differ in records only answer a step alike and go on so. -/
theorem step_unrecorded (h : p.unrecorded = q.unrecorded) (t : Step) :
    (p.step t).1 = (q.step t).1 ∧ (p.step t).2.unrecorded = (q.step t).2.unrecorded := by
  rw [(step_eq_unrecorded p t).1, (step_eq_unrecorded p t).2, (step_eq_unrecorded q t).1,
    (step_eq_unrecorded q t).2, h]
  exact ⟨rfl, rfl⟩

/-- A visit that fails is one that was refused. -/
theorem visit_of_error_answer {e : Event} {r : Refusal} (h : (p.visit n e).1 = .error r) :
    (p.visit n e).2 = p.refuse n := by
  by_cases he : e = .leave
  · subst he
    cases h
  · rw [visit_eq_fill he] at h ⊢
    cases hjob : p.setting.job n with
    | error r' => rfl
    | ok job =>
      rw [hjob] at h
      cases h

end Unrecorded

/-! ## Runs without what was refused -/

section Runs

/-- What a row of steps is answered. -/
def answers (p : Pass) : List Step → List (Except Refusal Unit)
  | [] => []
  | t :: ts => (p.step t).1 :: (p.step t).2.answers ts

/-- The steps of a row that do not fail. -/
def successful (p : Pass) : List Step → List Step
  | [] => []
  | t :: ts =>
    if (p.step t).1.isOk then t :: (p.step t).2.successful ts else (p.step t).2.successful ts

/-- A failed step changes records only. -/
theorem unrecorded_of_failed {t : Step} (h : (p.step t).1.isOk = false) :
    (p.step t).2.unrecorded = p.unrecorded := by
  cases t with
  | start => cases h
  | visit n e =>
    rw [step] at h ⊢
    cases hanswer : (p.visit n e).1 with
    | ok _ =>
      rw [hanswer] at h
      cases h
    | error r => rw [visit_of_error_answer hanswer, unrecorded_refuse]

/-- From passes that differ in records only, a row of steps and its successful steps lead to
passes that differ in records only. -/
theorem run_successful (ts : List Step) :
    ∀ p q : Pass, p.unrecorded = q.unrecorded →
      q.answers (p.successful ts) = (p.answers ts).filter (·.isOk) ∧
        (q.reach (p.successful ts)).unrecorded = (p.reach ts).unrecorded := by
  induction ts with
  | nil => exact fun p q h => ⟨rfl, h.symm⟩
  | cons t ts ih =>
    intro p q h
    rw [successful, answers]
    -- a failed step is left out for `q`, so only `p` goes on
    cases hok : (p.step t).1.isOk with
    | false =>
      have hsame : (p.step t).2.unrecorded = q.unrecorded := (unrecorded_of_failed hok).trans h
      rw [if_neg Bool.false_ne_true, List.filter_cons_of_neg (by simp [hok])]
      exact ih (p.step t).2 q hsame
    | true =>
      obtain ⟨hanswer, hnext⟩ := step_unrecorded h t
      obtain ⟨hanswers, hreach⟩ := ih (p.step t).2 (q.step t).2 hnext
      rw [if_pos rfl, List.filter_cons_of_pos hok, answers, hanswers, ← hanswer]
      exact ⟨rfl, hreach⟩

end Runs

/-! ## The records -/

section Records

/-- A refusal looks at the node, and at the class around it if that is looked up. -/
theorem records_refuse (p : Pass) (n : Node) :
    (p.refuse n).ledger.records = p.ledger.records.touch n ∨
      ∃ c, p.setting.parentClass? n = some c ∧
        (p.refuse n).ledger.records = (p.ledger.records.touch n).touch c := by
  rw [refuse, Ledger.touchClass]
  cases hc : p.setting.classLookedUp? n with
  | none => exact Or.inl rfl
  | some c => exact Or.inr ⟨c, Setting.parentClass?_of_classLookedUp? hc, rfl⟩

/-- Records that are there survive a refusal. -/
theorem get?_refuse_of_some {id : Nat} {x : Record}
    (hx : p.ledger.records.get? id = some x) : (p.refuse n).ledger.records.get? id = some x := by
  have htouch := Records.get?_touch_of_some (n := n) hx
  rcases records_refuse p n with hr | ⟨c, -, hr⟩
  · rwa [hr]
  · rw [hr]
    exact Records.get?_touch_of_some htouch

/-- A record that a refused visit adds is that of the node or of the class around it. -/
theorem get?_refuse_of_none {id : Nat} {x : Record}
    (hnone : p.ledger.records.get? id = none)
    (hx : (p.refuse n).ledger.records.get? id = some x) :
    ∃ c, (c = n ∨ p.setting.parentClass? n = some c) ∧ id = c.id ∧ x = .ofNode c := by
  rcases records_refuse p n with hr | ⟨c, hc, hr⟩
  · rw [hr] at hx
    exact ⟨n, Or.inl rfl, Records.get?_touch_of_none hnone hx⟩
  · rw [hr] at hx
    cases htouch : (p.ledger.records.touch n).get? id with
    | none => exact ⟨c, Or.inr hc, Records.get?_touch_of_none htouch hx⟩
    | some y =>
      rw [Records.get?_touch_of_some htouch] at hx
      cases hx
      exact ⟨n, Or.inl rfl, Records.get?_touch_of_none hnone htouch⟩

theorem reach_setting (p : Pass) (steps : List Step) : (p.reach steps).setting = p.setting := by
  refine @reach_invariant (fun q => q.setting = p.setting) (fun _ h => h) (fun q n e h => ?_)
    steps p rfl
  have hv := visited q n e
  generalize q.visit n e = result at hv
  cases hv <;> exact h

end Records

/-! ## The flags of records -/

section Flags

variable {f : Forest}

/-- Each record belongs to a node and says of it what its declaration says. -/
def Flagged (f : Forest) (r : Records) : Prop :=
  ∀ id x, r.get? id = some x → ∃ c, f.node? id = some c ∧ x.hasWrapper = c.decl.hasWrapper

theorem flagged_empty (f : Forest) : Flagged f {} := nofun

theorem Flagged.touch {r : Records} (h : Flagged f r) (hn : f.node? n.id = some n) :
    Flagged f (r.touch n) := by
  intro id x hx
  cases hold : r.get? id with
  | some y =>
    rw [Records.get?_touch_of_some hold] at hx
    cases hx
    exact h id _ hold
  | none =>
    obtain ⟨rfl, rfl⟩ := Records.get?_touch_of_none hold hx
    exact ⟨n, hn, rfl⟩

theorem Flagged.setName {r : Records} (h : Flagged f r) (hn : f.node? n.id = some n)
    (name : String) : Flagged f (r.setName n name) := by
  intro id x hx
  rw [Records.get?_setName] at hx
  by_cases hid : id = n.id
  · rw [if_pos hid] at hx
    cases hx
    subst hid
    cases hold : r.get? n.id with
    | some y =>
      have hflag := h n.id y hold
      exact hflag
    | none => exact ⟨n, hn, rfl⟩
  · rw [if_neg hid] at hx
    exact h id x hx

/-- The records that a refusal adds have the flags of their nodes. -/
theorem Flagged.refuse (hf : p.setting.forest.Numbered)
    (h : Flagged p.setting.forest p.ledger.records)
    (hn : p.setting.forest.node? n.id = some n) :
    Flagged p.setting.forest (p.refuse n).ledger.records := by
  rcases records_refuse p n with hr | ⟨c, hc, hr⟩
  · rw [hr]
    exact h.touch hn
  · have hparent := (Option.filter_eq_some_iff.mp hc).1
    obtain ⟨i, -, hi⟩ := Option.bind_eq_some_iff.mp hparent
    rw [hr]
    exact (h.touch hn).touch (by rwa [hf.id_eq hi])

/-- The node of a step is one of the forest. -/
def Step.Within (f : Forest) : Step → Prop
  | .start => True
  | .visit n _ => f.node? n.id = some n

/-- The flags are right after any steps. -/
theorem flagged_reach (steps : List Step) :
    ∀ p : Pass, p.setting.forest.Numbered → (∀ t ∈ steps, t.Within p.setting.forest) →
      Flagged p.setting.forest p.ledger.records →
      Flagged p.setting.forest (p.reach steps).ledger.records := by
  induction steps with
  | nil => exact fun _ _ _ h => h
  | cons t steps ih =>
    intro p hf hwithin h
    have hsetting : (p.step t).2.setting = p.setting := reach_setting p [t]
    have hstep : Flagged p.setting.forest (p.step t).2.ledger.records := by
      cases t with
      | start => exact h
      | visit n e =>
        have hn : p.setting.forest.node? n.id = some n := hwithin _ List.mem_cons_self
        have hv := visited p n e
        show Flagged _ (p.visit n e).2.ledger.records
        generalize p.visit n e = result at hv
        cases hv with
        | left => exact h
        | skipped _ _ => exact h.touch hn
        | refused _ _ _ => exact h.refuse hf hn
        | accepted _ _ _ _ => exact (h.refuse hf hn).setName hn _
    have hrest := ih (p.step t).2
    rw [hsetting] at hrest
    exact hrest hf (fun u hu => hwithin u (List.mem_cons_of_mem _ hu)) hstep

end Flags

end Pass

/-- **Refused visits** change no names, lines, exports or records that are there.  A run that
leaves them out answers its steps as before and ends with the same text and exports. -/
theorem refused_visits_invisible (s : Setting) (steps : List Pass.Step) :
    let new := Pass.ofSetting s
    let p := new.reach steps
    (∀ n e r, (p.visit n e).1 = .error r →
      let q := (p.visit n e).2
      q.ledger.names = p.ledger.names ∧ q.listing = p.listing ∧ q.exports = p.exports ∧
      (∀ id x, p.ledger.records.get? id = some x → q.ledger.records.get? id = some x) ∧
      ∀ id x, p.ledger.records.get? id = none → q.ledger.records.get? id = some x →
        ∃ c, (c = n ∨ s.parentClass? n = some c) ∧ id = c.id ∧
          x = { functionName := none, hasWrapper := c.decl.hasWrapper }) ∧
    let rest := new.successful steps
    new.answers rest = (new.answers steps).filter (·.isOk) ∧
      (new.reach rest).stop.source = p.stop.source ∧
      (new.reach rest).stop.exports = p.stop.exports := by
  intro new p
  constructor
  · intro n e r h q
    have hq : q = p.refuse n := Pass.visit_of_error_answer h
    have hsetting : p.setting = s := Pass.reach_setting new steps
    rw [hq]
    refine ⟨Pass.refuse_names p n, rfl, rfl, fun id x => Pass.get?_refuse_of_some, ?_⟩
    intro id x hnone hx
    rw [← hsetting]
    exact Pass.get?_refuse_of_none hnone hx
  · intro rest
    obtain ⟨hanswers, hreach⟩ := Pass.run_successful steps new new rfl
    have hstop : ∀ r : Pass, r.stop.source = r.unrecorded.stop.source ∧
        r.stop.exports = r.unrecorded.stop.exports := fun _ => ⟨rfl, rfl⟩
    refine ⟨hanswers, ?_, ?_⟩
    · rw [(hstop (new.reach rest)).1, hreach]
      rfl
    · rw [(hstop (new.reach rest)).2, hreach]
      rfl

/-- A class whose method cannot be wrapped while its field can. -/
def Entity.canvas : List Entity :=
  [{ name := "Shape", decl := .classType true, children :=
      [{ name := "Draw", decl := .memberFunction { returns := "View" } },
        { name := "radius", decl := .memberVariable "float" }] }]

theorem refused_visits_of_canvas :
    let s := Setting.ofEntities Entity.canvas (fun t => if t = "float" then some t else none) {}
    let new := Pass.ofSetting s
    let draw : Node :=
      { id := 1, name := "Draw", decl := .memberFunction { returns := "View" }, access := .anyone,
        parent := some 0, children := [] }
    let steps := .start :: .visit draw .leaf ::
      (Entity.tourAll none 0 Entity.canvas).map fun ne => .visit ne.1 ne.2
    let q := ((new.reach [.start]).visit draw .leaf).2
    ((new.reach [.start]).visit draw .leaf).1 = .error (.unmappedType "View" "Shape::Draw") ∧
      q.ledger.names = (new.reach [.start]).ledger.names ∧
      q.ledger.records.entries =
        [(0, { hasWrapper := true }), (1, { hasWrapper := false })] ∧
      new.answers (new.successful steps) = (new.answers steps).filter (·.isOk) ∧
      (new.answers steps).length = 6 ∧ (new.successful steps).length = 4 ∧
      (new.reach (new.successful steps)).stop.source = (new.reach steps).stop.source ∧
      (new.reach steps).stop.exports.map (·.symbols) =
        [["get_Shape_radius", "set_Shape_radius"]] := by
  intro s new draw steps q
  have herror : ((new.reach [.start]).visit draw .leaf).1 =
      .error (.unmappedType "View" "Shape::Draw") := by decide +kernel
  obtain ⟨hvisit, -⟩ := refused_visits_invisible s [.start]
  obtain ⟨-, hanswers, hsource, -⟩ := refused_visits_invisible s steps
  exact ⟨herror, (hvisit draw .leaf _ herror).1, by decide +kernel, hanswers, by decide +kernel,
    by decide +kernel, hsource, by decide +kernel⟩

end FlatApi
