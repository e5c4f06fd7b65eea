import FlatApi.Entity.Read
import FlatApi.Proofs.Actions
import Mathlib.Data.List.Perm.Basic

/-!
# What fields declare

Fields are looked at in their order, but the order does not matter.

* `Fills`: the values with some key are read into one slot.
* `Parameter.ofContent_mapping`, `Declaration.ofKind_eq_ok`: what a parameter and a declaration are,
  slot by slot.
* `Declaration.ofFields_perm`, `Declaration.ofFields_append`, `Declaration.ofFields_params`: the
  order of the fields, foreign ones and other spellings of a parameter change nothing.
-/

namespace FlatApi

open Yaml (Content)
open Yaml.Content (Identifier Typed)

/-! ## Slots -/

theorem slot_nil {α : Type} {old o : Option α} : old.toList ++ [] = o.toList ↔ old = o := by
  cases old <;> cases o <;> simp

theorem slot_cons {α : Type} {old o : Option α} {v : α} {vs : List α} :
    old.toList ++ v :: vs = o.toList ↔ old = none ∧ (some v).toList ++ vs = o.toList := by
  cases old <;> cases o <;> simp

theorem length_slot {α : Type} (o : Option α) : o.toList.length ≤ 1 := by
  cases o <;> simp

theorem eq_of_perm_of_length_le_one {α : Type} {l l' : List α} (hperm : l.Perm l')
    (hlength : l.length ≤ 1) : l = l' := by
  match l with
  | [] => exact hperm.nil_eq
  | [_] => exact List.singleton_perm.mp hperm
  | _ :: _ :: _ => simp at hlength

/-- Values that fit into a slot have one order. -/
theorem eq_of_perm_slot {α : Type} {o : Option α} {vs vs' : List α} (h : vs = o.toList)
    (hperm : vs.Perm vs') : vs' = o.toList := by
  rw [h] at hperm
  exact (eq_of_perm_of_length_le_one hperm (length_slot o)).symm

section Slots

variable {κ α : Type} {sel : κ → Bool} {read : Content → Typed α}
  {items items' : List (κ × Content)} {old o : Option α}

/-- The values whose key is selected. -/
def valuesOf (sel : κ → Bool) (items : List (κ × Content)) : List Content :=
  (items.filter fun item => sel item.1).map (·.2)

/-- The values whose key is selected are read into a slot, which holds one value at most. -/
def Fills (sel : κ → Bool) (read : Content → Typed α) (items : List (κ × Content))
    (old o : Option α) : Prop :=
  ∃ vs, (valuesOf sel items).mapM read = .ok vs ∧ old.toList ++ vs = o.toList

theorem fills_nil : Fills sel read [] old o ↔ old = o := by
  cases old <;> cases o <;> simp [Fills, valuesOf, pure, Except.pure]

theorem fills_cons_of_not {key : κ} {value : Content} (h : sel key = false) :
    Fills sel read ((key, value) :: items) old o ↔ Fills sel read items old o := by
  simp [Fills, valuesOf, h]

theorem fills_cons_of {key : κ} {value : Content} (h : sel key = true) :
    Fills sel read ((key, value) :: items) old o ↔
      old = none ∧ ∃ v, read value = .ok v ∧ Fills sel read items (some v) o := by
  have hvalues : valuesOf sel ((key, value) :: items) = value :: valuesOf sel items := by
    simp [valuesOf, h]
  unfold Fills
  rw [hvalues, List.mapM_cons]
  constructor
  · rintro ⟨vs, hvs, ho⟩
    obtain ⟨v, hv, hvs⟩ := bind_eq_ok.mp hvs
    obtain ⟨vs', hvs', hvs⟩ := bind_eq_ok.mp hvs
    cases hvs
    obtain ⟨rfl, ho⟩ := slot_cons.mp ho
    exact ⟨rfl, v, hv, vs', hvs', ho⟩
  · rintro ⟨rfl, v, hv, vs, hvs, ho⟩
    exact ⟨v :: vs, bind_eq_ok.mpr ⟨v, hv, bind_eq_ok.mpr ⟨vs, hvs, rfl⟩⟩, slot_cons.mpr ⟨rfl, ho⟩⟩

theorem fills_none_iff :
    Fills sel read items none o ↔ (valuesOf sel items).mapM read = .ok o.toList := by
  simp [Fills]

/-- A slot is filled by the one item for it. -/
theorem fills_some_iff {v : α} :
    Fills sel read items none (some v) ↔
      ∃ value, valuesOf sel items = [value] ∧ read value = .ok v := by
  rw [fills_none_iff, mapM_eq_ok]
  constructor
  · intro h
    obtain ⟨value, _, hread, hnil, hvalues⟩ := List.forall₂_cons_right_iff.mp h
    cases List.forall₂_nil_right_iff.mp hnil
    exact ⟨value, hvalues, hread⟩
  · rintro ⟨value, hvalues, hread⟩
    rw [hvalues]
    exact .cons hread .nil

/-- A slot holds one value at most, so that the order does not matter. -/
theorem Fills.perm (h : Fills sel read items none o) (hperm : items.Perm items') :
    Fills sel read items' none o := by
  rw [fills_none_iff] at h ⊢
  have hvalues : (valuesOf sel items).Perm (valuesOf sel items') := (hperm.filter _).map _
  have hlength : (valuesOf sel items).length ≤ 1 := by
    rw [(mapM_eq_ok.mp h).length_eq]
    exact length_slot o
  rw [← eq_of_perm_of_length_le_one hvalues hlength]
  exact h

/-- Values whose key is not selected do not matter. -/
theorem Fills.append (h : Fills sel read items none o) {extra : List (κ × Content)}
    (hextra : ∀ item ∈ extra, sel item.1 = false) : Fills sel read (items ++ extra) none o := by
  have hnone : extra.filter (fun item => sel item.1) = [] := by
    rw [List.filter_eq_nil_iff]
    intro item hitem
    simp [hextra item hitem]
  rw [fills_none_iff] at h ⊢
  unfold valuesOf at h ⊢
  rw [List.filter_append, hnone, List.append_nil]
  exact h

/-- A value may be replaced by one that reads the same. -/
theorem Fills.replace {front back : List (κ × Content)} {key : κ} {c c' : Content}
    (h : Fills sel read (front ++ (key, c) :: back) old o)
    (hc : sel key = true → ∀ v, read c = .ok v → read c' = .ok v) :
    Fills sel read (front ++ (key, c') :: back) old o := by
  induction front generalizing old with
  | nil =>
    rw [List.nil_append] at h ⊢
    cases hkey : sel key with
    | false =>
      rw [fills_cons_of_not hkey] at h ⊢
      exact h
    | true =>
      rw [fills_cons_of hkey] at h ⊢
      obtain ⟨hold, v, hv, h⟩ := h
      exact ⟨hold, v, hc hkey v hv, h⟩
  | cons item front ih =>
    obtain ⟨key', value⟩ := item
    rw [List.cons_append] at h ⊢
    cases hkey' : sel key' with
    | false =>
      rw [fills_cons_of_not hkey'] at h ⊢
      exact ih h
    | true =>
      rw [fills_cons_of hkey'] at h ⊢
      obtain ⟨hold, v, hv, h⟩ := h
      exact ⟨hold, v, hv, ih h⟩

theorem once_eq_ok {name : String} {new : Typed α} :
    Content.once name old new = .ok o ↔ old = none ∧ ∃ v, new = .ok v ∧ some v = o := by
  cases old with
  | none =>
    rw [show Content.once name none new = some <$> new from rfl, map_eq_ok]
    exact (and_iff_right rfl).symm
  | some v => exact ⟨nofun, nofun⟩

theorem required_eq_ok {name : String} {v : α} : Content.required name o = .ok v ↔ o = some v := by
  cases o with
  | none => exact ⟨nofun, nofun⟩
  | some w =>
    exact ⟨fun h => congrArg some (Except.ok.inj h), fun h => congrArg _ (Option.some.inj h)⟩

/-- A slot that is still empty is filled with what is read. -/
theorem exists_once {σ : Type} {name : String} {value : Content} {put : Option α → σ}
    {P : σ → Prop} :
    (∃ s, (do return put (← Content.once name old (read value)) : Typed σ) = .ok s ∧ P s) ↔
      old = none ∧ ∃ v, read value = .ok v ∧ P (put (some v)) := by
  constructor
  · rintro ⟨s, hs, hP⟩
    obtain ⟨o, ho, hs⟩ := bind_eq_ok.mp hs
    cases hs
    obtain ⟨hold, v, hv, rfl⟩ := once_eq_ok.mp ho
    exact ⟨hold, v, hv, hP⟩
  · rintro ⟨hold, v, hv, hP⟩
    exact ⟨_, bind_eq_ok.mpr ⟨some v, once_eq_ok.mpr ⟨hold, v, hv, rfl⟩, rfl⟩, hP⟩

end Slots

/-! ## Parameters -/

namespace Parameter

/-- The keys of the name of a parameter. -/
def isName : Identifier → Bool
  | .name s => s == "name"
  | .number n => n == 0

/-- The keys of the type of a parameter. -/
def isType : Identifier → Bool
  | .name s => s == "type"
  | .number n => n == 1

theorem isType_eq_false {i : Identifier} (h : isName i = true) : isType i = false := by
  cases i <;> simp_all [isName, isType]

/-- The identifier and the value of an entry. -/
def identify (entry : Content × Content) : Typed (Identifier × Content) := do
  return (← entry.1.identifier "field identifier", entry.2)

/-- Puts the value of a field where its identifier says. -/
def put (p : Partial) (item : Identifier × Content) : Typed Partial :=
  if isName item.1 then do return { p with name := ← Content.once "name" p.name item.2.text }
  else if isType item.1 then do return { p with type := ← Content.once "type" p.type item.2.text }
  else return p

theorem field_eq (p : Partial) (entry : Content × Content) :
    field p entry.1 entry.2 = identify entry >>= put p := by
  unfold identify
  rw [bind_assoc]
  rfl

/-- An item fills the slot that is for its key. -/
theorem put_fills {p p' : Partial} {item : Identifier × Content}
    {items : List (Identifier × Content)} :
    (∃ q, put p item = .ok q ∧ Fills isName Content.text items q.name p'.name ∧
      Fills isType Content.text items q.type p'.type) ↔
      Fills isName Content.text (item :: items) p.name p'.name ∧
        Fills isType Content.text (item :: items) p.type p'.type := by
  obtain ⟨i, value⟩ := item
  unfold put
  cases hname : isName i with
  | true =>
    simp only [if_true, exists_once, fills_cons_of hname, fills_cons_of_not (isType_eq_false hname)]
    constructor
    · rintro ⟨hold, v, hv, h, h'⟩
      exact ⟨⟨hold, v, hv, h⟩, h'⟩
    · rintro ⟨⟨hold, v, hv, h⟩, h'⟩
      exact ⟨hold, v, hv, h, h'⟩
  | false =>
    simp only [Bool.false_eq_true, if_false, fills_cons_of_not hname]
    cases htype : isType i with
    | true =>
      simp only [if_true, exists_once, fills_cons_of htype]
      constructor
      · rintro ⟨hold, v, hv, h, h'⟩
        exact ⟨h, hold, v, hv, h'⟩
      · rintro ⟨h, hold, v, hv, h'⟩
        exact ⟨hold, v, hv, h, h'⟩
    | false => simp [pure, Except.pure, fills_cons_of_not htype]

/-- The entries are identified, and then each slot is filled. -/
theorem foldlM_field {entries : List (Content × Content)} {p p' : Partial} :
    entries.foldlM (fun p entry => field p entry.1 entry.2) p = .ok p' ↔
      ∃ items, entries.mapM identify = .ok items ∧ Fills isName Content.text items p.name p'.name ∧
        Fills isType Content.text items p.type p'.type := by
  induction entries generalizing p with
  | nil =>
    obtain ⟨name, type⟩ := p
    obtain ⟨name', type'⟩ := p'
    simp [pure, Except.pure, fills_nil]
  | cons entry entries ih =>
    rw [List.foldlM_cons, bind_eq_ok, List.mapM_cons]
    simp only [ih]
    simp only [field_eq]
    constructor
    · rintro ⟨q, hq, items, hitems, h⟩
      obtain ⟨item, hitem, hq⟩ := bind_eq_ok.mp hq
      exact ⟨item :: items, bind_eq_ok.mpr ⟨item, hitem, bind_eq_ok.mpr ⟨items, hitems, rfl⟩⟩,
        put_fills.mp ⟨q, hq, h⟩⟩
    · rintro ⟨items', hitems', h⟩
      obtain ⟨item, hitem, hitems'⟩ := bind_eq_ok.mp hitems'
      obtain ⟨items, hitems, hcons⟩ := bind_eq_ok.mp hitems'
      cases hcons
      obtain ⟨q, hq, h⟩ := put_fills.mpr h
      exact ⟨q, bind_eq_ok.mpr ⟨item, hitem, hq⟩, items, hitems, h⟩

/-- A parameter is known by the values of its name, which may be missing, and of its type. -/
theorem ofContent_mapping {entries : List (Content × Content)} {p : Parameter} :
    ofContent (.mapping entries) = .ok p ↔
      ∃ items, entries.mapM identify = .ok items ∧
        (∃ o, Fills isName Content.text items none o ∧ o.getD "" = p.name) ∧
        Fills isType Content.text items none (some p.type) := by
  have hof : ofContent (.mapping entries) =
      entries.foldlM (fun p entry => field p entry.1 entry.2) {} >>= fun q => do
        return { name := q.name.getD "", type := ← Content.required "type" q.type } := rfl
  rw [hof, bind_eq_ok]
  constructor
  · rintro ⟨q, hq, h⟩
    obtain ⟨type, htype, h⟩ := bind_eq_ok.mp h
    cases h
    obtain ⟨items, hitems, hname, htypes⟩ := foldlM_field.mp hq
    rw [required_eq_ok.mp htype] at htypes
    exact ⟨items, hitems, ⟨q.name, hname, rfl⟩, htypes⟩
  · rintro ⟨items, hitems, ⟨o, hnames, ho⟩, htype⟩
    refine ⟨⟨o, some p.type⟩, foldlM_field.mpr ⟨items, hitems, hnames, htype⟩, ?_⟩
    exact congrArg (fun name => (Except.ok ⟨name, p.type⟩ : Typed Parameter)) ho

variable {entries entries' : List (Content × Content)} {p : Parameter}

/-- The order of the entries of a parameter does not matter. -/
theorem ofContent_perm (h : ofContent (.mapping entries) = .ok p) (hperm : entries.Perm entries') :
    ofContent (.mapping entries') = .ok p := by
  obtain ⟨items, hitems, ⟨o, hname, ho⟩, htype⟩ := ofContent_mapping.mp h
  obtain ⟨items', hitems', hperm'⟩ := List.perm_comp_forall₂ hperm.symm (mapM_eq_ok.mp hitems)
  exact ofContent_mapping.mpr ⟨items', mapM_eq_ok.mpr hitems', ⟨o, hname.perm hperm'.symm, ho⟩,
    htype.perm hperm'.symm⟩

/-- Other texts are identifiers as well, but of no slot. -/
theorem exists_identified {extra : List (Content × Content)}
    (hextra : ∀ entry ∈ extra, ∃ s, entry.1 = .scalar (.string s) ∧ s ≠ "name" ∧ s ≠ "type") :
    ∃ items, extra.mapM identify = .ok items ∧
      ∀ item ∈ items, isName item.1 = false ∧ isType item.1 = false := by
  induction extra with
  | nil => exact ⟨[], rfl, nofun⟩
  | cons entry extra ih =>
    obtain ⟨items, hitems, hnone⟩ := ih fun e he => hextra e (List.mem_cons_of_mem _ he)
    obtain ⟨s, hs, hname, htype⟩ := hextra entry List.mem_cons_self
    refine ⟨(.name s, entry.2) :: items, ?_, ?_⟩
    · rw [List.mapM_cons, hitems, identify, hs]
      rfl
    · intro item hitem
      obtain rfl | hitem := List.mem_cons.mp hitem
      · exact ⟨beq_eq_false_iff_ne.mpr hname, beq_eq_false_iff_ne.mpr htype⟩
      · exact hnone item hitem

/-- Other entries of a parameter do not matter. -/
theorem ofContent_append (h : ofContent (.mapping entries) = .ok p)
    {extra : List (Content × Content)}
    (hextra : ∀ entry ∈ extra, ∃ s, entry.1 = .scalar (.string s) ∧ s ≠ "name" ∧ s ≠ "type") :
    ofContent (.mapping (entries ++ extra)) = .ok p := by
  obtain ⟨items, hitems, ⟨o, hname, ho⟩, htype⟩ := ofContent_mapping.mp h
  obtain ⟨others, hothers, hnone⟩ := exists_identified hextra
  refine ofContent_mapping.mpr ⟨items ++ others, ?_, ⟨o, ?_, ho⟩, ?_⟩
  · exact mapM_eq_ok.mpr (List.rel_append (mapM_eq_ok.mp hitems) (mapM_eq_ok.mp hothers))
  · exact hname.append fun item hitem => (hnone item hitem).1
  · exact htype.append fun item hitem => (hnone item hitem).2

end Parameter

/-! ## Declarations -/

namespace Fields

/-- A relation that follows the fields one by one tells what is collected from them. -/
theorem collect_eq_ok {σ : Type} {step : σ → String → Content → Typed σ}
    {T : Fields → σ → σ → Prop} (hnil : ∀ s s', T [] s s' ↔ s = s')
    (hcons : ∀ name value fields s s', T ((name, value) :: fields) s s' ↔
      ∃ q, step s name value = .ok q ∧ T fields q s') {fields : Fields} {s s' : σ} :
    fields.collect s step = .ok s' ↔ T fields s s' := by
  induction fields generalizing s with
  | nil =>
    rw [hnil]
    exact ⟨fun h => Except.ok.inj h, fun h => congrArg Except.ok h⟩
  | cons field fields ih =>
    obtain ⟨name, value⟩ := field
    rw [hcons, show collect ((name, value) :: fields) s step =
      step s name value >>= fun q => collect fields q step from rfl, bind_eq_ok]
    simp only [ih]

/-- The keys of a field. -/
def isNamed (name key : String) : Bool := key == name

theorem isNamed_self (name : String) : isNamed name name = true := beq_self_eq_true name

theorem isNamed_of_ne {name key : String} (h : key ≠ name) : isNamed name key = false :=
  beq_eq_false_iff_ne.mpr h

/-- One field is collected. -/
theorem collect_one {α : Type} {name : String} {read : Content → Typed α}
    {f : Option α → String → Content → Typed (Option α)}
    (hself : ∀ old value, f old name value = Content.once name old (read value))
    (hother : ∀ old key value, key ≠ name → f old key value = .ok old) {fields : Fields}
    {old o : Option α} :
    fields.collect old f = .ok o ↔ Fills (isNamed name) read fields old o := by
  refine collect_eq_ok (T := Fills (isNamed name) read) (fun _ _ => fills_nil) ?_
  intro key value fields old o
  by_cases hkey : key = name
  · rw [hkey, fills_cons_of (isNamed_self name)]
    simp only [hself, once_eq_ok]
    constructor
    · rintro ⟨hold, v, hv, h⟩
      exact ⟨some v, ⟨hold, v, hv, rfl⟩, h⟩
    · rintro ⟨q, ⟨hold, v, hv, rfl⟩, h⟩
      exact ⟨hold, v, hv, h⟩
  · rw [fills_cons_of_not (isNamed_of_ne hkey), hother old key value hkey]
    simp

end Fields

namespace Kind

/-- The kind that a value names. -/
def ofContent (value : Content) : Typed Kind :=
  ofIdentifier <$> value.identifier "variant identifier"

theorem ofFields_eq_ok {fields : Fields} {kind : Kind} :
    ofFields fields = .ok kind ↔
      Fills (Fields.isNamed "kind") ofContent fields none (some kind) := by
  unfold ofFields
  rw [bind_eq_ok]
  simp only [required_eq_ok]
  have hcollect : ∀ o, fields.collect none (fun old name value =>
      if name == "kind" then Content.once "kind" old (ofContent value) else .ok old) = .ok o ↔
      Fills (Fields.isNamed "kind") ofContent fields none o := fun o =>
    Fields.collect_one (fun _ _ => rfl) fun old key value hkey => if_neg (by simpa using hkey)
  constructor
  · rintro ⟨o, ho, rfl⟩
    exact (hcollect _).mp ho
  · exact fun h => ⟨some kind, (hcollect _).mpr h, rfl⟩

end Kind

namespace Declaration

/-- The slots of any function. -/
def SignatureFills (fields : Fields) (p p' : PartialMethod) : Prop :=
  Fills (Fields.isNamed "returns") Content.text fields p.returns p'.returns ∧
    Fills (Fields.isNamed "params") Fields.ofList fields p.params p'.params

/-- The slots of a method. -/
def MethodFills (fields : Fields) (p p' : PartialMethod) : Prop :=
  SignatureFills fields p p' ∧
    Fills (Fields.isNamed "virtual") Content.bool fields p.isVirtual p'.isVirtual ∧
    Fills (Fields.isNamed "role") MethodRole.ofContent fields p.role p'.role

/-- A field of a signature says nothing about the rest of a method. -/
theorem signatureField_keeps {name : String} {value : Content} {p q : PartialMethod}
    (h : signatureField p name value = .ok q) : q.isVirtual = p.isVirtual ∧ q.role = p.role := by
  unfold signatureField at h
  split at h
  · obtain ⟨o, -, h⟩ := bind_eq_ok.mp h
    cases h
    exact ⟨rfl, rfl⟩
  · obtain ⟨o, -, h⟩ := bind_eq_ok.mp h
    cases h
    exact ⟨rfl, rfl⟩
  · cases h
    exact ⟨rfl, rfl⟩

section Steps

variable {name : String} {value : Content} {fields : Fields} {p p' : PartialMethod}

/-- A field fills the part of a signature that it is named for. -/
theorem signatureField_fills :
    (∃ q, signatureField p name value = .ok q ∧ SignatureFills fields q p') ↔
      SignatureFills ((name, value) :: fields) p p' := by
  unfold signatureField SignatureFills
  split
  · refine exists_once.trans ?_
    rw [fills_cons_of (Fields.isNamed_self "returns"),
      fills_cons_of_not (Fields.isNamed_of_ne (by decide : "returns" ≠ "params"))]
    tauto
  · refine exists_once.trans ?_
    rw [fills_cons_of (Fields.isNamed_self "params"),
      fills_cons_of_not (Fields.isNamed_of_ne (by decide : "params" ≠ "returns"))]
    tauto
  · next hreturns hparams =>
    rw [fills_cons_of_not (Fields.isNamed_of_ne hreturns),
      fills_cons_of_not (Fields.isNamed_of_ne hparams)]
    simp [pure, Except.pure]

/-- A field fills the part of a method that it is named for. -/
theorem methodField_fills :
    (∃ q, methodField p name value = .ok q ∧ MethodFills fields q p') ↔
      MethodFills ((name, value) :: fields) p p' := by
  unfold methodField MethodFills
  split
  · refine exists_once.trans ?_
    simp only [SignatureFills]
    rw [fills_cons_of (Fields.isNamed_self "virtual"),
      fills_cons_of_not (Fields.isNamed_of_ne (by decide : "virtual" ≠ "returns")),
      fills_cons_of_not (Fields.isNamed_of_ne (by decide : "virtual" ≠ "params")),
      fills_cons_of_not (Fields.isNamed_of_ne (by decide : "virtual" ≠ "role"))]
    tauto
  · refine exists_once.trans ?_
    simp only [SignatureFills]
    rw [fills_cons_of (Fields.isNamed_self "role"),
      fills_cons_of_not (Fields.isNamed_of_ne (by decide : "role" ≠ "returns")),
      fills_cons_of_not (Fields.isNamed_of_ne (by decide : "role" ≠ "params")),
      fills_cons_of_not (Fields.isNamed_of_ne (by decide : "role" ≠ "virtual"))]
    tauto
  · next hvirtual hrole =>
    rw [fills_cons_of_not (Fields.isNamed_of_ne hvirtual),
      fills_cons_of_not (Fields.isNamed_of_ne hrole), ← signatureField_fills]
    constructor
    · rintro ⟨q, hq, hsignature, hslots⟩
      -- The other two slots are as they were before the step.
      rw [(signatureField_keeps hq).1, (signatureField_keeps hq).2] at hslots
      exact ⟨⟨q, hq, hsignature⟩, hslots⟩
    · rintro ⟨⟨q, hq, hsignature⟩, hslots⟩
      rw [← (signatureField_keeps hq).1, ← (signatureField_keeps hq).2] at hslots
      exact ⟨q, hq, hsignature, hslots⟩

end Steps

theorem collect_signature {fields : Fields} {p p' : PartialMethod} :
    fields.collect p signatureField = .ok p' ↔
      SignatureFills fields p p' ∧ p.isVirtual = p'.isVirtual ∧ p.role = p'.role := by
  refine Fields.collect_eq_ok (T := fun fields p p' => SignatureFills fields p p' ∧
    p.isVirtual = p'.isVirtual ∧ p.role = p'.role) (fun p p' => ?_) fun name value fields p p' => ?_
  · cases p
    cases p'
    simp [SignatureFills, fills_nil, and_assoc]
  · rw [← signatureField_fills]
    constructor
    · rintro ⟨⟨q, hq, hsignature⟩, hslots⟩
      rw [← (signatureField_keeps hq).1, ← (signatureField_keeps hq).2] at hslots
      exact ⟨q, hq, hsignature, hslots⟩
    · rintro ⟨q, hq, hsignature, hslots⟩
      rw [(signatureField_keeps hq).1, (signatureField_keeps hq).2] at hslots
      exact ⟨⟨q, hq, hsignature⟩, hslots⟩

theorem collect_method {fields : Fields} {p p' : PartialMethod} :
    fields.collect p methodField = .ok p' ↔ MethodFills fields p p' := by
  refine Fields.collect_eq_ok (T := MethodFills) (fun p p' => ?_) fun name value fields p p' =>
    methodField_fills.symm
  cases p
  cases p'
  simp [MethodFills, SignatureFills, fills_nil, and_assoc]

/-- What the fields of a kind declare. -/
def MadeOf (fields : Fields) : Kind → Declaration → Prop
  | .nameSpace, decl => decl = .nameSpace
  | .classType, decl => ∃ wrapper : Option Bool,
      Fills (Fields.isNamed "wrapper") Content.bool fields none wrapper ∧
        .classType (wrapper.getD false) = decl
  | .freeFunction, decl => ∃ p, SignatureFills fields {} p ∧ p.isVirtual = none ∧ p.role = none ∧
      .freeFunction p.signature = decl
  | .memberFunction, decl => ∃ p, MethodFills fields {} p ∧
      .memberFunction { p.signature with
        isVirtual := p.isVirtual.getD false, role := p.role.getD .ordinary } = decl
  | .memberVariable, decl => ∃ type,
      Fills (Fields.isNamed "type") Content.text fields none (some type) ∧
        .memberVariable type = decl
  | .other, decl => decl = .other

/-- A declaration of a kind is made of the fields of this kind. -/
theorem ofKind_eq_ok {fields : Fields} {kind : Kind} {decl : Declaration} :
    ofKind fields kind = .ok decl ↔ MadeOf fields kind decl := by
  cases kind with
  | nameSpace => exact ⟨fun h => (Except.ok.inj h).symm, fun h => congrArg _ h.symm⟩
  | other => exact ⟨fun h => (Except.ok.inj h).symm, fun h => congrArg _ h.symm⟩
  | classType =>
    have hcollect : ∀ o, fields.collect none (fun old name value =>
        if name == "wrapper" then Content.once name old value.bool else .ok old) = .ok o ↔
        Fills (Fields.isNamed "wrapper") Content.bool fields none o := fun o =>
      Fields.collect_one (fun _ _ => rfl) fun old key value hkey => if_neg (by simpa using hkey)
    unfold ofKind MadeOf
    rw [bind_eq_ok]
    simp only [hcollect, pure, Except.pure, Except.ok.injEq]
  | memberVariable =>
    have hcollect : ∀ o, fields.collect none (fun old name value =>
        if name == "type" then Content.once name old value.text else .ok old) = .ok o ↔
        Fills (Fields.isNamed "type") Content.text fields none o := fun o =>
      Fields.collect_one (fun _ _ => rfl) fun old key value hkey => if_neg (by simpa using hkey)
    unfold ofKind MadeOf
    rw [bind_eq_ok]
    simp only [hcollect, bind_eq_ok, required_eq_ok, pure, Except.pure, Except.ok.injEq]
    constructor
    · rintro ⟨o, ho, type, rfl, hdecl⟩
      exact ⟨type, ho, hdecl⟩
    · rintro ⟨type, htype, hdecl⟩
      exact ⟨some type, htype, type, rfl, hdecl⟩
  | freeFunction =>
    unfold ofKind MadeOf
    rw [bind_eq_ok]
    simp only [collect_signature, pure, Except.pure, Except.ok.injEq, and_assoc,
      eq_comm (a := none)]
  | memberFunction =>
    unfold ofKind MadeOf
    rw [bind_eq_ok]
    simp only [collect_method, pure, Except.pure, Except.ok.injEq]

end Declaration

/-! ## What matters to a declaration -/

namespace Kind

/-- The names of the fields of a kind. -/
def fieldNames : Kind → List String
  | .nameSpace | .other => []
  | .classType => ["wrapper"]
  | .freeFunction => ["returns", "params"]
  | .memberFunction => ["returns", "params", "virtual", "role"]
  | .memberVariable => ["type"]

/-- The fields of a kind, and how they are read. -/
inductive HasField : Kind → {α : Type} → String → (Content → Typed α) → Prop
  | wrapper : HasField .classType "wrapper" Content.bool
  | returns : HasField .freeFunction "returns" Content.text
  | params : HasField .freeFunction "params" Fields.ofList
  | methodReturns : HasField .memberFunction "returns" Content.text
  | methodParams : HasField .memberFunction "params" Fields.ofList
  | isVirtual : HasField .memberFunction "virtual" Content.bool
  | role : HasField .memberFunction "role" MethodRole.ofContent
  | type : HasField .memberVariable "type" Content.text

variable {α : Type} {kind : Kind} {name : String} {read : Content → Typed α}

/-- A field that a kind has is one of those listed for it. -/
theorem HasField.mem_fieldNames (h : HasField kind name read) : name ∈ kind.fieldNames := by
  cases h <;> decide

/-- The values of the parameters are read as lists of parameters. -/
theorem HasField.ofList_of_params (h : HasField kind name read) (hname : name = "params")
    {c c' : Content} (hc : ∀ ps, Fields.ofList c = .ok ps → Fields.ofList c' = .ok ps) {v : α}
    (hv : read c = .ok v) : read c' = .ok v := by
  cases h with
  | params | methodParams => exact hc v hv
  | wrapper | returns | methodReturns | isVirtual | role | type => simp at hname

end Kind

namespace Declaration

variable {fields fields' : Fields} {kind : Kind} {decl : Declaration}

/-- Only the slots of the kind matter. -/
theorem MadeOf.mono (h : MadeOf fields kind decl)
    (hslots : ∀ {α : Type} {name : String} {read : Content → Typed α} {o : Option α},
      kind.HasField name read → Fills (Fields.isNamed name) read fields none o →
        Fills (Fields.isNamed name) read fields' none o) : MadeOf fields' kind decl := by
  cases kind with
  | nameSpace => exact h
  | other => exact h
  | classType =>
    obtain ⟨wrapper, hwrapper, hdecl⟩ := h
    exact ⟨wrapper, hslots .wrapper hwrapper, hdecl⟩
  | freeFunction =>
    obtain ⟨p, ⟨hreturns, hparams⟩, hdecl⟩ := h
    exact ⟨p, ⟨hslots .returns hreturns, hslots .params hparams⟩, hdecl⟩
  | memberFunction =>
    obtain ⟨p, ⟨⟨hreturns, hparams⟩, hvirtual, hrole⟩, hdecl⟩ := h
    exact ⟨p, ⟨⟨hslots .methodReturns hreturns, hslots .methodParams hparams⟩,
      hslots .isVirtual hvirtual, hslots .role hrole⟩, hdecl⟩
  | memberVariable =>
    obtain ⟨type, htype, hdecl⟩ := h
    exact ⟨type, hslots .type htype, hdecl⟩

theorem ofFields_eq_ok :
    ofFields fields = .ok decl ↔
      ∃ kind, Kind.ofFields fields = .ok kind ∧ MadeOf fields kind decl := by
  unfold ofFields
  rw [bind_eq_ok]
  simp only [ofKind_eq_ok]

/-- The order of the fields does not matter. -/
theorem ofFields_perm (h : ofFields fields = .ok decl) (hperm : fields.Perm fields') :
    ofFields fields' = .ok decl := by
  obtain ⟨kind, hkind, hmade⟩ := ofFields_eq_ok.mp h
  refine ofFields_eq_ok.mpr ⟨kind, ?_, hmade.mono fun _ hfills => hfills.perm hperm⟩
  exact Kind.ofFields_eq_ok.mpr ((Kind.ofFields_eq_ok.mp hkind).perm hperm)

/-- Fields of other kinds do not matter. -/
theorem ofFields_append (h : ofFields fields = .ok decl) (hkind : Kind.ofFields fields = .ok kind)
    {extra : Fields} (hextra : ∀ field ∈ extra, field.1 ∉ "kind" :: kind.fieldNames) :
    ofFields (fields ++ extra) = .ok decl := by
  obtain ⟨kind', hkind', hmade⟩ := ofFields_eq_ok.mp h
  cases hkind.symm.trans hkind'
  have hfills : ∀ {α : Type} {name : String} {read : Content → Typed α} {o : Option α},
      name ∈ "kind" :: kind.fieldNames → Fills (Fields.isNamed name) read fields none o →
        Fills (Fields.isNamed name) read (fields ++ extra) none o := by
    intro α name read o hname h
    refine h.append fun field hfield => Fields.isNamed_of_ne ?_
    rintro rfl
    exact hextra field hfield hname
  refine ofFields_eq_ok.mpr ⟨kind, ?_, hmade.mono fun hfield => hfills ?_⟩
  · exact Kind.ofFields_eq_ok.mpr (hfills List.mem_cons_self (Kind.ofFields_eq_ok.mp hkind))
  · exact List.mem_cons_of_mem _ hfield.mem_fieldNames

/-- Another value that is the same list of parameters does not matter. -/
theorem ofFields_params {front back : Fields} {c c' : Content}
    (h : ofFields (front ++ ("params", c) :: back) = .ok decl)
    (hc : ∀ ps, Fields.ofList c = .ok ps → Fields.ofList c' = .ok ps) :
    ofFields (front ++ ("params", c') :: back) = .ok decl := by
  obtain ⟨kind, hkind, hmade⟩ := ofFields_eq_ok.mp h
  refine ofFields_eq_ok.mpr ⟨kind, ?_, hmade.mono fun hfield hfills => hfills.replace ?_⟩
  · refine Kind.ofFields_eq_ok.mpr ((Kind.ofFields_eq_ok.mp hkind).replace fun hparams => ?_)
    simp [Fields.isNamed] at hparams
  · intro hparams v
    exact hfield.ofList_of_params (beq_iff_eq.mp hparams).symm hc

end Declaration

end FlatApi
