import FlatApi.Yaml.Content
import FlatApi.Proofs.Actions
import Mathlib.Algebra.GroupWithZero.Nat

/-!
# What reading gives and what it costs

Reading knows the document and counts the aliases followed.  Its answers depend on the count in one
way only: there must be room for the aliases that are still to be followed.

* `Gives d act v k`: wherever there is room for `k` more aliases, the action reads `v` and follows
  `k` of them.
* `Steady d act`: whatever the action reads, it gives in this sense.  So it reads the same at
  another time, and the parts of a reading may change places.  All readers here are steady.
-/

namespace FlatApi.Yaml

/-! ## Nodes and aliases -/

namespace Document

/-- What a node is when an alias was followed. -/
def target (d : Document) : Node → Node
  | .alias slot => d.slot slot
  | n => n

/-- How many aliases may be followed. -/
def room (d : Document) : Nat := d.size * 100

end Document

/-- How many aliases are followed to know what a node is. -/
def Node.hops : Node → Nat
  | .alias _ => 1
  | .scalar .. | .sequence .. | .mapping .. => 0

/-- The place of what a node is when an alias was followed. -/
def Path.through (path : Path) : Node → Path
  | .alias _ => .jump :: path
  | .scalar .. | .sequence .. | .mapping .. => path

namespace Read

variable {d : Document} {α β σ : Type}

/-! ## Runs of actions -/

section Runs

variable {c c' : Nat}

theorem run_pure {v w : α} : (pure v : Read α) d c = .ok (w, c') ↔ v = w ∧ c = c' := by
  constructor
  · intro h
    cases h
    exact ⟨rfl, rfl⟩
  · rintro ⟨rfl, rfl⟩
    rfl

theorem run_bind {act : Read α} {f : α → Read β} {w : β} :
    (act >>= f) d c = .ok (w, c') ↔
      ∃ v c₁, act d c = .ok (v, c₁) ∧ f v d c₁ = .ok (w, c') := by
  have hbind : (act >>= f) d c = act d c >>= fun r => f r.1 d r.2 := rfl
  rw [hbind, bind_eq_ok]
  constructor
  · rintro ⟨⟨v, c₁⟩, hv, hf⟩
    exact ⟨v, c₁, hv, hf⟩
  · rintro ⟨v, c₁, hv, hf⟩
    exact ⟨(v, c₁), hv, hf⟩

theorem run_map {act : Read α} {f : α → β} {w : β} :
    (f <$> act) d c = .ok (w, c') ↔ ∃ v, act d c = .ok (v, c') ∧ f v = w := by
  rw [map_eq_pure_bind, run_bind]
  constructor
  · rintro ⟨v, c₁, hv, hf⟩
    obtain ⟨rfl, rfl⟩ := run_pure.mp hf
    exact ⟨v, hv, rfl⟩
  · rintro ⟨v, hv, rfl⟩
    exact ⟨v, c', hv, rfl⟩

theorem run_throw {f : Fault} {r : α × Nat} : (throw f : Read α) d c ≠ .ok r := nofun

theorem run_fail {path : Path} {cause : Cause} {r : α × Nat} :
    (fail path cause : Read α) d c ≠ .ok r := nofun

theorem run_ite {P : Prop} [Decidable P] {act act' : Read α} {r : α × Nat} :
    (if P then act else act') d c = .ok r ↔ (P ∧ act d c = .ok r) ∨ (¬ P ∧ act' d c = .ok r) := by
  split <;> simp_all

/-- An alias is followed if there is room for one more. -/
theorem run_follow {path : Path} {n : Node} {r : Path × Node} :
    follow path n d c = .ok (r, c') ↔
      r = (path.through n, d.target n) ∧ (n.hops = 0 ∨ c + n.hops ≤ d.room) ∧
        c' = c + n.hops := by
  match n with
  | .alias slot =>
    have hrun : follow path (.alias slot) d c =
        (if d.room < c + 1 then
          (throw { cause := .repetitionLimit, place := none } : Read (Path × Node))
          else pure (.jump :: path, d.slot slot)) d (c + 1) := rfl
    rw [hrun, run_ite]
    constructor
    · rintro (⟨-, h⟩ | ⟨hroom, h⟩)
      · exact absurd h run_throw
      · cases h
        exact ⟨rfl, Or.inr (Nat.not_lt.mp hroom), rfl⟩
    · rintro ⟨rfl, hroom, rfl⟩
      exact Or.inr ⟨Nat.not_lt.mpr (hroom.resolve_left Nat.one_ne_zero), rfl⟩
  | .scalar .. | .sequence .. | .mapping .. =>
    constructor
    · intro h
      cases h
      exact ⟨rfl, Or.inl rfl, rfl⟩
    · rintro ⟨rfl, -, rfl⟩
      rfl

/-- A field is read where it was not given before. -/
theorem run_once {name : String} {path : Path} {old o : Option α} {read : Read α} :
    once name path old read d c = .ok (o, c') ↔
      old = none ∧ ∃ v, read d c = .ok (v, c') ∧ some v = o := by
  cases old with
  | none =>
    rw [show once name path none read = some <$> read from rfl, run_map]
    exact (and_iff_right rfl).symm
  | some v =>
    rw [show once name path (some v) read = fail (path.drop 1) (.duplicateField name) from rfl]
    exact ⟨fun h => absurd h run_fail, nofun⟩

theorem run_required {name : String} {path : Path} {o : Option α} {v : α} :
    required name path o d c = .ok (v, c') ↔ o = some v ∧ c = c' := by
  cases o with
  | none => exact ⟨fun h => absurd h run_fail, nofun⟩
  | some w =>
    rw [show required name path (some w) = (pure w : Read α) from rfl, run_pure, Option.some_inj]

/-- A fold whose steps read something and then add it: all of it is read first, and then added. -/
theorem run_foldlM {step : σ → α → Read σ} {read : α → Read β} {add : σ → β → Option σ}
    (hstep : ∀ s a c s' c', step s a d c = .ok (s', c') ↔
      ∃ b, read a d c = .ok (b, c') ∧ add s b = some s')
    {as : List α} {s s' : σ} {c : Nat} :
    as.foldlM step s d c = .ok (s', c') ↔
      ∃ bs, as.mapM read d c = .ok (bs, c') ∧ bs.foldlM add s = some s' := by
  induction as generalizing s c with
  | nil =>
    rw [List.foldlM_nil, List.mapM_nil, run_pure]
    constructor
    · rintro ⟨rfl, rfl⟩
      exact ⟨[], rfl, rfl⟩
    · rintro ⟨bs, hbs, hadd⟩
      obtain ⟨rfl, rfl⟩ := run_pure.mp hbs
      cases hadd
      exact ⟨rfl, rfl⟩
  | cons a as ih =>
    rw [List.foldlM_cons, run_bind, List.mapM_cons]
    constructor
    · rintro ⟨s₁, c₁, hs₁, hs'⟩
      obtain ⟨b, hb, hadd⟩ := (hstep ..).mp hs₁
      obtain ⟨bs, hbs, hadds⟩ := ih.mp hs'
      refine ⟨b :: bs, run_bind.mpr ⟨b, c₁, hb, run_bind.mpr ⟨bs, c', hbs, rfl⟩⟩, ?_⟩
      rw [List.foldlM_cons, hadd]
      exact hadds
    · rintro ⟨bs', hbs', hadds⟩
      obtain ⟨b, c₁, hb, hbs'⟩ := run_bind.mp hbs'
      obtain ⟨bs, c₂, hbs, hnil⟩ := run_bind.mp hbs'
      obtain ⟨rfl, rfl⟩ := run_pure.mp hnil
      rw [List.foldlM_cons] at hadds
      obtain ⟨s₁, hadd, hadds⟩ := Option.bind_eq_some_iff.mp hadds
      exact ⟨s₁, c₁, (hstep ..).mpr ⟨b, hb, hadd⟩, ih.mpr ⟨bs, hbs, hadds⟩⟩

/-- A mapping has entries, and so has a scalar of which nothing is written. -/
theorem run_entries {expected : String} {depth : Nat} {path place : Path} {n : Node}
    {es : List (Node × Node)} :
    entries expected depth path n d c = .ok ((place, es), c') ↔
      ∃ m, follow path n d c = .ok ((place, m), c') ∧
        ((∃ tag, m = .mapping tag es ∧ depth ≠ 0) ∨ (m.isBlankScalar ∧ es = [])) := by
  unfold entries
  rw [run_bind]
  constructor
  · rintro ⟨⟨p, m⟩, c₁, hm, h⟩
    match m with
    | .mapping tag es' =>
      obtain ⟨-, h⟩ | ⟨hdepth, h⟩ := run_ite.mp h
      · exact absurd h run_throw
      · cases h
        exact ⟨_, hm, Or.inl ⟨tag, rfl, hdepth⟩⟩
    | .scalar .. | .sequence .. | .alias _ =>
      obtain ⟨hblank, h⟩ | ⟨-, h⟩ := run_ite.mp h
      · cases h
        exact ⟨_, hm, Or.inr ⟨hblank, rfl⟩⟩
      · exact absurd h run_fail
  · rintro ⟨m, hm, ⟨tag, rfl, hdepth⟩ | ⟨hblank, rfl⟩⟩
    · exact ⟨_, c', hm, run_ite.mpr (Or.inr ⟨hdepth, rfl⟩)⟩
    · match m with
      | .scalar .. => exact ⟨_, c', hm, run_ite.mpr (Or.inl ⟨hblank, rfl⟩)⟩

theorem run_fields {expected : String} {depth : Nat} {path place : Path} {n : Node} {init s : σ}
    {field : σ → String → Path → Node → Read σ} :
    fields expected depth path n init field d c = .ok ((place, s), c') ↔
      ∃ es c₁, entries expected depth path n d c = .ok ((place, es), c₁) ∧
        (es.foldlM (fun s entry => do
          let name ← textAs "field identifier" place entry.1
          field s name (stepOf entry.1 :: place) entry.2) init : Read σ) d c₁ = .ok (s, c') := by
  unfold fields
  rw [run_bind]
  constructor
  · rintro ⟨⟨p, es⟩, c₁, hes, h⟩
    obtain ⟨s', c₂, hs, h⟩ := run_bind.mp h
    cases h
    exact ⟨es, c₁, hes, hs⟩
  · rintro ⟨es, c₁, hes, hs⟩
    exact ⟨(place, es), c₁, hes, run_bind.mpr ⟨s, c', hs, rfl⟩⟩

end Runs

/-! ## Giving a value at a cost -/

/-- The action reads this value and follows `k` aliases, wherever there is room for them. -/
def Gives (d : Document) (act : Read α) (v : α) (k : Nat) : Prop :=
  ∀ c, k = 0 ∨ c + k ≤ d.room → act d c = .ok (v, c + k)

namespace Gives

theorem pure (v : α) : Gives d (Pure.pure v) v 0 := fun _ _ => rfl

/-- The aliases followed by two steps add up. -/
theorem bind {act : Read α} {f : α → Read β} {v : α} {w : β} {k l : Nat} (h : Gives d act v k)
    (hf : Gives d (f v) w l) : Gives d (act >>= f) w (k + l) := by
  intro c hc
  refine run_bind.mpr ⟨v, c + k, h c (by omega), ?_⟩
  rw [hf (c + k) (by omega), Nat.add_assoc]

theorem map {act : Read α} {v : α} {k : Nat} (h : Gives d act v k) (f : α → β) :
    Gives d (f <$> act) (f v) k :=
  fun c hc => run_map.mpr ⟨v, h c hc, rfl⟩

/-- An alias is followed to its target, hop by hop. -/
theorem follow (path : Path) (n : Node) :
    Gives d (Read.follow path n) (path.through n, d.target n) n.hops :=
  fun _ hroom => run_follow.mpr ⟨rfl, hroom, rfl⟩

theorem pair {act : Read α} {act' : Read β} {v : α} {w : β} {k l : Nat} (h : Gives d act v k)
    (h' : Gives d act' w l) : Gives d (do return (← act, ← act')) (v, w) (k + l) := by
  refine h.bind ?_
  rw [← map_eq_pure_bind]
  exact h'.map (v, ·)

/-- Each action gives its value, so the row of them gives the row of values. -/
theorem mapM {f : α → Read β} {as : List α} {rows : List (β × Nat)}
    (h : List.Forall₂ (fun a r => Gives d (f a) r.1 r.2) as rows) :
    Gives d (as.mapM f) (rows.map (·.1)) (rows.map (·.2)).sum := by
  induction h with
  | nil => exact Gives.pure []
  | @cons a r as rows ha _ ih =>
    have hrest := ih.map (r.1 :: ·)
    rw [map_eq_pure_bind] at hrest
    rw [List.mapM_cons]
    exact ha.bind hrest

end Gives

theorem Gives.run {act : Read α} {v : α} (h : Gives d act v 0) (c : Nat) :
    act d c = .ok (v, c) := h c (Or.inl rfl)

/-- Each action gives its value without following aliases. -/
theorem gives_mapM {f : α → Read β} {as : List α} {vs : List β}
    (h : List.Forall₂ (fun a v => Gives d (f a) v 0) as vs) : Gives d (as.mapM f) vs 0 := by
  have hrows : List.Forall₂ (fun a r => Gives d (f a) r.1 r.2) as (vs.map fun v => (v, 0)) :=
    List.forall₂_map_right_iff.mpr h
  simpa [Function.comp_def] using Gives.mapM hrows

/-- Each item is read at its own place. -/
theorem gives_each {read : Path → Node → Read α} {ns : List Node} {vs : List α}
    (h : List.Forall₂ (fun n v => ∀ path, Gives d (read path n) v 0) ns vs) (path : Path) :
    Gives d (each read path ns) vs 0 := by
  refine gives_mapM ?_
  rw [← List.zipIdx_map_fst 0 vs, List.forall₂_map_right_iff]
  exact (forall₂_zipIdx h 0).imp fun n v hread => hread.1 _

theorem gives_listOf {read : Path → Node → Read α} {ns : List Node} {vs : List α}
    (h : List.Forall₂ (fun n v => ∀ path, Gives d (read path n) v 0) ns vs) (depth : Nat)
    (path : Path) (tag : Option Tag) :
    Gives d (listOf read (depth + 1) path (.sequence tag ns)) vs 0 := by
  have hitems : Gives d (items (depth + 1) path (.sequence tag ns)) (path, ns) 0 := fun _ _ => rfl
  exact Gives.bind (l := 0) hitems (gives_each h path)

/-! ## Steady actions -/

/-- Whatever the action reads, it gives. -/
def Steady (d : Document) (act : Read α) : Prop :=
  ∀ c v c', act d c = .ok (v, c') →
    ∃ k, c' = c + k ∧ (k = 0 ∨ c' ≤ d.room) ∧ Gives d act v k

namespace Steady

/-- An action that reads nothing has nothing to give. -/
theorem of_no_run {act : Read α} (h : ∀ c r, act d c ≠ .ok r) : Steady d act :=
  fun c _ _ hrun => absurd hrun (h c _)

theorem fail (path : Path) (cause : Cause) : Steady d (Read.fail path cause : Read α) :=
  of_no_run fun _ _ => run_fail

theorem tooDeep : Steady d (Read.tooDeep : Read α) := of_no_run fun _ _ => run_throw

theorem pure (v : α) : Steady d (Pure.pure v : Read α) := by
  intro c w c' h
  obtain ⟨rfl, rfl⟩ := run_pure.mp h
  exact ⟨0, rfl, Or.inl rfl, Gives.pure v⟩

/-- Two steady steps are steady one after the other, and their aliases add up. -/
theorem bind {act : Read α} {f : α → Read β} (h : Steady d act) (hf : ∀ v, Steady d (f v)) :
    Steady d (act >>= f) := by
  intro c w c' hrun
  obtain ⟨v, c₁, hv, hw⟩ := run_bind.mp hrun
  obtain ⟨k, rfl, hk, hgives⟩ := h c v c₁ hv
  obtain ⟨l, rfl, hl, hgives'⟩ := hf v (c + k) w c' hw
  exact ⟨k + l, by omega, by omega, hgives.bind hgives'⟩

theorem map {act : Read α} (h : Steady d act) (f : α → β) : Steady d (f <$> act) := by
  rw [map_eq_pure_bind]
  exact h.bind fun v => pure (f v)

theorem pair {act : Read α} {act' : Read β} (h : Steady d act) (h' : Steady d act') :
    Steady d (do return (← act, ← act')) :=
  h.bind fun _ => h'.bind fun _ => pure _

theorem ite {P : Prop} [Decidable P] {act act' : Read α} (h : Steady d act) (h' : Steady d act') :
    Steady d (if P then act else act') := by
  split
  · exact h
  · exact h'

/-- Aliases lead to the same target from any count on. -/
theorem follow (path : Path) (n : Node) : Steady d (Read.follow path n) := by
  intro c r c' h
  obtain ⟨rfl, hroom, rfl⟩ := run_follow.mp h
  exact ⟨n.hops, rfl, hroom, Gives.follow path n⟩

/-- What a row of steady actions reads, action by action. -/
theorem exists_rows {f : α → Read β} {as : List α} (h : ∀ a ∈ as, Steady d (f a)) {c c' : Nat}
    {vs : List β} (hrun : as.mapM f d c = .ok (vs, c')) :
    ∃ rows : List (β × Nat), List.Forall₂ (fun a r => Gives d (f a) r.1 r.2) as rows ∧
      vs = rows.map (·.1) ∧ c' = c + (rows.map (·.2)).sum ∧
      ((rows.map (·.2)).sum = 0 ∨ c' ≤ d.room) := by
  induction as generalizing c vs with
  | nil =>
    obtain ⟨rfl, rfl⟩ := run_pure.mp hrun
    exact ⟨[], .nil, rfl, rfl, Or.inl rfl⟩
  | cons a as ih =>
    rw [List.mapM_cons] at hrun
    obtain ⟨v, c₁, hv, hrun⟩ := run_bind.mp hrun
    obtain ⟨vs', c₂, hvs, hrun⟩ := run_bind.mp hrun
    obtain ⟨rfl, rfl⟩ := run_pure.mp hrun
    obtain ⟨k, rfl, hk, hgives⟩ := h a List.mem_cons_self c v c₁ hv
    obtain ⟨rows, hrows, rfl, rfl, hroom⟩ := ih (fun b hb => h b (List.mem_cons_of_mem _ hb)) hvs
    refine ⟨(v, k) :: rows, .cons hgives hrows, rfl, ?_, ?_⟩
    · rw [List.map_cons, List.sum_cons, Nat.add_assoc]
    · rw [List.map_cons, List.sum_cons]
      omega

/-- A row of steady actions is steady. -/
theorem mapM {f : α → Read β} {as : List α} (h : ∀ a ∈ as, Steady d (f a)) :
    Steady d (as.mapM f) := by
  intro c vs c' hrun
  obtain ⟨rows, hrows, rfl, rfl, hroom⟩ := exists_rows h hrun
  exact ⟨_, rfl, hroom, Gives.mapM hrows⟩

end Steady

/-! ## Variants in steps -/

/-- The variant of this name. -/
def named (variants : List (String × α)) (path : Path) (name : String) : Read α :=
  match variants.lookup name with
  | some v => pure v
  | none => fail path (.unknownVariant name (variants.map (·.1)))

/-- The variant that a tag names, if it names one. -/
def namedByTag (variants : List (String × α)) (path : Path) (tag : Option Tag) :
    Read (Option α) :=
  match tag.bind Tag.name? with
  | some name => some <$> named variants path name
  | none => pure none

/-- The variant that is read from what an alias leads to. -/
def variantAt (variants : List (String × α)) (tagPath : Path) : Path × Node → Read α
  | (path, .scalar tag text style) => do
    match ← namedByTag variants tagPath tag with
    | none => named variants path text
    | some v =>
      if isNull text style then return v
      else fail path (.invalidValue (.string text) "null")
  | (path, .sequence tag _) => do
    variant.notUnit path .sequence (← namedByTag variants tagPath tag)
  | (path, .mapping tag _) => do variant.notUnit path .map (← namedByTag variants tagPath tag)
  | (path, .alias _) => named variants path ""

/-- The name of a variant is read behind the aliases. -/
theorem variant_eq (variants : List (String × α)) (path : Path) (n : Node) :
    variant variants path n =
      follow path n >>= variantAt variants (match n with | .alias _ => path | _ => path.drop 1) :=
  rfl

namespace Steady

/-! ## Readers are steady -/

variable (path : Path) (n : Node)

theorem textAs (expected : String) : Steady d (Read.textAs expected path n) := by
  unfold Read.textAs
  refine (follow path n).bind fun r => ?_
  obtain ⟨path, n⟩ := r
  match n with
  | .scalar .. => exact pure _
  | .sequence .. | .mapping .. | .alias _ => exact fail _ _

theorem named (variants : List (String × α)) (name : String) :
    Steady d (Read.named variants path name) := by
  unfold Read.named
  cases variants.lookup name with
  | none => exact fail _ _
  | some v => exact pure v

theorem namedByTag (variants : List (String × α)) (tag : Option Tag) :
    Steady d (Read.namedByTag variants path tag) := by
  unfold Read.namedByTag
  cases tag.bind Tag.name? with
  | none => exact pure none
  | some name => exact (named path variants name).map some

theorem notUnit (found : Found) (o : Option α) : Steady d (Read.variant.notUnit path found o) := by
  cases o <;> exact fail _ _

theorem variant (variants : List (String × α)) : Steady d (Read.variant variants path n) := by
  rw [variant_eq]
  refine (follow path n).bind fun r => ?_
  obtain ⟨place, m⟩ := r
  match m with
  | .scalar tag text style =>
    refine (namedByTag _ variants tag).bind fun o => ?_
    cases o with
    | none => exact named place variants text
    | some v => exact (pure v).ite (fail _ _)
  | .sequence tag _ => exact (namedByTag _ variants tag).bind (notUnit place _)
  | .mapping tag _ => exact (namedByTag _ variants tag).bind (notUnit place _)
  | .alias _ => exact named place variants ""

theorem items (depth : Nat) : Steady d (Read.items depth path n) := by
  unfold Read.items
  refine (follow path n).bind fun r => ?_
  obtain ⟨path, n⟩ := r
  match n with
  | .sequence .. => exact tooDeep.ite (pure _)
  | .scalar .. | .mapping .. | .alias _ => exact (pure _).ite (fail _ _)

theorem each {read : Path → Node → Read α} (h : ∀ path n, Steady d (read path n)) (ns : List Node) :
    Steady d (Read.each read path ns) :=
  mapM fun r _ => h _ r.1

/-- A list is steady if the reader of its items is. -/
theorem listOf {read : Path → Node → Read α} (h : ∀ path n, Steady d (read path n)) (depth : Nat) :
    Steady d (Read.listOf read depth path n) :=
  (items path n depth).bind fun r => each r.1 h r.2

end Steady

end Read

namespace Content

variable {d : Document}

open Read (Gives Steady)

/-- What a scalar without a tag of its own stands for is known, or is refused. -/
theorem steady_resolved (path : Path) (tag : Option Tag) (text : String) (style : Style) :
    Steady d (match Scalar.resolve tag text style with
      | .ok (.wide n) => Read.fail path (.invalidType (.wide n) "any value")
      | .ok v => pure (.scalar v)
      | .error kind => Read.fail path (.invalidValue (.string text) kind) : Read Content) := by
  split
  · exact Steady.fail _ _
  · exact Steady.pure _
  · exact Steady.fail _ _

/-- Reading content is steady at every depth. -/
theorem steady_read (depth : Nat) : ∀ (path : Path) (n : Node), Steady d (read depth path n) := by
  induction depth with
  | zero =>
    intro path n
    unfold read
    refine (Steady.follow path n).bind fun r => ?_
    obtain ⟨path, n⟩ := r
    match n with
    | .scalar tag text style => exact (Steady.fail _ _).ite (steady_resolved path tag text style)
    | .sequence .. | .mapping .. => exact (Steady.fail _ _).ite Steady.tooDeep
    | .alias _ => exact Steady.pure _
  | succ depth ih =>
    intro path n
    unfold read
    refine (Steady.follow path n).bind fun r => ?_
    obtain ⟨path, n⟩ := r
    match n with
    | .scalar tag text style => exact (Steady.fail _ _).ite (steady_resolved path tag text style)
    | .sequence .. => exact (Steady.fail _ _).ite ((Steady.each _ ih _).map _)
    | .mapping .. =>
      exact (Steady.fail _ _).ite (Steady.map (Steady.mapM fun entry _ => (ih _ _).pair (ih _ _)) _)
    | .alias _ => exact Steady.pure _

/-! ## Content without aliases -/

section Plain

variable {depth : Nat} {tag : Option Tag} (htag : (tag.bind Tag.name?).isSome = false)

include htag

theorem gives_scalar {text : String} {style : Style} {v : Scalar}
    (h : Scalar.resolve tag text style = .ok v) (hwide : ∀ n, v ≠ .wide n) (path : Path) :
    Gives d (read depth path (.scalar tag text style)) (.scalar v) 0 := by
  unfold read
  intro c _
  have hrun : (Read.follow path (.scalar tag text style)) d c =
      .ok ((path, .scalar tag text style), c) := rfl
  refine Read.run_bind.mpr ⟨_, c, hrun, Read.run_ite.mpr (Or.inr ⟨by simp [htag], ?_⟩)⟩
  rw [h]
  cases v with
  | wide n => exact absurd rfl (hwide n)
  | _ => rfl

theorem gives_sequence {items : List Node} {cs : List Content}
    (h : List.Forall₂ (fun n v => ∀ path, Gives d (read depth path n) v 0) items cs) (path : Path) :
    Gives d (read (depth + 1) path (.sequence tag items)) (.sequence cs) 0 := by
  unfold read
  intro c _
  have hrun : (Read.follow path (.sequence tag items)) d c =
      .ok ((path, .sequence tag items), c) := rfl
  refine Read.run_bind.mpr ⟨_, c, hrun, Read.run_ite.mpr (Or.inr ⟨by simp [htag], ?_⟩)⟩
  exact ((Read.gives_each h path).map Content.sequence).run c

theorem gives_mapping {entries : List (Node × Node)} {ces : List (Content × Content)}
    (h : List.Forall₂ (fun entry ce => (∀ path, Gives d (read depth path entry.1) ce.1 0) ∧
      ∀ path, Gives d (read depth path entry.2) ce.2 0) entries ces) (path : Path) :
    Gives d (read (depth + 1) path (.mapping tag entries)) (.mapping ces) 0 := by
  unfold read
  intro c _
  have hrun : (Read.follow path (.mapping tag entries)) d c =
      .ok ((path, .mapping tag entries), c) := rfl
  refine Read.run_bind.mpr ⟨_, c, hrun, Read.run_ite.mpr (Or.inr ⟨by simp [htag], ?_⟩)⟩
  have hentries := Read.gives_mapM (h.imp fun entry ce hread =>
    (hread.1 path).pair (hread.2 (Read.stepOf entry.1 :: path)))
  exact (hentries.map Content.mapping).run c

end Plain

end Content

end FlatApi.Yaml
