import FlatApi.Proofs.Entities

/-!
# Documents without aliases

What a node stands for is a tree without aliases.

* `Document.unfold`: the tree of a node, and how often an alias is followed to know it.
* `Entity.mirrors_read`: from a document an entity is read as it is from the tree, and the aliases
  are counted.  So an entity depends on the tree alone, as long as there is room for the aliases.
-/

namespace FlatApi

namespace Yaml

namespace Document

/-- The tree that a node stands for, and how often an alias is followed; there is none if it is
nested deeper than `depth`. -/
def unfold (d : Document) : Nat → Node → Option (Node × Nat)
  | depth, n => match depth, d.target n with
    | _, .scalar tag text style => some (.scalar tag text style, n.hops)
    | depth + 1, .sequence tag items => do
      let rows ← items.mapM (d.unfold depth)
      return (.sequence tag (rows.map (·.1)), n.hops + (rows.map (·.2)).sum)
    | depth + 1, .mapping tag entries => do
      let rows ← entries.mapM fun entry => do
        return (← d.unfold depth entry.1, ← d.unfold depth entry.2)
      return (.mapping tag (rows.map fun row => (row.1.1, row.2.1)),
        n.hops + (rows.map fun row => row.1.2 + row.2.2).sum)
    | _, _ => none

variable {d : Document}

/-- The ways in which a node stands for a tree. -/
theorem unfold_cases {depth : Nat} {n t : Node} {k : Nat} (h : d.unfold depth n = some (t, k)) :
    (∃ tag text style, d.target n = .scalar tag text style ∧ t = .scalar tag text style ∧
      k = n.hops) ∨
    (∃ below tag items, ∃ rows : List (Node × Nat), depth = below + 1 ∧
      d.target n = .sequence tag items ∧
      List.Forall₂ (fun m row => d.unfold below m = some row) items rows ∧
      t = .sequence tag (rows.map (·.1)) ∧ k = n.hops + (rows.map (·.2)).sum) ∨
    (∃ below tag entries, ∃ rows : List ((Node × Nat) × (Node × Nat)), depth = below + 1 ∧
      d.target n = .mapping tag entries ∧
      List.Forall₂ (fun entry row => d.unfold below entry.1 = some row.1 ∧
        d.unfold below entry.2 = some row.2) entries rows ∧
      t = .mapping tag (rows.map fun row => (row.1.1, row.2.1)) ∧
      k = n.hops + (rows.map fun row => row.1.2 + row.2.2).sum) := by
  unfold unfold at h
  split at h
  · next tag text style htarget =>
    cases h
    exact Or.inl ⟨tag, text, style, htarget, rfl, rfl⟩
  · next below tag items htarget =>
    obtain ⟨rows, hrows, h⟩ := Option.bind_eq_some_iff.mp h
    cases h
    exact Or.inr (Or.inl ⟨below, tag, items, rows, rfl, htarget, mapM_eq_some.mp hrows, rfl, rfl⟩)
  · next below tag entries htarget =>
    obtain ⟨rows, hrows, h⟩ := Option.bind_eq_some_iff.mp h
    cases h
    refine Or.inr (Or.inr ⟨below, tag, entries, rows, rfl, htarget, ?_, rfl, rfl⟩)
    refine (mapM_eq_some.mp hrows).imp fun entry row hrow => ?_
    obtain ⟨key, hkey, hrow⟩ := Option.bind_eq_some_iff.mp hrow
    obtain ⟨value, hvalue, hrow⟩ := Option.bind_eq_some_iff.mp hrow
    cases hrow
    exact ⟨hkey, hvalue⟩
  · cases h

end Document

namespace Read

variable {d : Document} {α β ρ : Type} {k l : Nat}

/-! ## Reading without aliases

In a document without room no alias is followed. -/

/-- Without anchors there are no aliases to follow, so what is read once is read at no cost. -/
theorem gives_void_of_run {act : Read α} (hact : Steady .void act) {c c' : Nat} {v : α}
    (h : act .void c = .ok (v, c')) : Gives .void act v 0 := by
  obtain ⟨k, rfl, hroom, hgives⟩ := hact c v c' h
  have hvoid : Document.room .void = 0 := rfl
  obtain rfl : k = 0 := by omega
  exact hgives

/-- Without anchors two steps give what the second does behind the first. -/
theorem gives_void_bind {act : Read α} (hact : Steady .void act) {f : α → Read β} {w : β} :
    Gives .void (act >>= f) w 0 ↔ ∃ v, Gives .void act v 0 ∧ Gives .void (f v) w 0 := by
  constructor
  · intro h
    obtain ⟨v, c₁, hv, -⟩ := run_bind.mp (h.run 0)
    have hgives := gives_void_of_run hact hv
    refine ⟨v, hgives, fun c _ => ?_⟩
    obtain ⟨v', c₁, hv', hw⟩ := run_bind.mp (h.run c)
    rw [hgives.run c] at hv'
    cases hv'
    exact hw
  · rintro ⟨v, hv, hw⟩
    exact hv.bind hw

theorem gives_void_map {act : Read α} (hact : Steady .void act) {f : α → β} {w : β} :
    Gives .void (f <$> act) w 0 ↔ ∃ v, Gives .void act v 0 ∧ f v = w := by
  rw [map_eq_pure_bind, gives_void_bind hact]
  refine exists_congr fun v => and_congr_right fun _ => ⟨fun h => ?_, fun h => ?_⟩
  · exact (run_pure.mp (h.run 0)).1
  · rw [h]
    exact Gives.pure w

theorem gives_void_pair {act : Read α} {act' : Read β} (hact : Steady .void act)
    (hact' : Steady .void act') {r : α × β} :
    Gives .void (do return (← act, ← act')) r 0 ↔
      Gives .void act r.1 0 ∧ Gives .void act' r.2 0 := by
  rw [gives_void_bind hact]
  constructor
  · rintro ⟨v, hv, h⟩
    rw [← map_eq_pure_bind, gives_void_map hact'] at h
    obtain ⟨w, hw, rfl⟩ := h
    exact ⟨hv, hw⟩
  · rintro ⟨hv, hw⟩
    refine ⟨r.1, hv, ?_⟩
    rw [← map_eq_pure_bind]
    exact hw.map (r.1, ·)

/-- Without anchors a row of steps gives what each of them does. -/
theorem gives_void_mapM {f : α → Read β} {as : List α} (hf : ∀ a ∈ as, Steady .void (f a))
    {vs : List β} :
    Gives .void (as.mapM f) vs 0 ↔ List.Forall₂ (fun a v => Gives .void (f a) v 0) as vs := by
  induction as generalizing vs with
  | nil =>
    rw [List.mapM_nil, List.forall₂_nil_left_iff]
    constructor
    · intro h
      exact (run_pure.mp (h.run 0)).1.symm
    · rintro rfl
      exact Gives.pure []
  | cons a as ih =>
    have has : ∀ b ∈ as, Steady .void (f b) := fun b hb => hf b (List.mem_cons_of_mem _ hb)
    rw [List.mapM_cons, gives_void_bind (hf a List.mem_cons_self), List.forall₂_cons_left_iff]
    refine exists_congr fun v => ?_
    rw [← map_eq_pure_bind, gives_void_map (Steady.mapM has)]
    simp only [ih has]
    constructor
    · rintro ⟨hv, vs', hvs, rfl⟩
      exact ⟨vs', hv, hvs, rfl⟩
    · rintro ⟨vs', hv, hvs, rfl⟩
      exact ⟨hv, vs', hvs, rfl⟩

/-! ## Mirrors -/

/-- The first action reads from the document what the second one reads without aliases, and
follows `k` aliases. -/
def Mirrors (d : Document) (k : Nat) (act plain : Read α) : Prop :=
  ∀ c v c', act d c = .ok (v, c') ↔
    Gives .void plain v 0 ∧ (k = 0 ∨ c + k ≤ d.room) ∧ c' = c + k

namespace Mirrors

/-- What the second action gives the first one gives too, at its cost. -/
theorem gives {act plain : Read α} (h : Mirrors d k act plain) {v : α}
    (hv : Gives .void plain v 0) : Gives d act v k :=
  fun c hroom => (h c v (c + k)).mpr ⟨hv, hroom, rfl⟩

theorem of_no_run {act plain : Read α} (h : ∀ c r, act d c ≠ .ok r)
    (h' : ∀ r, plain .void 0 ≠ .ok r) : Mirrors d k act plain :=
  fun c _ _ => ⟨fun hrun => absurd hrun (h c _), fun hrun => absurd (hrun.1.run 0) (h' _)⟩

theorem fail {path path' : Path} {cause cause' : Cause} :
    Mirrors d k (Read.fail path cause : Read α) (Read.fail path' cause') :=
  of_no_run (fun _ _ => run_fail) fun _ => run_fail

theorem fail_bind {path path' : Path} {cause cause' : Cause} {f g : β → Read α} :
    Mirrors d k (Read.fail path cause >>= f) (Read.fail path' cause' >>= g) :=
  of_no_run (fun _ _ h => run_fail (run_bind.mp h).choose_spec.choose_spec.1) fun _ h =>
    run_fail (run_bind.mp h).choose_spec.choose_spec.1

theorem tooDeep : Mirrors d k (Read.tooDeep : Read α) Read.tooDeep :=
  of_no_run (fun _ _ => run_throw) fun _ => run_throw

theorem pure (v : α) : Mirrors d 0 (Pure.pure v) (Pure.pure v) := by
  intro c w c'
  rw [run_pure]
  constructor
  · rintro ⟨rfl, rfl⟩
    exact ⟨Gives.pure v, Or.inl rfl, rfl⟩
  · rintro ⟨hv, -, rfl⟩
    exact ⟨(run_pure.mp (hv.run 0)).1, rfl⟩

theorem bind {act plain : Read α} {f g : α → Read β} (h : Mirrors d k act plain)
    (hsteady : Steady .void plain) (hfg : ∀ v, Mirrors d l (f v) (g v)) :
    Mirrors d (k + l) (act >>= f) (plain >>= g) := by
  intro c w c'
  rw [run_bind, gives_void_bind hsteady]
  constructor
  · rintro ⟨v, c₁, hrun, hrun'⟩
    obtain ⟨hv, hk, rfl⟩ := (h c v c₁).mp hrun
    obtain ⟨hw, hl, rfl⟩ := (hfg v (c + k) w c').mp hrun'
    exact ⟨⟨v, hv, hw⟩, by omega, by omega⟩
  · rintro ⟨⟨v, hv, hw⟩, hroom, rfl⟩
    refine ⟨v, c + k, (h c v _).mpr ⟨hv, by omega, rfl⟩, ?_⟩
    exact (hfg v _ w _).mpr ⟨hw, by omega, by omega⟩

theorem map {act plain : Read α} (h : Mirrors d k act plain) (hsteady : Steady .void plain)
    (f : α → β) : Mirrors d k (f <$> act) (f <$> plain) := by
  rw [map_eq_pure_bind, map_eq_pure_bind]
  exact h.bind hsteady fun v => pure (f v)

theorem pair {act plain : Read α} {act' plain' : Read β} (h : Mirrors d k act plain)
    (hsteady : Steady .void plain) (h' : Mirrors d l act' plain') (hsteady' : Steady .void plain') :
    Mirrors d (k + l) (do return (← act, ← act')) (do return (← plain, ← plain')) := by
  refine h.bind hsteady fun v => ?_
  rw [← map_eq_pure_bind, ← map_eq_pure_bind]
  exact h'.map hsteady' _

theorem ite {P : Prop} [Decidable P] {act act' plain plain' : Read α}
    (h : Mirrors d k act plain) (h' : Mirrors d k act' plain') :
    Mirrors d k (if P then act else act') (if P then plain else plain') := by
  split
  · exact h
  · exact h'

/-- To follow an alias is counted; the tree has none. -/
theorem follow {path path' : Path} {n m t : Node} {f g : Path × Node → Read α}
    (htarget : d.target n = m) (ht : Read.follow path' t = Pure.pure (path', t))
    (h : Mirrors d l (f (path.through n, m)) (g (path', t))) :
    Mirrors d (n.hops + l) (Read.follow path n >>= f) (Read.follow path' t >>= g) := by
  rw [← htarget] at h
  rw [ht, pure_bind]
  intro c v c'
  rw [run_bind]
  constructor
  · rintro ⟨r, c₁, hr, hrun⟩
    obtain ⟨rfl, hk, rfl⟩ := run_follow.mp hr
    obtain ⟨hv, hl, rfl⟩ := (h _ v c').mp hrun
    exact ⟨hv, by omega, by omega⟩
  · rintro ⟨hv, hroom, rfl⟩
    refine ⟨_, _, run_follow.mpr ⟨rfl, by omega, rfl⟩, ?_⟩
    exact (h _ v _).mpr ⟨hv, by omega, by omega⟩

/-- A row of mirrors. -/
theorem mapM {f : α → Read β} {g : ρ → Read β} {cost : ρ → Nat} {as : List α} {rows : List ρ}
    (h : List.Forall₂ (fun a row => Mirrors d (cost row) (f a) (g row)) as rows)
    (hsteady : ∀ row ∈ rows, Steady .void (g row)) :
    Mirrors d (rows.map cost).sum (as.mapM f) (rows.mapM g) := by
  induction h with
  | nil => exact pure []
  | @cons a row as rows ha _ ih =>
    have hrows : ∀ r ∈ rows, Steady .void (g r) := fun r hr =>
      hsteady r (List.mem_cons_of_mem _ hr)
    rw [List.mapM_cons, List.mapM_cons, List.map_cons, List.sum_cons]
    refine ha.bind (hsteady row List.mem_cons_self) fun v => ?_
    rw [← map_eq_pure_bind, ← map_eq_pure_bind]
    exact (ih hrows).map (Steady.mapM hrows) _

/-! ## Readers mirror themselves -/

variable {depth : Nat} {n t : Node} {path path' : Path}

theorem textAs (h : d.unfold depth n = some (t, k)) (expected : String) :
    Mirrors d k (Read.textAs expected path n) (Read.textAs expected path' t) := by
  unfold Read.textAs
  obtain ⟨tag, text, style, htarget, rfl, rfl⟩ | ⟨_, tag, items, rows, _, htarget, _, rfl, rfl⟩ |
    ⟨_, tag, entries, rows, _, htarget, _, rfl, rfl⟩ := Document.unfold_cases h
  · refine follow (l := 0) htarget rfl ?_
    exact pure text
  · refine follow htarget rfl ?_
    exact fail
  · refine follow htarget rfl ?_
    exact fail

theorem named (variants : List (String × α)) (name : String) :
    Mirrors d 0 (Read.named variants path name) (Read.named variants path' name) := by
  unfold Read.named
  cases variants.lookup name with
  | none => exact fail
  | some v => exact pure v

theorem namedByTag (variants : List (String × α)) (tag : Option Tag) :
    Mirrors d 0 (Read.namedByTag variants path tag) (Read.namedByTag variants path' tag) := by
  unfold Read.namedByTag
  cases tag.bind Tag.name? with
  | none => exact pure none
  | some name => exact (named variants name).map (Steady.named _ variants name) some

/-- No variant is read from a collection. -/
theorem notUnit {variants : List (String × α)} {tag : Option Tag} {found : Found}
    {place place' : Path} :
    Mirrors d k (do Read.variant.notUnit place found (← Read.namedByTag variants path tag))
      (do Read.variant.notUnit place' found (← Read.namedByTag variants path' tag)) := by
  have hno : ∀ (d : Document) (path place : Path) (c : Nat) (r : α × Nat),
      (do Read.variant.notUnit place found (← Read.namedByTag variants path tag) : Read α) d c ≠
        .ok r := by
    intro d path place c r hrun
    obtain ⟨o, c₁, -, hrun⟩ := run_bind.mp hrun
    cases o <;> exact run_fail hrun
  exact of_no_run (hno d path place) (hno .void path' place' 0)

theorem variant (h : d.unfold depth n = some (t, k)) (variants : List (String × α)) :
    Mirrors d k (Read.variant variants path n) (Read.variant variants path' t) := by
  rw [variant_eq, variant_eq]
  obtain ⟨tag, text, style, htarget, rfl, rfl⟩ | ⟨_, tag, items, rows, _, htarget, _, rfl, rfl⟩ |
    ⟨_, tag, entries, rows, _, htarget, _, rfl, rfl⟩ := Document.unfold_cases h
  · refine follow (l := 0) htarget rfl ?_
    dsimp only [variantAt]
    refine Mirrors.bind (l := 0) (namedByTag variants tag) (Steady.namedByTag _ variants tag)
      fun o => ?_
    cases o with
    | none => exact named variants text
    | some v => exact (pure v).ite fail
  · refine follow htarget rfl ?_
    exact notUnit
  · refine follow htarget rfl ?_
    exact notUnit

/-- Each item is mirrored at its own place. -/
theorem each {read : Path → Node → Read α} (hsteady : ∀ path n, Steady .void (read path n))
    {items : List Node} {rows : List (Node × Nat)}
    (h : List.Forall₂ (fun m row => ∀ path path', Mirrors d row.2 (read path m) (read path' row.1))
      items rows) :
    Mirrors d (rows.map (·.2)).sum (Read.each read path items)
      (Read.each read path' (rows.map (·.1))) := by
  have hcost : rows.zipIdx.map (fun row => row.1.2) = rows.map (·.2) := by
    conv_rhs => rw [← List.zipIdx_map_fst 0 rows, List.map_map]
    rfl
  have hplain : Read.each read path' (rows.map (·.1)) =
      rows.zipIdx.mapM fun row => read (.index row.2 :: path') row.1.1 := by
    unfold Read.each
    rw [List.zipIdx_map, List.mapM_map]
    rfl
  rw [hplain, ← hcost]
  refine mapM ?_ fun row _ => hsteady _ _
  refine (forall₂_zipIdx h 0).imp fun m row hrow => ?_
  exact hrow.1 _ _

theorem listOf {read : Path → Node → Read α} (hsteady : ∀ path n, Steady .void (read path n))
    (hread : ∀ below m row, depth = below + 1 → d.unfold below m = some row →
      ∀ path path', Mirrors d row.2 (read path m) (read path' row.1))
    (h : d.unfold depth n = some (t, k)) :
    Mirrors d k (Read.listOf read depth path n) (Read.listOf read depth path' t) := by
  unfold Read.listOf Read.items
  rw [bind_assoc, bind_assoc]
  obtain ⟨tag, text, style, htarget, rfl, rfl⟩ |
    ⟨below, tag, items, rows, rfl, htarget, hrows, rfl, rfl⟩ |
    ⟨_, tag, entries, rows, _, htarget, _, rfl, rfl⟩ := Document.unfold_cases h
  · refine follow (l := 0) htarget rfl ?_
    dsimp only
    split
    · exact pure []
    · exact fail_bind
  · refine follow htarget rfl ?_
    exact each hsteady (hrows.imp fun m row hrow => hread below m row rfl hrow)
  · refine follow htarget rfl ?_
    exact fail_bind

end Mirrors

end Read

namespace Content

open Read (Mirrors Steady Gives)

variable {d : Document}

/-- What a scalar without a tag of its own stands for does not depend on its place. -/
theorem mirrors_resolved {path path' : Path} {tag : Option Tag} {text : String} {style : Style} :
    Mirrors d 0 (match Scalar.resolve tag text style with
      | .ok (.wide n) => Read.fail path (.invalidType (.wide n) "any value")
      | .ok v => pure (.scalar v)
      | .error kind => Read.fail path (.invalidValue (.string text) kind) : Read Content)
      (match Scalar.resolve tag text style with
      | .ok (.wide n) => Read.fail path' (.invalidType (.wide n) "any value")
      | .ok v => pure (.scalar v)
      | .error kind => Read.fail path' (.invalidValue (.string text) kind) : Read Content) := by
  split
  · exact Mirrors.fail
  · exact Mirrors.pure _
  · exact Mirrors.fail

/-- Content is the same behind aliases. -/
theorem mirrors_read {depth : Nat} {n t : Node} {k : Nat} (h : d.unfold depth n = some (t, k)) :
    ∀ path path', Mirrors d k (read depth path n) (read depth path' t) := by
  induction depth generalizing n t k with
  | zero =>
    intro path path'
    unfold read
    obtain ⟨tag, text, style, htarget, rfl, rfl⟩ | ⟨_, _, _, _, hdepth, _⟩ |
      ⟨_, _, _, _, hdepth, _⟩ := Document.unfold_cases h
    · refine Mirrors.follow (l := 0) htarget rfl ?_
      exact Mirrors.fail.ite mirrors_resolved
    · cases hdepth
    · cases hdepth
  | succ depth ih =>
    intro path path'
    unfold read
    obtain ⟨tag, text, style, htarget, rfl, rfl⟩ |
      ⟨below, tag, items, rows, hdepth, htarget, hrows, rfl, rfl⟩ |
      ⟨below, tag, entries, rows, hdepth, htarget, hrows, rfl, rfl⟩ := Document.unfold_cases h
    · refine Mirrors.follow (l := 0) htarget rfl ?_
      exact Mirrors.fail.ite mirrors_resolved
    · cases hdepth
      refine Mirrors.follow htarget rfl ?_
      refine Mirrors.fail.ite (Mirrors.map (Mirrors.each (steady_read depth) ?_) ?_ _)
      · exact hrows.imp fun m row hrow => ih hrow
      · exact Steady.each _ (steady_read depth) _
    · cases hdepth
      refine Mirrors.follow htarget rfl ?_
      have hsteady : ∀ entry : Node × Node, Steady .void (do
          return (← read depth path' entry.1,
            ← read depth (Read.stepOf entry.1 :: path') entry.2)) :=
        fun entry => (steady_read depth _ _).pair (steady_read depth _ _)
      refine Mirrors.fail.ite (Mirrors.map ?_ (Steady.mapM fun entry _ => hsteady entry) _)
      rw [List.mapM_map]
      refine Mirrors.mapM (hrows.imp fun entry row hrow => ?_) fun row _ => hsteady _
      exact (ih hrow.1 _ _).pair (steady_read depth _ _) (ih hrow.2 _ _) (steady_read depth _ _)

end Content

end Yaml

namespace Entity

open Yaml (Content Document Node Path Read)
open Yaml.Read (Gives Mirrors Steady)

variable {d : Document} {depth : Nat} {child : Path → Node → Read Entity}

section Children

variable (hsteady : ∀ path n, Steady .void (child path n))
  (hchild : ∀ below m row, depth = below + 1 → d.unfold below m = some row →
    ∀ path path', Mirrors d row.2 (child path m) (child path' row.1))

include hsteady hchild

theorem mirrors_valueOf (name : String) {value t : Node} {k : Nat}
    (h : d.unfold depth value = some (t, k)) (path path' : Path) :
    Mirrors d k (valueOf depth child name path value) (valueOf depth child name path' t) := by
  unfold valueOf
  split
  · exact (Mirrors.textAs h _).map (Steady.textAs _ _ _) _
  · exact (Mirrors.variant h _).map (Steady.variant _ _ _) _
  · exact (Mirrors.listOf hsteady hchild h).map (Steady.listOf _ _ hsteady _) _
  · exact (Content.mirrors_read h _ _).map (Content.steady_read _ _ _) _

theorem mirrors_part {entry t : Node × Node} {k l : Nat}
    (hkey : d.unfold depth entry.1 = some (t.1, k))
    (hvalue : d.unfold depth entry.2 = some (t.2, l)) (path path' : Path) :
    Mirrors d (k + l) (part depth child path entry) (part depth child path' t) :=
  (Mirrors.textAs hkey _).bind (Steady.textAs _ _ _) fun name =>
    mirrors_valueOf hsteady hchild name hvalue _ _

end Children

/-- An entity is read from a mapping only. -/
theorem target_of_run {path : Path} {n : Node} {c : Nat} {r : Entity × Nat}
    (h : readWith depth child path n d c = .ok r) :
    ∃ tag entries, d.target n = .mapping tag entries := by
  obtain ⟨place, tag, entries, c₁, hfollow, -⟩ := readWith_eq_ok.mp h
  obtain ⟨hplace, -⟩ := Read.run_follow.mp hfollow
  exact ⟨tag, entries, (Prod.mk.inj hplace).2.symm⟩

/-- Nothing is read where there is no mapping. -/
theorem mirrors_of_not_mapping {n t : Node} {k : Nat} {path path' : Path}
    (hn : ∀ tag entries, d.target n ≠ .mapping tag entries)
    (ht : ∀ tag entries, Document.void.target t ≠ .mapping tag entries) :
    Mirrors d k (readWith depth child path n) (readWith depth child path' t) := by
  refine Mirrors.of_no_run (fun c r hrun => ?_) fun r hrun => ?_
  · obtain ⟨tag, entries, hmapping⟩ := target_of_run hrun
    exact hn tag entries hmapping
  · obtain ⟨tag, entries, hmapping⟩ := target_of_run hrun
    exact ht tag entries hmapping

/-- An entity is the same behind aliases if its children are. -/
theorem mirrors_readWith (hsteady : ∀ path n, Steady .void (child path n))
    (hchild : ∀ below m row, depth = below + 2 → d.unfold below m = some row →
      ∀ path path', Mirrors d row.2 (child path m) (child path' row.1))
    {n t : Node} {k : Nat} (h : d.unfold depth n = some (t, k)) (path path' : Path) :
    Mirrors d k (readWith depth child path n) (readWith depth child path' t) := by
  obtain ⟨tag, text, style, htarget, rfl, rfl⟩ | ⟨_, tag, items, rows, _, htarget, _, rfl, rfl⟩ |
    ⟨below, tag, entries, rows, rfl, htarget, hrows, rfl, rfl⟩ := Document.unfold_cases h
  · exact mirrors_of_not_mapping (fun _ _ hmapping => nomatch htarget.symm.trans hmapping) nofun
  · exact mirrors_of_not_mapping (fun _ _ hmapping => nomatch htarget.symm.trans hmapping) nofun
  · -- The parts are mirrored, and the same parts make the same entity.
    have hsteady' : ∀ entry, Steady .void (part below child path' entry) := steady_part hsteady
    have hparts : Mirrors d (rows.map fun row => row.1.2 + row.2.2).sum
        (entries.mapM (part below child (path.through n)))
        ((rows.map fun row => (row.1.1, row.2.1)).mapM (part below child path')) := by
      rw [List.mapM_map]
      refine Mirrors.mapM (hrows.imp fun entry row hrow => ?_) fun row _ => hsteady' _
      refine mirrors_part hsteady (fun lower m row hlower => ?_) hrow.1 hrow.2 _ _
      exact hchild lower m row (by omega)
    intro c e c'
    constructor
    · intro hrun
      obtain ⟨place, tag', entries', c₁, hfollow, hdepth, parts, hrun, hmade⟩ :=
        readWith_eq_ok.mp hrun
      obtain ⟨hplace, hroom, rfl⟩ := Read.run_follow.mp hfollow
      obtain ⟨rfl, hmapping⟩ := Prod.mk.inj hplace
      cases htarget.symm.trans hmapping.symm
      obtain ⟨hgives, hroom', rfl⟩ := (hparts _ _ _).mp hrun
      refine ⟨gives_readWith (k := 0) rfl hdepth hgives hmade, by omega, by omega⟩
    · rintro ⟨hgives, hroom, rfl⟩
      obtain ⟨place, tag', entries', c₁, hfollow, hdepth, parts, hrun, hmade⟩ :=
        readWith_eq_ok.mp (hgives.run 0)
      obtain ⟨hplace, -, -⟩ := Read.run_follow.mp hfollow
      cases hplace
      have hplain := Read.gives_void_of_run (Steady.mapM fun entry _ => hsteady' entry) hrun
      exact gives_readWith htarget hdepth (hparts.gives hplain) hmade c hroom

/-- Entities are the same behind aliases, at every depth. -/
theorem mirrors_read : ∀ {depth : Nat} {n t : Node} {k : Nat}, d.unfold depth n = some (t, k) →
    ∀ path path', Mirrors d k (read depth path n) (read depth path' t)
  | 0, n, t, k, h, path, path' | 1, n, t, k, h, path, path' => by
    rw [read_eq]
    exact mirrors_readWith (fun _ _ => Steady.tooDeep) (fun _ _ _ _ _ _ _ => Mirrors.tooDeep) h _ _
  | depth + 2, n, t, k, h, path, path' => by
    rw [read_eq]
    -- Children are two levels below: the list of them is a level of its own.
    refine mirrors_readWith (steady_read depth) (fun below m row hdepth hrow => ?_) h _ _
    cases hdepth
    exact mirrors_read hrow

end Entity

end FlatApi
