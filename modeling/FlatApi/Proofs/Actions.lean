import Mathlib.Data.List.Forall2

/-!
# Actions that can fail

A sequence gives a result if each of its parts does, and otherwise fails as the first part that
fails.  With a state, the next part starts in the state that the part before has left.
-/

namespace FlatApi

section Sequences

variable {ε α β : Type} {x : Except ε α}

/-- Two steps work if the first does and then the second. -/
theorem bind_eq_ok {f : α → Except ε β} {b : β} :
    (x >>= f) = .ok b ↔ ∃ a, x = .ok a ∧ f a = .ok b := by
  cases x <;> simp [bind, Except.bind]

/-- The refusal of two steps is that of the first, or that of the second behind a first that worked.
-/
theorem bind_eq_error {f : α → Except ε β} {r : ε} :
    (x >>= f) = .error r ↔ x = .error r ∨ ∃ a, x = .ok a ∧ f a = .error r := by
  cases x <;> simp [bind, Except.bind]

theorem bind_pure_eq_error {f : α → β} {r : ε} :
    (x >>= fun a => pure (f a)) = .error r ↔ x = .error r := by
  cases x <;> simp [bind, Except.bind, pure, Except.pure]

theorem map_eq_ok {f : α → β} {b : β} : (f <$> x) = .ok b ↔ ∃ a, x = .ok a ∧ f a = b := by
  cases x <;> simp [Functor.map, Except.map]

theorem map_eq_error {f : α → β} {r : ε} : (f <$> x) = .error r ↔ x = .error r := by
  cases x <;> simp [Functor.map, Except.map]

/-- A row of steps works if each of them does. -/
theorem mapM_eq_ok {f : α → Except ε β} {as : List α} {bs : List β} :
    as.mapM f = .ok bs ↔ List.Forall₂ (fun a b => f a = .ok b) as bs := by
  induction as generalizing bs with
  | nil =>
    rw [List.forall₂_nil_left_iff]
    constructor
    · intro h
      cases h
      rfl
    · intro h
      rw [h]
      rfl
  | cons a as ih =>
    rw [List.mapM_cons, List.forall₂_cons_left_iff]
    constructor
    · intro h
      obtain ⟨b, hb, h⟩ := bind_eq_ok.mp h
      obtain ⟨bs', hbs, h⟩ := bind_eq_ok.mp h
      cases h
      exact ⟨b, bs', hb, ih.mp hbs, rfl⟩
    · rintro ⟨b, bs', hb, hbs, rfl⟩
      exact bind_eq_ok.mpr ⟨b, hb, bind_eq_ok.mpr ⟨bs', ih.mpr hbs, rfl⟩⟩

theorem mapM_eq_some {f : α → Option β} {as : List α} {bs : List β} :
    as.mapM f = some bs ↔ List.Forall₂ (fun a b => f a = some b) as bs := by
  induction as generalizing bs with
  | nil => simp [eq_comm]
  | cons a as ih =>
    simp only [List.mapM_cons, List.forall₂_cons_left_iff, Option.bind_eq_bind, Option.pure_def,
      Option.bind_eq_some_iff, Option.some.injEq, ih, eq_comm (b := bs)]
    constructor
    · rintro ⟨b, hb, bs', hbs, rfl⟩
      exact ⟨b, bs', hb, hbs, rfl⟩
    · rintro ⟨b, bs', hb, hbs, rfl⟩
      exact ⟨b, hb, bs', hbs, rfl⟩

theorem exists_forall₂ {R : α → β → Prop} {as : List α} (h : ∀ a ∈ as, ∃ b, R a b) :
    ∃ bs, List.Forall₂ R as bs := by
  induction as with
  | nil => exact ⟨[], .nil⟩
  | cons a as ih =>
    obtain ⟨b, hb⟩ := h a List.mem_cons_self
    obtain ⟨bs, hbs⟩ := ih fun x hx => h x (List.mem_cons_of_mem _ hx)
    exact ⟨b :: bs, .cons hb hbs⟩

theorem forall₂_and_right {R : α → β → Prop} {P : β → Prop} {as : List α} {bs : List β}
    (h : List.Forall₂ (fun a b => P b ∧ R a b) as bs) :
    (∀ b ∈ bs, P b) ∧ List.Forall₂ R as bs := by
  induction h with
  | nil => exact ⟨nofun, .nil⟩
  | cons hab _ ih => exact ⟨List.forall_mem_cons.mpr ⟨hab.1, ih.1⟩, .cons hab.2 ih.2⟩

/-- The middle of a list, and what it is related to. -/
theorem exists_of_forall₂_append_cons {R : α → β → Prop} {front back : List α} {a : α}
    {bs : List β} (h : List.Forall₂ R (front ++ a :: back) bs) :
    ∃ before b after, bs = before ++ b :: after ∧ R a b ∧ ∀ a' b', R a' b' →
      List.Forall₂ R (front ++ a' :: back) (before ++ b' :: after) := by
  induction front generalizing bs with
  | nil =>
    obtain ⟨b, after, hb, hafter, rfl⟩ := List.forall₂_cons_left_iff.mp h
    exact ⟨[], b, after, rfl, hb, fun _ _ h => .cons h hafter⟩
  | cons x front ih =>
    obtain ⟨y, bs, hy, hbs, rfl⟩ := List.forall₂_cons_left_iff.mp h
    obtain ⟨before, b, after, rfl, hb, hrest⟩ := ih hbs
    exact ⟨y :: before, b, after, rfl, hb, fun a' b' h => .cons hy (hrest a' b' h)⟩

theorem forall₂_zipIdx {R : α → β → Prop} {as : List α} {bs : List β} (h : List.Forall₂ R as bs)
    (i : Nat) : List.Forall₂ (fun a b => R a.1 b.1 ∧ a.2 = b.2) (as.zipIdx i) (bs.zipIdx i) := by
  induction h generalizing i with
  | nil => exact .nil
  | cons hab _ ih => exact .cons ⟨hab, rfl⟩ (ih (i + 1))

/-- A result that was not refused, told by something that it has. -/
theorem exists_ok_of_toOption {f : α → β} {b : β} (h : x.toOption.map f = some b) :
    ∃ a, x = .ok a ∧ f a = b := by
  cases x with
  | error r => cases h
  | ok a => exact ⟨a, rfl, Option.some.inj h⟩

end Sequences

/-! ## Actions with a state -/

section States

variable {σ ε α β : Type} {s s' : σ}

/-- The answer of an action that starts in a state, and the state behind it. -/
def runFrom (s : σ) (a : ExceptT ε (StateM σ) α) : Except ε α × σ := (a.run.run s).run

/-- The second step starts from what the first one left, unless that was refused. -/
theorem runFrom_bind {a : ExceptT ε (StateM σ) α} {f : α → ExceptT ε (StateM σ) β} :
    runFrom s (a >>= f) =
      (match runFrom s a with
       | (.ok v, s') => runFrom s' (f v)
       | (.error x, s') => (.error x, s')) := by
  have hbind : (a >>= f).run.run s =
      ExceptT.bindCont f (runFrom s a).1 (runFrom s a).2 := rfl
  rw [runFrom, hbind]
  rcases runFrom s a with ⟨_ | _, s'⟩ <;> rfl

theorem runFrom_bind_of_ok {a : ExceptT ε (StateM σ) α} {f : α → ExceptT ε (StateM σ) β} {v : α}
    (h : runFrom s a = (.ok v, s')) : runFrom s (a >>= f) = runFrom s' (f v) := by
  rw [runFrom_bind, h]

theorem runFrom_bind_of_error {a : ExceptT ε (StateM σ) α} {f : α → ExceptT ε (StateM σ) β}
    {x : ε} (h : runFrom s a = (.error x, s')) : runFrom s (a >>= f) = (.error x, s') := by
  rw [runFrom_bind, h]

/-- An action that cannot fail, among others. -/
theorem runFrom_lift (act : StateM σ α) :
    runFrom s (liftM act : ExceptT ε (StateM σ) α) = (.ok (act.run s).1, (act.run s).2) := rfl

theorem run_bind (act : StateM σ α) (next : α → StateM σ β) :
    (act >>= next).run s = (next (act.run s).1).run (act.run s).2 := rfl

theorem run_run (a : ExceptT ε (StateM σ) α) : a.run.run s = runFrom s a := rfl

/-- A run that was refused did not give a result. -/
theorem error_ne_ok {x : ε} {v : α} : ((.error x, s) : Except ε α × σ) ≠ (.ok v, s') := by
  intro h
  cases congrArg Prod.fst h

end States

end FlatApi
