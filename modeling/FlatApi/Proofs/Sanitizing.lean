import FlatApi.Symbol
import Mathlib.Data.List.Basic

/-!
# What sanitizing does to a text

Colons are replaced in pairs from the left, so a run of them leaves half as many underscores,
rounded up (`sanitizeChars_run`).  Any other character is looked at on its own.  So a text is
sanitized run by run (`sanitized_iff`), and what is allowed in a symbol stays as it is
(`sanitizeChars_eq_self_iff`).

Where a text is cut in two, nothing but a run of colons can be cut.  The parts may be sanitized
apart unless the first ends in a colon and the second begins with one (`Sanitized.append`), and
even then unless both parts of the run are odd (`sanitizeChars_cut_iff`).
-/

namespace FlatApi.Symbol

/-! ## Texts run by run -/

/-- A letter or a digit of ASCII, or an underscore. -/
def Allowed (c : Char) : Prop :=
  ('A' ≤ c ∧ c ≤ 'Z') ∨ ('a' ≤ c ∧ c ≤ 'z') ∨ ('0' ≤ c ∧ c ≤ '9') ∨ c = '_'

instance (c : Char) : Decidable (Allowed c) := inferInstanceAs (Decidable (_ ∨ _ ∨ _ ∨ _))

def BeginsWithColon (x : String) : Prop := x.toList.head? = some ':'

def EndsInColon (x : String) : Prop := x.toList.getLast? = some ':'

instance (x : String) : Decidable (BeginsWithColon x) :=
  inferInstanceAs (Decidable (x.toList.head? = some ':'))

instance (x : String) : Decidable (EndsInColon x) :=
  inferInstanceAs (Decidable (x.toList.getLast? = some ':'))

/-- The second text is the first one, sanitized run by run.  No colon stands right behind a run, and
none right before it, for a colon is read as part of a run only. -/
inductive Sanitized : List Char → List Char → Prop
  | nil : Sanitized [] []
  | run {n : Nat} {s t : List Char} (hn : 0 < n) (hs : s.head? ≠ some ':') (h : Sanitized s t) :
      Sanitized (List.replicate n ':' ++ s) (List.replicate ((n + 1) / 2) '_' ++ t)
  | replaced {c : Char} {s t : List Char} (hc : ¬ Allowed c) (hcolon : c ≠ ':')
      (h : Sanitized s t) : Sanitized (c :: s) ('_' :: t)
  | kept {c : Char} {s t : List Char} (hc : Allowed c) (h : Sanitized s t) :
      Sanitized (c :: s) (c :: t)

/-! ## Characters and runs -/

section Runs

variable {c : Char} {s t : List Char}

/-- The characters that are kept are those that a symbol may have. -/
theorem isSymbolChar_iff : isSymbolChar c = true ↔ Allowed c := by
  have hranges : isSymbolChar c = (decide ('A' ≤ c ∧ c ≤ 'Z') ||
      decide ('a' ≤ c) && decide (c ≤ 'z') || decide ('0' ≤ c) && decide (c ≤ '9') ||
        c == '_') := rfl
  simp [hranges, Allowed, or_assoc]

theorem not_allowed_colon : ¬ Allowed ':' := by decide

theorem Allowed.ne_colon (h : Allowed c) : c ≠ ':' := by
  rintro rfl
  exact not_allowed_colon h

/-- Outside runs of colons each character is kept or becomes an underscore. -/
theorem sanitizeChars_cons_of_ne (h : c ≠ ':') (s : List Char) :
    sanitizeChars (c :: s) = (if isSymbolChar c then c else '_') :: sanitizeChars s := by
  rw [sanitizeChars]
  rintro r rfl
  exact absurd rfl h

/-- A colon that is left over is replaced like any other character. -/
theorem sanitizeChars_colon (hs : s.head? ≠ some ':') :
    sanitizeChars (':' :: s) = '_' :: sanitizeChars s := by
  rw [sanitizeChars]
  · rfl
  · rintro r - rfl
    exact hs rfl

/-- A run of colons becomes an underscore for each pair, and one for a colon that is left over. -/
theorem sanitizeChars_run (hs : s.head? ≠ some ':') :
    ∀ n, sanitizeChars (List.replicate n ':' ++ s) =
      List.replicate ((n + 1) / 2) '_' ++ sanitizeChars s
  | 0 => rfl
  | 1 => sanitizeChars_colon hs
  | n + 2 => by
    have hhalf : (n + 2 + 1) / 2 = (n + 1) / 2 + 1 := by omega
    rw [hhalf, List.replicate_succ, List.replicate_succ, List.replicate_succ, List.cons_append,
      List.cons_append, List.cons_append, sanitizeChars, sanitizeChars_run hs n]

/-- Sanitizing goes on behind the colons that were read. -/
theorem sanitized_run_append (s : List Char) :
    ∀ n, Sanitized (List.replicate n ':' ++ s) (sanitizeChars (List.replicate n ':' ++ s)) := by
  induction s with
  | nil =>
    intro n
    have hend : ([] : List Char).head? ≠ some ':' := by simp
    rw [sanitizeChars_run hend]
    cases n with
    | zero => exact .nil
    | succ n => exact .run (Nat.succ_pos n) hend .nil
  | cons c s ih =>
    intro n
    by_cases hc : c = ':'
    · have hlonger := ih (n + 1)
      rw [List.replicate_succ', List.append_assoc] at hlonger
      rw [hc]
      exact hlonger
    · -- the run ends here, and the character is looked at on its own
      have hhead : (c :: s).head? ≠ some ':' := fun h => hc (Option.some.inj h)
      have hrest : Sanitized (c :: s) (sanitizeChars (c :: s)) := by
        rw [sanitizeChars_cons_of_ne hc]
        by_cases hallowed : Allowed c
        · rw [if_pos (isSymbolChar_iff.mpr hallowed)]
          exact .kept hallowed (ih 0)
        · rw [if_neg fun h => hallowed (isSymbolChar_iff.mp h)]
          exact .replaced hallowed hc (ih 0)
      rw [sanitizeChars_run hhead]
      cases n with
      | zero => exact hrest
      | succ n => exact .run (Nat.succ_pos n) hhead hrest

/-- There is one text that is the other one, sanitized. -/
theorem sanitized_iff : Sanitized s t ↔ sanitizeChars s = t := by
  constructor
  · intro h
    induction h with
    | nil => rfl
    | run _ hs _ ih => rw [sanitizeChars_run hs, ih]
    | replaced hc hcolon _ ih =>
      rw [sanitizeChars_cons_of_ne hcolon, if_neg fun h => hc (isSymbolChar_iff.mp h), ih]
    | kept hc _ ih =>
      rw [sanitizeChars_cons_of_ne hc.ne_colon, if_pos (isSymbolChar_iff.mpr hc), ih]
  · rintro rfl
    exact sanitized_run_append s 0

end Runs

/-! ## Texts that stay as they are -/

section Fixed

variable {s t : List Char}

theorem Sanitized.allowed (h : Sanitized s t) : ∀ c ∈ t, Allowed c := by
  induction h with
  | nil => exact nofun
  | run _ _ _ ih =>
    intro c hc
    rcases List.mem_append.mp hc with hc | hc
    · rw [List.eq_of_mem_replicate hc]
      decide
    · exact ih c hc
  | replaced _ _ _ ih => exact List.forall_mem_cons.mpr ⟨by decide, ih⟩
  | kept hc _ ih => exact List.forall_mem_cons.mpr ⟨hc, ih⟩

theorem sanitized_self (h : ∀ c ∈ s, Allowed c) : Sanitized s s := by
  induction s with
  | nil => exact .nil
  | cons c s ih =>
    obtain ⟨hc, hs⟩ := List.forall_mem_cons.mp h
    exact .kept hc (ih hs)

theorem allowed_of_mem_sanitizeChars : ∀ c ∈ sanitizeChars s, Allowed c :=
  (sanitized_iff.mpr rfl).allowed

theorem sanitizeChars_eq_self_iff : sanitizeChars s = s ↔ ∀ c ∈ s, Allowed c := by
  rw [← sanitized_iff]
  exact ⟨Sanitized.allowed, sanitized_self⟩

theorem sanitizeChars_idem (s : List Char) : sanitizeChars (sanitizeChars s) = sanitizeChars s :=
  sanitizeChars_eq_self_iff.mpr allowed_of_mem_sanitizeChars

end Fixed

/-! ## Texts in parts -/

section Parts

variable {a a' b b' : List Char}

/-- Parts are sanitized apart unless a colon stands on both sides of the cut. -/
theorem Sanitized.append (ha : Sanitized a a') (hb : Sanitized b b')
    (h : a.getLast? ≠ some ':' ∨ b.head? ≠ some ':') : Sanitized (a ++ b) (a' ++ b') := by
  induction ha with
  | nil => exact hb
  | @run n s t hn hs _ ih =>
    rw [List.append_assoc, List.append_assoc]
    cases s with
    | nil =>
      -- the run stands at the end, and goes on only if the second part begins with a colon
      have hlast : (List.replicate n ':' ++ []).getLast? = some ':' := by
        rw [List.append_nil, List.getLast?_replicate, if_neg (Nat.ne_of_gt hn)]
      have hhead : b.head? ≠ some ':' := h.resolve_left fun hne => hne hlast
      exact .run hn hhead (ih (.inr hhead))
    | cons c s =>
      refine .run hn hs (ih (h.imp_left fun hlast => ?_))
      rwa [List.getLast?_append_of_ne_nil _ (List.cons_ne_nil c s)] at hlast
  | replaced hc hcolon _ ih =>
    refine .replaced hc hcolon (ih (h.imp_left fun hlast hcolon' => hlast ?_))
    rw [List.getLast?_cons, hcolon', Option.getD_some]
  | kept hc _ ih =>
    refine .kept hc (ih (h.imp_left fun hlast hcolon' => hlast ?_))
    rw [List.getLast?_cons, hcolon', Option.getD_some]

/-- A text can be cut anywhere but inside a run of colons. -/
theorem sanitizeChars_append (h : a.getLast? ≠ some ':' ∨ b.head? ≠ some ':') :
    sanitizeChars (a ++ b) = sanitizeChars a ++ sanitizeChars b :=
  sanitized_iff.mp ((sanitized_iff.mpr rfl).append (sanitized_iff.mpr rfl) h)

/-- A run of `p + q` colons is replaced otherwise than one of `p` and one of `q` exactly if both
numbers are odd. -/
theorem sanitizeChars_cut_iff (ha : a.getLast? ≠ some ':') (hb : b.head? ≠ some ':') (p q : Nat) :
    sanitizeChars ((a ++ List.replicate p ':') ++ (List.replicate q ':' ++ b)) =
        sanitizeChars (a ++ List.replicate p ':') ++ sanitizeChars (List.replicate q ':' ++ b) ↔
      ¬ (p % 2 = 1 ∧ q % 2 = 1) := by
  have hrun : ∀ n, sanitizeChars (List.replicate n ':') = List.replicate ((n + 1) / 2) '_' := by
    intro n
    have hn := sanitizeChars_run (s := []) (by simp) n
    rwa [List.append_nil, sanitizeChars, List.append_nil] at hn
  have hwhole : sanitizeChars ((a ++ List.replicate p ':') ++ (List.replicate q ':' ++ b)) =
      sanitizeChars a ++ (List.replicate ((p + q + 1) / 2) '_' ++ sanitizeChars b) := by
    rw [List.append_assoc, ← List.append_assoc (List.replicate p ':'),
      List.replicate_append_replicate, sanitizeChars_append (.inl ha), sanitizeChars_run hb]
  rw [hwhole, sanitizeChars_append (.inl ha), hrun, sanitizeChars_run hb, List.append_assoc,
    List.append_cancel_left_eq, ← List.append_assoc (List.replicate _ '_'),
    List.replicate_append_replicate, List.append_cancel_right_eq]
  simp only [List.replicate_inj, or_true, and_true]
  omega

end Parts

/-! ## Symbols -/

/-- So many colons. -/
def colons (n : Nat) : String := String.ofList (List.replicate n ':')

/-- How a text is sanitized. -/
structure IsSanitizing (sanitize : String → String) : Prop where
  /-- Each run of colons is replaced by half as many underscores, rounded up, any other character
  that is not allowed by one underscore, and all else is kept. -/
  eq_iff : ∀ s t, sanitize s = t ↔ Sanitized s.toList t.toList
  idem : ∀ s, sanitize (sanitize s) = sanitize s
  fixed_iff : ∀ s, sanitize s = s ↔ ∀ c ∈ s.toList, Allowed c
  append : ∀ a b, ¬ EndsInColon a ∨ ¬ BeginsWithColon b →
    sanitize (a ++ b) = sanitize a ++ sanitize b
  /-- Where a run is cut, the parts may be sanitized apart unless both are odd. -/
  cut_iff : ∀ a p q b, ¬ EndsInColon a → ¬ BeginsWithColon b →
    (sanitize ((a ++ colons p) ++ (colons q ++ b)) =
      sanitize (a ++ colons p) ++ sanitize (colons q ++ b) ↔ ¬ (p % 2 = 1 ∧ q % 2 = 1))

section Texts

theorem toList_sanitize (s : String) : (sanitize s).toList = sanitizeChars s.toList := by
  rw [sanitize, String.toList_ofList]

theorem sanitize_eq_iff {s t : String} : sanitize s = t ↔ sanitizeChars s.toList = t.toList := by
  rw [← toList_sanitize, String.toList_inj]

/-- Two names can be sanitized one by one unless colons meet between them. -/
theorem sanitize_append {a b : String} (h : ¬ EndsInColon a ∨ ¬ BeginsWithColon b) :
    sanitize (a ++ b) = sanitize a ++ sanitize b := by
  rw [sanitize_eq_iff, String.toList_append, String.toList_append, toList_sanitize,
    toList_sanitize]
  exact sanitizeChars_append h

end Texts

/-- **Sanitizing.** -/
theorem isSanitizing_sanitize : IsSanitizing sanitize where
  eq_iff s t := by rw [sanitize_eq_iff, sanitized_iff]
  idem s := by rw [sanitize_eq_iff, toList_sanitize, sanitizeChars_idem]
  fixed_iff s := by rw [sanitize_eq_iff, sanitizeChars_eq_self_iff]
  append _ _ h := sanitize_append h
  cut_iff a p q b ha hb := by
    simp only [sanitize_eq_iff, String.toList_append, toList_sanitize, colons,
      String.toList_ofList]
    exact sanitizeChars_cut_iff ha hb p q

/-- A run of three colons, and one of a single colon. -/
example : sanitize "a:::b:Größe" = "a__b_Gr__e" := by decide +kernel

end FlatApi.Symbol
