import FlatApi.TypeTable
import FlatApi.Proofs.Records
import Mathlib.Data.Finset.Card
import Mathlib.Data.List.Pairwise

/-!
# Histories of type tables

A table is made from the builtin types or from nothing by one insertion after the other, and a file
is such a row of insertions (`Made`).  What a table answers is told by this history: the last
insertion under a spelling counts, however the type was spelled then, and behind the insertions the
builtin types stand for themselves (`lookup_insertAll`, `latest?_self`).  Insertions under different
spellings do not meet, so their order does not matter (`latest?_perm`), and there is one entry for
each spelling (`size_insertAll`).

`tables_by_history` says this of all tables.
-/

namespace FlatApi.TypeTable

/-! ## Setting a value -/

/-- The value of a key is set for this key only. -/
theorem lookup_set (key value k : String) (entries : List (String × String)) :
    (set key value entries).lookup k = if k = key then some value else entries.lookup k := by
  fun_induction set key value entries with
  | case1 => exact Records.lookup_cons_eq (key, value) [] k
  | case2 v rest =>
    rw [Records.lookup_cons_eq, Records.lookup_cons_eq]
    split <;> rfl
  | case3 k' v rest hne ih =>
    rw [Records.lookup_cons_eq, Records.lookup_cons_eq, ih]
    by_cases hk : k = k'
    · rw [if_pos hk, if_pos hk, if_neg fun hkey => hne (hk.symm.trans hkey)]
    · rw [if_neg hk, if_neg hk]

/-- An entry is found under each spelling of its type, and changes nothing for others. -/
theorem lookup_insert (t : TypeTable) (newNative newType native : String) :
    (t.insert newNative newType).lookup native =
      if Spelling.normalize native = Spelling.normalize newNative then some newType
      else t.lookup native :=
  lookup_set _ _ _ _

/-! ## Rows of insertions -/

/-- The C type that was inserted last for a spelling of the type. -/
def latest? (pairs : List (String × String)) (native : String) : Option String :=
  (pairs.reverse.find? fun p => Spelling.normalize p.1 == Spelling.normalize native).map Prod.snd

/-- The entries are for different types. -/
def Distinct (pairs : List (String × String)) : Prop :=
  pairs.Pairwise fun p q => Spelling.normalize p.1 ≠ Spelling.normalize q.1

section Rows

variable {t : TypeTable} {native cType : String} {pairs pairs' : List (String × String)}

theorem insertAll_cons (p : String × String) :
    t.insertAll (p :: pairs) = (t.insert p.1 p.2).insertAll pairs := rfl

theorem insertAll_append : t.insertAll (pairs ++ pairs') = (t.insertAll pairs).insertAll pairs' :=
  List.foldl_append

theorem latest?_append :
    latest? (pairs ++ pairs') native = (latest? pairs' native).or (latest? pairs native) := by
  rw [latest?, List.reverse_append, List.find?_append, Option.map_or]
  rfl

theorem latest?_singleton (p : String × String) :
    latest? [p] native =
      if Spelling.normalize native = Spelling.normalize p.1 then some p.2 else none := by
  by_cases h : Spelling.normalize native = Spelling.normalize p.1
  · simp [latest?, h]
  · simp [latest?, h, Ne.symm h]

/-- The last insertion under a spelling counts, and otherwise what was there before. -/
theorem lookup_insertAll (t : TypeTable) (pairs : List (String × String)) (native : String) :
    (t.insertAll pairs).lookup native = (latest? pairs native).or (t.lookup native) := by
  induction pairs generalizing t with
  | nil => rfl
  | cons p pairs ih =>
    rw [insertAll_cons, ih, lookup_insert, ← List.singleton_append, latest?_append,
      latest?_singleton, Option.or_assoc]
    split <;> rfl

/-- The types that have an entry are those that were inserted. -/
theorem mem_keys_insertAll (t : TypeTable) (pairs : List (String × String)) (k : String) :
    k ∈ (t.insertAll pairs).entries.map Prod.fst ↔
      k ∈ t.entries.map Prod.fst ∨ k ∈ pairs.map fun p => Spelling.normalize p.1 := by
  induction pairs generalizing t with
  | nil => exact (or_iff_left List.not_mem_nil).symm
  | cons p pairs ih =>
    rw [insertAll_cons, ih, insert, mem_keys_set, List.map_cons, List.mem_cons, or_assoc,
      or_left_comm]

/-- There is one entry for each spelling. -/
theorem size_insertAll (pairs : List (String × String)) :
    (insertAll {} pairs).size = (pairs.map fun p => Spelling.normalize p.1).toFinset.card := by
  have hsame : ((insertAll {} pairs).entries.map Prod.fst).toFinset =
      (pairs.map fun p => Spelling.normalize p.1).toFinset := by
    ext k
    rw [List.mem_toFinset, List.mem_toFinset, mem_keys_insertAll]
    exact or_iff_right List.not_mem_nil
  rw [← hsame, List.toFinset_card_of_nodup (insertAll {} pairs).nodup, List.length_map, size]

theorem latest?_eq_none :
    latest? pairs native = none ↔
      ∀ p ∈ pairs, Spelling.normalize p.1 ≠ Spelling.normalize native := by
  simp [latest?]

theorem exists_of_latest? (h : latest? pairs native = some cType) :
    ∃ p ∈ pairs, Spelling.normalize p.1 = Spelling.normalize native ∧ p.2 = cType := by
  obtain ⟨p, hp, rfl⟩ := Option.map_eq_some_iff.mp h
  exact ⟨p, List.mem_reverse.mp (List.mem_of_find?_eq_some hp), by simpa using List.find?_some hp,
    rfl⟩

/-- Where entries are for different types, the one for a type is the latest. -/
theorem Distinct.latest?_eq_some (h : Distinct pairs) :
    latest? pairs native = some cType ↔
      ∃ p ∈ pairs, Spelling.normalize p.1 = Spelling.normalize native ∧ p.2 = cType := by
  refine ⟨exists_of_latest?, ?_⟩
  rintro ⟨p, hp, hnative, rfl⟩
  cases hlatest : latest? pairs native with
  | none => exact absurd hnative (latest?_eq_none.mp hlatest p hp)
  | some cType =>
    obtain ⟨q, hq, hsame, rfl⟩ := exists_of_latest? hlatest
    -- two entries for one type are one entry
    have heq : q = p := by
      have : Std.Symm fun p q : String × String =>
          Spelling.normalize p.1 ≠ Spelling.normalize q.1 :=
        ⟨fun _ _ => Ne.symm⟩
      by_contra hne
      exact List.Pairwise.forall h hq hp hne (hsame.trans hnative.symm)
    rw [heq]

theorem Distinct.perm (h : Distinct pairs) (hperm : pairs.Perm pairs') : Distinct pairs' :=
  (hperm.pairwise_iff Ne.symm).mp h

/-- Insertions under different spellings can be made in any order. -/
theorem latest?_perm (h : Distinct pairs) (hperm : pairs.Perm pairs') (native : String) :
    latest? pairs native = latest? pairs' native := by
  refine Option.ext fun cType => ?_
  rw [h.latest?_eq_some, (h.perm hperm).latest?_eq_some]
  simp only [hperm.mem_iff]

end Rows

/-! ## Builtin types -/

section Builtins

/-- The builtin types are in normal spelling. -/
theorem normalize_builtin : ∀ type ∈ builtinTypes, Spelling.normalize type = type := by
  decide +kernel

/-- Types in normal spelling that stand for themselves. -/
theorem latest?_self {types : List String} (h : ∀ type ∈ types, Spelling.normalize type = type)
    (native : String) :
    latest? (types.map fun type => (type, type)) native =
      if Spelling.normalize native ∈ types then some (Spelling.normalize native) else none := by
  cases hlatest : latest? (types.map fun type => (type, type)) native with
  | none =>
    rw [if_neg]
    intro hmem
    exact latest?_eq_none.mp hlatest _ (List.mem_map_of_mem hmem) (h _ hmem)
  | some cType =>
    obtain ⟨p, hp, hnative, rfl⟩ := exists_of_latest? hlatest
    obtain ⟨type, hmem, rfl⟩ := List.mem_map.mp hp
    rw [h type hmem] at hnative
    rw [← hnative, if_pos hmem]

end Builtins

/-! ## Histories -/

/-- How a table comes about: from nothing, from the builtin types or from a file, by one insertion
after the other.  The list of types are those that it started with, and the list of pairs what was
inserted, the last one behind the others. -/
inductive Made : List String → List (String × String) → TypeTable → Prop where
  | empty : Made [] [] {}
  | builtins : Made builtinTypes [] builtins
  | file (f : TypeFile) :
      Made builtinTypes (f.types.map fun e => (e.native, e.cType)) (ofFile f)
  | insert {types : List String} {pairs : List (String × String)} {t : TypeTable}
      (native cType : String) :
      Made types pairs t → Made types (pairs ++ [(native, cType)]) (t.insert native cType)

section Made

variable {types : List String} {pairs : List (String × String)} {t : TypeTable}

theorem Made.normal (h : Made types pairs t) : ∀ type ∈ types, Spelling.normalize type = type := by
  induction h with
  | empty => exact nofun
  | builtins | file => exact normalize_builtin
  | insert native cType _ ih => exact ih

/-- The types that a table started with can be seen as inserted first. -/
theorem Made.eq_insertAll (h : Made types pairs t) :
    t = insertAll {} ((types.map fun type => (type, type)) ++ pairs) := by
  induction h with
  | empty => rfl
  | builtins => rw [List.append_nil, TypeTable.builtins]
  | file f => rw [ofFile, TypeTable.builtins, insertAll_append]
  | insert native cType _ ih =>
    rw [← List.append_assoc, insertAll_append, ← ih]
    rfl

/-- A table answers with the last insertion, or else with the builtin type itself. -/
theorem Made.lookup_eq (h : Made types pairs t) (native : String) :
    t.lookup native = (latest? pairs native).or
      (if Spelling.normalize native ∈ types then some (Spelling.normalize native) else none) := by
  rw [h.eq_insertAll, insertAll_append, lookup_insertAll, lookup_insertAll, latest?_self h.normal]
  exact congrArg _ (Option.or_none ..)

theorem Made.size_eq (h : Made types pairs t) :
    t.size = ((types ++ pairs.map Prod.fst).map Spelling.normalize).toFinset.card := by
  rw [h.eq_insertAll, size_insertAll]
  simp [Function.comp_def]

end Made

/-- **Tables answer by their history.** -/
theorem tables_by_history {types : List String} {pairs : List (String × String)} {t : TypeTable}
    (h : Made types pairs t) :
    (∀ native, t.lookup native = (latest? pairs native).or
      (if Spelling.normalize native ∈ types then some (Spelling.normalize native) else none)) ∧
    t.size = ((types ++ pairs.map Prod.fst).map Spelling.normalize).toFinset.card ∧
    ∀ (front middle middle' back : List (String × String)) (t' : TypeTable),
      pairs = front ++ middle ++ back → Distinct middle → middle.Perm middle' →
      Made types (front ++ middle' ++ back) t' → ∀ native, t'.lookup native = t.lookup native := by
  refine ⟨h.lookup_eq, h.size_eq, ?_⟩
  intro front middle middle' back t' hpairs hdistinct hperm h' native
  rw [h.lookup_eq, h'.lookup_eq, hpairs]
  simp only [latest?_append, latest?_perm hdistinct hperm]

theorem tables_by_history_handles :
    let file : TypeFile := { types := [⟨"bool", "unsigned char"⟩] }
    let t := ((ofFile file).insert "Handle" "void*").insert "Node  *" "Node*"
    let t' := ((ofFile file).insert "Node  *" "Node*").insert "Handle" "void*"
    Made builtinTypes [("bool", "unsigned char"), ("Handle", "void*"), ("Node  *", "Node*")] t ∧
      t.lookup " bool" = some "unsigned char" ∧ t.lookup "unsigned\tint" = some "unsigned int" ∧
      t.lookup "Shape" = none ∧ t.size = 29 ∧ ∀ native, t'.lookup native = t.lookup native := by
  intro file t t'
  have hmade : Made builtinTypes
      [("bool", "unsigned char"), ("Handle", "void*"), ("Node  *", "Node*")] t :=
    .insert _ _ (.insert _ _ (.file file))
  have hmade' : Made builtinTypes
      [("bool", "unsigned char"), ("Node  *", "Node*"), ("Handle", "void*")] t' :=
    .insert _ _ (.insert _ _ (.file file))
  obtain ⟨hlookup, hsize, horder⟩ := tables_by_history hmade
  refine ⟨hmade, ?_, ?_, ?_, ?_, ?_⟩
  · rw [hlookup]
    decide +kernel
  · rw [hlookup]
    decide +kernel
  · rw [hlookup]
    decide +kernel
  · rw [hsize]
    decide +kernel
  · refine horder [("bool", "unsigned char")] [("Handle", "void*"), ("Node  *", "Node*")] _ [] t'
      rfl ?_ (.swap _ _ _) hmade'
    unfold Distinct
    decide +kernel

end FlatApi.TypeTable
