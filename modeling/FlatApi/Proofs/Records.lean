import FlatApi.Record
import Mathlib.Data.List.Basic

/-!
# Records by number

* A change of a record is seen under the number that it is about and nowhere else (`get?_touch`,
  `get?_setName`).
* A walk looks at nodes in the order of their numbers and at their parents.  The records of the
  first nodes are then a row without gaps (`Records.ofList`): a new node goes to its end, and a
  parent is in it already.
-/

namespace FlatApi

open Forest (Node)

namespace Records

/-! ## Changes of entries -/

section Update

variable {id : Nat} {new : Record} {change : Record → Record} {es : List (Nat × Record)}

theorem lookup_cons_eq {κ ν : Type} [DecidableEq κ] (e : κ × ν) (es : List (κ × ν)) (j : κ) :
    (e :: es).lookup j = if j = e.1 then some e.2 else es.lookup j := by
  rw [List.lookup_cons]
  by_cases hj : j = e.1
  · rw [if_pos hj, beq_iff_eq.mpr hj]
  · rw [if_neg hj, beq_eq_false_iff_ne.mpr hj]

theorem lookup_of_lt {j : Nat} (h : ∀ e ∈ es, j < e.1) : es.lookup j = none := by
  rw [List.lookup_eq_none_iff]
  intro e he
  exact bne_iff_ne.mpr (Nat.ne_of_lt (h e he))

/-- A change is seen under its number and nowhere else. -/
theorem lookup_update (h : Rising es) (j : Nat) :
    (update id new change es).lookup j =
      if j = id then some (change ((es.lookup id).getD new)) else es.lookup j := by
  induction es with
  | nil => exact lookup_cons_eq _ _ j
  | cons d es ih =>
    obtain ⟨i, r⟩ := d
    obtain ⟨hfirst, hrest⟩ := List.pairwise_cons.mp h
    rw [update]
    -- the entry goes in front of `i`, or it is that of `i`, or it is behind
    split
    · next hlt =>
      have hnone : ((i, r) :: es).lookup id = none := by
        refine lookup_of_lt fun e he => ?_
        rcases List.mem_cons.mp he with rfl | he
        · exact hlt
        · exact Nat.lt_trans hlt (hfirst e he)
      rw [hnone]
      exact lookup_cons_eq _ _ j
    · split
      · next hid =>
        subst hid
        simp only [lookup_cons_eq, if_true, Option.getD_some]
        by_cases hj : j = id
        · rw [if_pos hj, if_pos hj]
        · rw [if_neg hj, if_neg hj, if_neg hj]
      · next hid =>
        simp only [lookup_cons_eq, ih hrest, if_neg hid]
        by_cases hj : j = i
        · subst hj
          rw [if_pos rfl, if_pos rfl, if_neg (Ne.symm hid)]
        · rw [if_neg hj, if_neg hj]

/-- Entries with lower numbers stay in front. -/
theorem update_append {done : List (Nat × Record)} (h : ∀ e ∈ done, e.1 < id) :
    update id new change (done ++ es) = done ++ update id new change es := by
  induction done with
  | nil => rfl
  | cons d done ih =>
    obtain ⟨i, r⟩ := d
    have hlt : i < id := h (i, r) List.mem_cons_self
    rw [List.cons_append, update, if_neg (by omega), if_neg (by omega),
      ih fun e he => h e (List.mem_cons_of_mem _ he)]
    rfl

end Update

/-! ## Changes of records -/

section Changes

variable {r : Records} {n : Node}

/-- A record that is there stays, and the node has one afterwards. -/
theorem get?_touch (r : Records) (n : Node) (j : Nat) :
    (r.touch n).get? j = if j = n.id then some ((r.get? n.id).getD (.ofNode n)) else r.get? j :=
  lookup_update r.rising j

theorem get?_setName (r : Records) (n : Node) (name : String) (j : Nat) :
    (r.setName n name).get? j =
      if j = n.id then
        some { (r.get? n.id).getD (.ofNode n) with functionName := some name }
      else r.get? j :=
  lookup_update r.rising j

theorem functionName?_setName (r : Records) (n : Node) (name : String) :
    (r.setName n name).functionName? n.id = some name := by
  rw [functionName?, get?_setName, if_pos rfl]
  rfl

theorem get?_touch_of_some {j : Nat} {x : Record} (hx : r.get? j = some x) :
    (r.touch n).get? j = some x := by
  rw [get?_touch]
  by_cases hj : j = n.id
  · rw [if_pos hj, ← hj, hx]
    rfl
  · rw [if_neg hj, hx]

/-- What touching a node adds is the record of that node. -/
theorem get?_touch_of_none {j : Nat} {x : Record} (hnone : r.get? j = none)
    (hx : (r.touch n).get? j = some x) : j = n.id ∧ x = .ofNode n := by
  rw [get?_touch] at hx
  by_cases hj : j = n.id
  · rw [if_pos hj, ← hj, hnone] at hx
    exact ⟨hj, (Option.some.inj hx).symm⟩
  · rw [if_neg hj, hnone] at hx
    cases hx

end Changes

/-! ## Records without gaps -/

theorem rising_zipIdx (rs : List Record) : ∀ k, Rising ((rs.zipIdx k).map Prod.swap) := by
  induction rs with
  | nil => exact fun _ => List.Pairwise.nil
  | cons x rs ih =>
    intro k
    refine List.pairwise_cons.mpr ⟨fun e he => ?_, ih (k + 1)⟩
    obtain ⟨d, hd, rfl⟩ := List.mem_map.mp he
    exact Nat.lt_of_succ_le (List.le_snd_of_mem_zipIdx hd)

/-- The records of the nodes `0`, `1`, … -/
def ofList (rs : List Record) : Records :=
  { entries := rs.zipIdx.map Prod.swap, rising := rising_zipIdx rs 0 }

section OfList

variable {rs : List Record} {n : Node}

theorem lt_of_mem_ofList {e : Nat × Record} (h : e ∈ (ofList rs).entries) : e.1 < rs.length := by
  obtain ⟨d, hd, rfl⟩ := List.mem_map.mp h
  exact List.snd_lt_of_mem_zipIdx hd

theorem entries_ofList_append (rs more : List Record) :
    (ofList (rs ++ more)).entries =
      (ofList rs).entries ++ (more.zipIdx rs.length).map Prod.swap := by
  show (rs ++ more).zipIdx.map Prod.swap = _
  rw [List.zipIdx_append, List.map_append, Nat.zero_add]
  rfl

theorem lookup_zipIdx (rs : List Record) (j : Nat) :
    ∀ k, ((rs.zipIdx k).map Prod.swap).lookup (k + j) = rs[j]? := by
  induction rs generalizing j with
  | nil => exact fun _ => rfl
  | cons x rs ih =>
    intro k
    rw [List.zipIdx_cons, List.map_cons, lookup_cons_eq]
    cases j with
    | zero => exact if_pos rfl
    | succ j =>
      have hne : k + (j + 1) ≠ k := by omega
      have hnext : k + (j + 1) = k + 1 + j := by omega
      rw [Prod.fst_swap, if_neg hne, hnext, List.getElem?_cons_succ]
      exact ih j (k + 1)

theorem get?_ofList (rs : List Record) (j : Nat) : (ofList rs).get? j = rs[j]? := by
  have h := lookup_zipIdx rs j 0
  rwa [Nat.zero_add] at h

/-- A change of the first record behind some others leaves those as they are. -/
theorem update_ofList_append {id : Nat} (hid : id = rs.length) (new : Record)
    (change : Record → Record) (more : List Record) :
    update id new change (ofList (rs ++ more)).entries =
      (ofList (rs ++ match more with
        | [] => [change new]
        | x :: rest => change x :: rest)).entries := by
  have hlt : ∀ e ∈ (ofList rs).entries, e.1 < id := fun e he => hid ▸ lt_of_mem_ofList he
  rw [entries_ofList_append, entries_ofList_append, update_append hlt]
  cases more with
  | nil =>
    rw [← hid]
    rfl
  | cons x rest =>
    rw [List.zipIdx_cons, List.map_cons, Prod.swap_prod_mk, ← hid, update, if_neg (Nat.lt_irrefl _),
      if_pos rfl]
    rfl

/-- The next node goes to the end. -/
theorem touch_ofList_next (h : n.id = rs.length) :
    (ofList rs).touch n = ofList (rs ++ [.ofNode n]) := by
  have hupdate := update_ofList_append h (.ofNode n) id []
  rw [List.append_nil] at hupdate
  exact Records.ext hupdate

/-- A node that has a record already changes nothing. -/
theorem touch_ofList_old (h : n.id < rs.length) : (ofList rs).touch n = ofList rs := by
  obtain ⟨done, x, rest, rfl, hlen⟩ : ∃ done x rest, rs = done ++ x :: rest ∧ n.id = done.length :=
    ⟨rs.take n.id, rs[n.id], rs.drop (n.id + 1), by simp, by simp; omega⟩
  exact Records.ext (update_ofList_append hlen (.ofNode n) id (x :: rest))

theorem setName_ofList_last {x : Record} (h : n.id = rs.length) (name : String) :
    (ofList (rs ++ [x])).setName n name =
      ofList (rs ++ [{ x with functionName := some name }]) :=
  Records.ext
    (update_ofList_append h (.ofNode n) (fun d => { d with functionName := some name }) [x])

end OfList

end Records

end FlatApi
