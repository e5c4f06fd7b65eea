import FlatApi.Forest

/-!
# What is known of the nodes

While wrappers are made, a record is kept for each node that was looked at: the symbol it was
given, and whether another class stands in for it.  The records are sorted by node.
-/

namespace FlatApi

structure Record where
  functionName : Option String := none
  hasWrapper : Bool := false
  deriving DecidableEq

namespace Record

/-- The record of a node that nothing was done to yet. -/
def ofNode (n : Forest.Node) : Record := { hasWrapper := n.decl.hasWrapper }

end Record

namespace Records

/-- The numbers of the entries rise. -/
def Rising (es : List (Nat × Record)) : Prop := es.Pairwise fun a b => a.1 < b.1

theorem rising_nil : Rising [] := List.Pairwise.nil

/-- Changes the record of a node, or puts a new one in its place among the sorted ones. -/
def update (id : Nat) (new : Record) (change : Record → Record) :
    List (Nat × Record) → List (Nat × Record)
  | [] => [(id, change new)]
  | (i, r) :: rest =>
    if id < i then (id, change new) :: (i, r) :: rest
    else if id = i then (i, change r) :: rest
    else (i, r) :: update id new change rest

section Update

variable {id : Nat} {new : Record} {change : Record → Record} {es : List (Nat × Record)}

/-- What a change adds is about its own number. -/
theorem mem_update {e : Nat × Record} (h : e ∈ update id new change es) :
    e.1 = id ∨ e ∈ es := by
  induction es with
  | nil => exact Or.inl (congrArg Prod.fst (List.mem_singleton.mp h))
  | cons d es ih =>
    obtain ⟨i, r⟩ := d
    rw [update] at h
    split at h
    · rcases List.mem_cons.mp h with rfl | h
      · exact Or.inl rfl
      · exact Or.inr h
    · split at h
      · next hid =>
        rcases List.mem_cons.mp h with rfl | h
        · exact Or.inl hid.symm
        · exact Or.inr (List.mem_cons_of_mem _ h)
      · rcases List.mem_cons.mp h with rfl | h
        · exact Or.inr List.mem_cons_self
        · exact (ih h).imp_right (List.mem_cons_of_mem _)

/-- A change keeps the entries sorted. -/
theorem Rising.update (h : Rising es) : Rising (update id new change es) := by
  induction es with
  | nil => exact List.pairwise_singleton _ _
  | cons d es ih =>
    obtain ⟨i, r⟩ := d
    obtain ⟨hfirst, hrest⟩ := List.pairwise_cons.mp h
    rw [Records.update]
    split
    · next hlt =>
      refine List.pairwise_cons.mpr ⟨fun e he => ?_, h⟩
      rcases List.mem_cons.mp he with rfl | he
      · exact hlt
      · exact Nat.lt_trans hlt (hfirst e he)
    · split
      · exact List.pairwise_cons.mpr ⟨hfirst, hrest⟩
      · refine List.pairwise_cons.mpr ⟨fun e he => ?_, ih hrest⟩
        rcases mem_update he with heq | he
        · show i < e.1
          omega
        · exact hfirst e he

end Update

end Records

/-- The records of the nodes that were looked at, sorted by node. -/
@[ext]
structure Records where
  entries : List (Nat × Record) := []
  rising : Records.Rising entries := by exact Records.rising_nil

namespace Records

def get? (r : Records) (id : Nat) : Option Record := r.entries.lookup id

/-- Makes sure that a node has a record. -/
def touch (r : Records) (n : Forest.Node) : Records :=
  { entries := update n.id (.ofNode n) id r.entries, rising := r.rising.update }

/-- Notes the symbol of a node. -/
def setName (r : Records) (n : Forest.Node) (name : String) : Records :=
  { entries := update n.id (.ofNode n) (fun d => { d with functionName := some name }) r.entries
    rising := r.rising.update }

def functionName? (r : Records) (id : Nat) : Option String := (r.get? id).bind (·.functionName)

end Records

end FlatApi
