import FlatApi.Proofs.Listing
import Mathlib.Data.List.Induction

/-!
# Listings that are written by any operations

Lines go behind those that are there, and each stands as deep as the listing was when it was written
(`lines_written_concat`, `lines_written_grow`).

The depth moves up and down with indents and dedents, except that a dedent does nothing where there
is no depth to take away (`Operation.depth_apply`).  So the depth is ahead of the balance of indents
and dedents by those dedents, and they are as many as the balance ever was below zero
(`lowest_written`).
-/

namespace FlatApi.Listing

/-! ## Operations -/

/-- What can be done to a listing. -/
inductive Operation where
  | line (text : String)
  | blank
  | indent
  | dedent
  | wrapper (w : Wrapper) (exportMacro : Option String)
  deriving DecidableEq

namespace Operation

def apply (l : Listing) : Operation → Listing
  | .line text => l.line text
  | .blank => l.blank
  | .indent => l.indent
  | .dedent => l.dedent
  | .wrapper w exportMacro => l.wrapper w exportMacro

/-- By how much the depth changes where there is enough of it. -/
def shift : Operation → Int
  | .indent => 1
  | .dedent => -1
  | .line _ | .blank | .wrapper _ _ => 0

/-- The lines that are written at a depth.  Nothing stands in front of an empty text. -/
def rows (unit : String) (depth : Nat) : Operation → List String
  | .line text => [row unit depth text]
  | .blank => [""]
  | .indent | .dedent => []
  | .wrapper w exportMacro =>
    indented unit depth (w.declaration exportMacro) :: indented unit depth "\x7b" ::
      (w.body.map (row unit (depth + 1)) ++ [indented unit depth "\x7d", ""])

end Operation

/-- The listing that operations make of an empty one. -/
def written (unit : String) (ops : List Operation) : Listing := ops.foldl Operation.apply { unit }

/-- The number of indents less the number of dedents. -/
def balance (ops : List Operation) : Int := (ops.count .indent : Int) - ops.count .dedent

/-- What the balance comes down to on the way through operations, from the start to the end. -/
structure Lowest (ops : List Operation) (low : Int) : Prop where
  reached : ∃ pre, pre <+: ops ∧ balance pre = low
  least : ∀ pre, pre <+: ops → low ≤ balance pre

/-! ## One operation -/

/-- The outermost level cannot be left. -/
theorem dedent_of_depth_zero {l : Listing} (h : l.depth = 0) : l.dedent = l := by
  cases l
  cases h
  rfl

theorem declaration_ne_empty (w : Wrapper) (exportMacro : Option String) :
    w.declaration exportMacro ≠ "" := by
  unfold Wrapper.declaration
  split <;> simp

theorem row_of_ne_empty (unit : String) (depth : Nat) {text : String} (h : text ≠ "") :
    row unit depth text = indented unit depth text := by
  rw [row, if_neg fun hempty => h (String.isEmpty_iff.mp hempty)]

namespace Operation

variable (l : Listing) (op : Operation)

theorem lines_apply : (op.apply l).lines = l.lines ++ op.rows l.unit l.depth := by
  cases op with
  | line text => exact l.lines_line text
  | blank => exact l.lines_blank
  | indent => exact (List.append_nil _).symm
  | dedent => exact (List.append_nil _).symm
  | wrapper w exportMacro =>
    show (l.wrapper w exportMacro).lines = _
    rw [lines_wrapper, wrapperRows, row_of_ne_empty _ _ (declaration_ne_empty w exportMacro),
      row_of_ne_empty _ _ (by decide), row_of_ne_empty _ _ (by decide)]
    rfl

theorem unit_apply : (op.apply l).unit = l.unit := by
  cases op <;> simp [apply]

/-- The depth changes as the balance does, unless there is none and some is to be taken away. -/
theorem depth_apply :
    ((op.apply l).depth : Int) = l.depth + op.shift ∨
      op = .dedent ∧ l.depth = 0 ∧ (op.apply l).depth = 0 := by
  cases op with
  | dedent =>
    by_cases h : l.depth = 0
    · right
      simp [apply, h]
    · left
      simp only [apply, shift, depth_dedent]
      omega
  | line | blank | indent | wrapper => simp [apply, shift]

theorem length_rows_wrapper (unit : String) (depth : Nat) (w : Wrapper)
    (exportMacro : Option String) :
    ((Operation.wrapper w exportMacro).rows unit depth).length = w.body.length + 4 := by
  simp [rows]

end Operation

/-! ## Rows of operations -/

section Rows

variable {unit : String} {ops pre post : List Operation} {op : Operation} {low : Int}

theorem written_append (unit : String) (pre post : List Operation) :
    written unit (pre ++ post) = post.foldl Operation.apply (written unit pre) :=
  List.foldl_append

theorem written_concat (unit : String) (ops : List Operation) (op : Operation) :
    written unit (ops ++ [op]) = op.apply (written unit ops) :=
  written_append unit ops [op]

theorem unit_written (unit : String) (ops : List Operation) : (written unit ops).unit = unit := by
  induction ops using List.reverseRecOn with
  | nil => rfl
  | append_singleton ops op ih => rw [written_concat, Operation.unit_apply, ih]

theorem lines_written_concat (unit : String) (ops : List Operation) (op : Operation) :
    (written unit (ops ++ [op])).lines =
      (written unit ops).lines ++ op.rows unit (written unit ops).depth := by
  rw [written_concat, Operation.lines_apply, unit_written]

/-- Lines that are written stay where they are. -/
theorem lines_written_grow (unit : String) (pre post : List Operation) :
    (written unit pre).lines <+: (written unit (pre ++ post)).lines := by
  induction post using List.reverseRecOn with
  | nil => simp
  | append_singleton post op ih =>
    rw [← List.append_assoc, lines_written_concat]
    exact ih.trans (List.prefix_append _ _)

theorem balance_concat (ops : List Operation) (op : Operation) :
    balance (ops ++ [op]) = balance ops + op.shift := by
  have hone : ([op].count .indent : Int) - [op].count .dedent = op.shift := by
    cases op <;> rfl
  unfold balance
  rw [List.count_append, List.count_append]
  omega

/-- The lowest balance stays where the next one is no lower. -/
theorem Lowest.concat_of_le (h : Lowest ops low) (hle : low ≤ balance (ops ++ [op])) :
    Lowest (ops ++ [op]) low := by
  obtain ⟨⟨pre, hpre, hlow⟩, hleast⟩ := h
  refine ⟨⟨pre, hpre.trans (List.prefix_append ops [op]), hlow⟩, ?_⟩
  intro pre hpre
  rcases List.prefix_concat_iff.mp hpre with rfl | hpre
  · exact hle
  · exact hleast pre hpre

theorem Lowest.concat_of_lt (h : Lowest ops low) (hlt : balance (ops ++ [op]) < low) :
    Lowest (ops ++ [op]) (balance (ops ++ [op])) := by
  refine ⟨⟨_, List.prefix_refl _, rfl⟩, ?_⟩
  intro pre hpre
  rcases List.prefix_concat_iff.mp hpre with rfl | hpre
  · exact Int.le_refl _
  · exact Int.le_of_lt (Int.lt_of_lt_of_le hlt (h.least pre hpre))

/-- The depth is what the balance is above its lowest. -/
theorem lowest_written (unit : String) (ops : List Operation) :
    Lowest ops (balance ops - (written unit ops).depth) := by
  induction ops using List.reverseRecOn with
  | nil =>
    refine ⟨⟨[], List.prefix_refl _, rfl⟩, ?_⟩
    intro pre hpre
    rw [List.prefix_nil.mp hpre]
    exact Int.le_refl _
  | append_singleton ops op ih =>
    have hbalance := balance_concat ops op
    rw [written_concat]
    rcases op.depth_apply (written unit ops) with hdepth | ⟨rfl, hnone, hdepth⟩
    · -- balance and depth move together, and the lowest stays
      have hlow : balance (ops ++ [op]) - ((op.apply (written unit ops)).depth : Int) =
          balance ops - (written unit ops).depth := by omega
      rw [hlow]
      exact ih.concat_of_le (by omega)
    · -- the balance was at its lowest and goes on falling
      rw [hdepth, Int.ofNat_zero, Int.sub_zero]
      refine ih.concat_of_lt ?_
      rw [Operation.shift] at hbalance
      omega

/-- A dedent without depth is as if it had not been. -/
theorem written_dedent_of_depth_zero (h : (written unit pre).depth = 0) (post : List Operation) :
    written unit (pre ++ .dedent :: post) = written unit (pre ++ post) := by
  rw [written_append, written_append, List.foldl_cons, Operation.apply, dedent_of_depth_zero h]

end Rows

/-- How operations make a listing, with a unit of indentation. -/
structure IsIndenting (unit : String) (written : List Operation → Listing) : Prop where
  /-- The depth is the balance less the lowest that it came down to. -/
  depth_eq : ∀ ops, ∃ low, Lowest ops low ∧ low ≤ 0 ∧
    ((written ops).depth : Int) = balance ops - low
  /-- A dedent without depth is as if it had not been, also for all that comes later. -/
  absorbed : ∀ pre post, (written pre).depth = 0 →
    written (pre ++ .dedent :: post) = written (pre ++ post)
  lines_nil : (written []).lines = []
  /-- What is written stands behind all that is there, at the depth of that moment. -/
  lines_concat : ∀ ops op,
    (written (ops ++ [op])).lines = (written ops).lines ++ op.rows unit (written ops).depth
  lines_grow : ∀ pre post, (written pre).lines <+: (written (pre ++ post)).lines
  length_wrapper : ∀ ops w exportMacro,
    (written (ops ++ [.wrapper w exportMacro])).lines.length =
      (written ops).lines.length + (w.body.length + 4)
  depth_wrapper : ∀ ops w exportMacro,
    (written (ops ++ [.wrapper w exportMacro])).depth = (written ops).depth

/-- **Indentation**, whatever is written and however deep. -/
theorem isIndenting_written (unit : String) : IsIndenting unit (written unit) where
  depth_eq ops := by
    have hlowest := lowest_written unit ops
    refine ⟨_, hlowest, hlowest.least [] List.nil_prefix, ?_⟩
    omega
  absorbed _ post h := written_dedent_of_depth_zero h post
  lines_nil := rfl
  lines_concat := lines_written_concat unit
  lines_grow := lines_written_grow unit
  length_wrapper ops w exportMacro := by
    rw [lines_written_concat, List.length_append, Operation.length_rows_wrapper]
  depth_wrapper ops w exportMacro := by
    rw [written_concat]
    exact Listing.depth_wrapper _ w exportMacro

/-- The first dedent is not made up for by the indent behind it. -/
example : (written "\t" [.dedent, .indent, .line "a", .line "", .dedent, .line "b"]).lines =
    ["\ta", "", "b"] := by decide +kernel

end FlatApi.Listing
