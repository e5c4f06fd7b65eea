import FlatApi.Listing
import Mathlib.Data.List.Basic

/-!
# What a listing consists of

* Whatever is written goes behind the lines that are there (`lines_line`, `lines_addLines`,
  `lines_wrapper`).
* A wrapper leaves the depth as it was (`depth_wrapper`).
* The text of a listing is its lines, each with a line end (`contents_eq_join`).
-/

namespace FlatApi.Listing

variable (l : Listing)

/-- A text as it stands in a listing. -/
def row (unit : String) (depth : Nat) (text : String) : String :=
  if text.isEmpty then "" else indented unit depth text

/-! ## Single lines -/

section Lines

@[simp]
theorem lines_blank : l.blank.lines = l.lines ++ [""] := List.reverse_cons

@[simp]
theorem depth_blank : l.blank.depth = l.depth := rfl

@[simp]
theorem unit_blank : l.blank.unit = l.unit := rfl

@[simp]
theorem lines_indent : l.indent.lines = l.lines := rfl

@[simp]
theorem depth_indent : l.indent.depth = l.depth + 1 := rfl

@[simp]
theorem unit_indent : l.indent.unit = l.unit := rfl

@[simp]
theorem lines_dedent : l.dedent.lines = l.lines := rfl

@[simp]
theorem depth_dedent : l.dedent.depth = l.depth - 1 := rfl

@[simp]
theorem unit_dedent : l.dedent.unit = l.unit := rfl

@[simp]
theorem depth_line (text : String) : (l.line text).depth = l.depth := by
  unfold line
  split <;> rfl

@[simp]
theorem unit_line (text : String) : (l.line text).unit = l.unit := by
  unfold line
  split <;> rfl

/-- A line goes to the end, behind as many units as the text is deep. -/
theorem lines_line (text : String) :
    (l.line text).lines = l.lines ++ [row l.unit l.depth text] := by
  unfold line row
  split
  · exact l.lines_blank
  · exact List.reverse_cons

theorem row_zero (unit text : String) : row unit 0 text = text := by
  unfold row indented
  split
  · next h => exact (String.isEmpty_iff.mp h).symm
  · simp

theorem addLines_cons (text : String) (texts : List String) :
    l.addLines (text :: texts) = (l.line text).addLines texts := rfl

@[simp]
theorem depth_addLines (texts : List String) : (l.addLines texts).depth = l.depth := by
  induction texts generalizing l with
  | nil => rfl
  | cons text texts ih => rw [addLines_cons, ih, depth_line]

@[simp]
theorem unit_addLines (texts : List String) : (l.addLines texts).unit = l.unit := by
  induction texts generalizing l with
  | nil => rfl
  | cons text texts ih => rw [addLines_cons, ih, unit_line]

theorem lines_addLines (texts : List String) :
    (l.addLines texts).lines = l.lines ++ texts.map (row l.unit l.depth) := by
  induction texts generalizing l with
  | nil => exact (List.append_nil _).symm
  | cons text texts ih =>
    rw [addLines_cons, ih, lines_line, unit_line, depth_line, List.append_assoc]
    rfl

end Lines

/-! ## Wrappers -/

section Wrappers

variable (w : Wrapper) (ws : List Wrapper) (exportMacro : Option String)

/-- The lines of a wrapper: its declaration, its body between braces, and an empty line. -/
def wrapperRows (unit : String) (depth : Nat) : List String :=
  row unit depth (w.declaration exportMacro) :: row unit depth "\x7b" ::
    (w.body.map (row unit (depth + 1)) ++ [row unit depth "\x7d", ""])

@[simp]
theorem depth_wrapper : (l.wrapper w exportMacro).depth = l.depth := by
  simp [wrapper]

@[simp]
theorem unit_wrapper : (l.wrapper w exportMacro).unit = l.unit := by
  simp [wrapper]

theorem lines_wrapper :
    (l.wrapper w exportMacro).lines = l.lines ++ wrapperRows w exportMacro l.unit l.depth := by
  simp [wrapper, lines_line, lines_addLines, wrapperRows]

/-- Writes wrappers one behind the other. -/
def addWrappers (l : Listing) (ws : List Wrapper) (exportMacro : Option String) : Listing :=
  ws.foldl (fun l w => l.wrapper w exportMacro) l

theorem addWrappers_cons :
    l.addWrappers (w :: ws) exportMacro = (l.wrapper w exportMacro).addWrappers ws exportMacro :=
  rfl

theorem addWrappers_append (vs : List Wrapper) :
    l.addWrappers (vs ++ ws) exportMacro =
      (l.addWrappers vs exportMacro).addWrappers ws exportMacro :=
  List.foldl_append

@[simp]
theorem depth_addWrappers : (l.addWrappers ws exportMacro).depth = l.depth := by
  induction ws generalizing l with
  | nil => rfl
  | cons w ws ih => rw [addWrappers_cons, ih, depth_wrapper]

@[simp]
theorem unit_addWrappers : (l.addWrappers ws exportMacro).unit = l.unit := by
  induction ws generalizing l with
  | nil => rfl
  | cons w ws ih => rw [addWrappers_cons, ih, unit_wrapper]

/-- Wrappers add their rows to the end, one after the other. -/
theorem lines_addWrappers :
    (l.addWrappers ws exportMacro).lines =
      l.lines ++ ws.flatMap fun w => wrapperRows w exportMacro l.unit l.depth := by
  induction ws generalizing l with
  | nil => exact (List.append_nil _).symm
  | cons w ws ih =>
    rw [addWrappers_cons, ih, lines_wrapper, unit_wrapper, depth_wrapper, List.append_assoc,
      List.flatMap_cons]

end Wrappers

/-! ## The text -/

section Contents

/-- Lines, each with a line end. -/
def textOf (lines : List String) : String := String.join (lines.map (· ++ "\n"))

theorem textOf_append (ls ms : List String) : textOf (ls ++ ms) = textOf ls ++ textOf ms := by
  rw [textOf, List.map_append, String.join_append]
  rfl

/-- Lines with ends between them and one behind the last are lines that all have ends. -/
theorem intercalate_append_lineEnd {ls : List String} (h : ls ≠ []) :
    "\n".intercalate ls ++ "\n" = textOf ls := by
  induction ls with
  | nil => exact absurd rfl h
  | cons text ls ih =>
    cases ls with
    | nil => simp [textOf]
    | cons next ls =>
      have hrest := ih (List.cons_ne_nil next ls)
      rw [String.intercalate_cons_cons, String.append_assoc, hrest]
      exact String.join_cons.symm

/-- The text of a listing with at least one line. -/
theorem contents_eq_textOf (h : l.lines ≠ []) : l.contents = textOf l.lines :=
  intercalate_append_lineEnd h

end Contents

end FlatApi.Listing
