import FlatApi.Proofs.Listing
import FlatApi.Proofs.Statements

/-!
# The text of an artifact

The text is known line by line (`Options.sourceText`): what stands in front, a block for each
wrapper, and the line that closes it all.  The blocks come in the order of the symbols in the
exports, one for each symbol (`source_of_generate`).

A block is not indented and its statements are indented once.  That rests on two facts: the
listing is as deep behind a wrapper as before it, and no statement is empty, as an empty one would
not be indented.
-/

namespace FlatApi

open Forest (Node)

/-! ## Lines -/

/-- The lines in front of all wrappers. -/
def Options.frontLines (o : Options) : List String :=
  o.preamble ++ (if o.preamble.isEmpty then [] else [""]) ++ ["extern \"C\"", "\x7b", ""]

/-- What stands in front of each declaration. -/
def Options.exportHead (o : Options) : String :=
  match o.exportMacro with
  | none => ""
  | some m => if m.isEmpty then "" else m ++ " "

namespace Wrapper

/-- The head of the function, with nothing in front. -/
def head (w : Wrapper) : String :=
  w.returnType ++ " " ++ w.name ++ "(" ++ ", ".intercalate (w.params.map Param.text) ++ ")"

/-- The lines of a wrapper. -/
def block (o : Options) (w : Wrapper) : List String :=
  (o.exportHead ++ w.head) :: "\x7b" :: (w.body.map (o.indent ++ ·) ++ ["\x7d", ""])

/-- A declaration is the export macro and the head of the wrapper. -/
theorem declaration_eq (o : Options) (w : Wrapper) :
    w.declaration o.exportMacro = o.exportHead ++ w.head := by
  unfold declaration Options.exportHead head
  cases hmacro : o.exportMacro with
  | none => rfl
  | some m =>
    by_cases hempty : m = ""
    · subst hempty
      rfl
    · have hne : m.isEmpty = false := by
        rw [← Bool.not_eq_true, String.isEmpty_iff]
        exact hempty
      simp only [hne, Bool.false_eq_true, if_false]

end Wrapper

/-- The text of an artifact with these wrappers. -/
def Options.sourceText (o : Options) (ws : List Wrapper) : String :=
  "\n".intercalate (o.frontLines ++ ws.flatMap (·.block o) ++ ["\x7d"]) ++ "\n"

section Lines

theorem listing_start (s : Setting) :
    (Pass.ofSetting s).start.listing.lines = s.options.frontLines ∧
      (Pass.ofSetting s).start.listing.depth = 0 ∧
      (Pass.ofSetting s).start.listing.unit = s.options.indent := by
  have hrows : s.options.preamble.map (Listing.row s.options.indent 0) = s.options.preamble := by
    have hrow : Listing.row s.options.indent 0 = id := by
      funext text
      exact Listing.row_zero s.options.indent text
    rw [hrow, List.map_id]
  have hnew : ({ unit := s.options.indent } : Listing).lines = [] := rfl
  unfold Pass.start Options.frontLines
  cases hempty : s.options.preamble.isEmpty <;>
    simp [Pass.ofSetting, hempty, hnew, hrows, Listing.lines_line, Listing.lines_addLines,
      Listing.row_zero]

/-- At no depth, a wrapper whose statements are not empty makes up a block. -/
theorem wrapperRows_eq_block (o : Options) {w : Wrapper} (h : ∀ text ∈ w.body, text ≠ "") :
    Listing.wrapperRows w o.exportMacro o.indent 0 = w.block o := by
  have hbody : w.body.map (Listing.row o.indent (0 + 1)) = w.body.map (o.indent ++ ·) := by
    apply List.map_congr_left
    intro text htext
    have hne : text.isEmpty = false := by
      rw [← Bool.not_eq_true, String.isEmpty_iff]
      exact h text htext
    simp [Listing.row, Listing.indented, hne]
  rw [Listing.wrapperRows, Wrapper.block, hbody, Listing.row_zero, Listing.row_zero,
    Listing.row_zero, Wrapper.declaration_eq]

/-- The source is the text around the wrappers of all turns. -/
theorem source_eq_sourceText {s : Setting} {out : Output} {turns : List Turn}
    (h : out.OfTurns s turns) :
    out.source = s.options.sourceText (turns.flatMap (·.wrappers s.options)) := by
  obtain ⟨hlines, hdepth, hunit⟩ := listing_start s
  -- the depth is the same behind each wrapper, so that all rows are those of a wrapper at no depth
  have hblocks : (turns.flatMap (·.wrappers s.options)).flatMap (fun w =>
      Listing.wrapperRows w s.options.exportMacro s.options.indent 0) =
        (turns.flatMap (·.wrappers s.options)).flatMap (·.block s.options) := by
    apply List.flatMap_congr
    intro w hw
    obtain ⟨t, ht, hw⟩ := List.mem_flatMap.mp hw
    exact wrapperRows_eq_block s.options (Turn.body_ne_empty (h.job t ht) w hw)
  rw [h.source, Listing.contents, Listing.lines_line, Listing.lines_addWrappers,
    Listing.depth_addWrappers, hdepth, hunit, Listing.row_zero, hlines, hblocks,
    Options.sourceText]

end Lines

/-! ## Wrappers and symbols -/

section Symbols

theorem wrapperCount_eq_length (out : Output) :
    out.wrapperCount = (out.exports.flatMap (·.symbols)).length := by
  unfold Output.wrapperCount
  induction out.exports with
  | nil => rfl
  | cons e es ih => rw [List.foldr_cons, ih, List.flatMap_cons, List.length_append]

/-- The wrappers of a turn are what is emitted for its node. -/
theorem emit_of_turn {s : Setting} {t : Turn} (h : s.job t.node = .ok (some t.job)) :
    ∃ l l', Ledger.emit s l t.node = (.ok (t.wrappers s.options), l') :=
  ⟨{ names := t.names }, _, Pass.emit_of_some _ (Turn.draft_of_job h)⟩

/-- The wrappers of the turns, node by node, have the symbols of the exports. -/
theorem names_wrappers {s : Setting} {out : Output} {turns : List Turn}
    (h : out.OfTurns s turns) :
    (turns.map (·.wrappers s.options)).map (·.map (·.name)) = out.exports.map (·.symbols) := by
  rw [h.exports, List.map_map, List.map_map]
  apply List.map_congr_left
  intro t _
  exact t.map_name_wrappers s.options

end Symbols

/-- **The text of an artifact** consists of the lines in front, a block for each wrapper, and the
line that closes it.  The wrappers are those made for the exported nodes, in their order, and their
names are the symbols of the exports, in theirs. -/
theorem source_of_generate {es : List Entity} {types : String → Option String}
    {options : Options} {out : Output}
    (h : generate (.ofEntities es types options) = .ok out) :
    ∃ made : List (List Wrapper),
      List.Forall₂ (fun n ws =>
        ∃ l l', Ledger.emit (.ofEntities es types options) l n = (.ok ws, l'))
        (Entity.exported es) made ∧
      made.map (·.map (·.name)) = out.exports.map (·.symbols) ∧
      made.flatten.map (·.name) = out.exports.flatMap (·.symbols) ∧
      made.flatten.length = out.wrapperCount ∧
      out.source = options.sourceText made.flatten := by
  obtain ⟨turns, hturns⟩ := exists_turns h
  have hoptions : (Setting.ofEntities es types options).options = options := rfl
  have hnames := names_wrappers hturns
  have hsource := source_eq_sourceText hturns
  rw [hoptions] at hnames hsource
  have hflat : (turns.map (·.wrappers options)).flatten.map (·.name) =
      out.exports.flatMap (·.symbols) := by
    rw [List.map_flatten, hnames, List.flatMap_def]
  refine ⟨turns.map (·.wrappers options), ?_, hnames, hflat, ?_, ?_⟩
  · apply hturns.forall₂_exported
    intro t ht
    exact emit_of_turn (hturns.job t ht)
  · rw [wrapperCount_eq_length, ← hflat, List.length_map]
  · rw [hsource, List.flatMap_def]

/-- Options that show in every line, with an empty line in front. -/
def Options.banner : Options :=
  { preamble := ["#include <ui.h>", ""], exportMacro := some "API", indent := "\t" }

def Entity.easel : List Entity :=
  [{ name := "Shape", decl := .classType true, children :=
      [{ name := "Draw", decl := .memberFunction { isVirtual := true } }] }]

theorem source_of_easel :
    ∃ (out : Output) (made : List (List Wrapper)),
      generate (.ofEntities Entity.easel TypeTable.builtins.lookup .banner) = .ok out ∧
      made.flatten.map (·.name) = ["Shape_Draw", "set_ShapeEx_fnDraw"] ∧
      out.wrapperCount = 2 ∧
      out.source = Options.banner.sourceText made.flatten ∧
      out.source = "\n".intercalate
        ["#include <ui.h>", "", "", "extern \"C\"", "\x7b", "",
          "API void Shape_Draw(ShapeEx* cls)", "\x7b", "\tcls->Draw();", "\x7d", "",
          "API void set_ShapeEx_fnDraw(ShapeEx* cls, void* fn)", "\x7b",
          "\tcls->__overrides[\"Shape_Draw\"] = fn;", "\x7d", "", "\x7d", ""] := by
  have hrun : (generate (.ofEntities Entity.easel TypeTable.builtins.lookup
      .banner)).toOption.map (fun out => (out.exports.flatMap (·.symbols), out.source)) =
        some (["Shape_Draw", "set_ShapeEx_fnDraw"], "\n".intercalate
          ["#include <ui.h>", "", "", "extern \"C\"", "\x7b", "",
            "API void Shape_Draw(ShapeEx* cls)", "\x7b", "\tcls->Draw();", "\x7d", "",
            "API void set_ShapeEx_fnDraw(ShapeEx* cls, void* fn)", "\x7b",
            "\tcls->__overrides[\"Shape_Draw\"] = fn;", "\x7d", "", "\x7d", ""]) := by
    decide +kernel
  obtain ⟨out, hout, hparts⟩ := exists_ok_of_toOption hrun
  obtain ⟨hsymbols, htext⟩ := Prod.mk.inj hparts
  obtain ⟨made, -, -, hnames, hcount, hsource⟩ := source_of_generate hout
  rw [hsymbols] at hnames
  have htwo : made.flatten.length = 2 := by
    rw [← List.length_map, hnames]
    rfl
  exact ⟨out, made, hout, hnames, hcount.symm.trans htwo, hsource, htext⟩

end FlatApi
