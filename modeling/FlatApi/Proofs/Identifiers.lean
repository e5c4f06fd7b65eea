import FlatApi.Proofs.Sanitizing
import FlatApi.Proofs.Turns

/-!
# Symbols are identifiers

* A symbol is a word of letters, digits and underscores, whatever it is made from
  (`Symbol.MadeFrom.isWord`).
* What a text begins with stays in front: its first character is replaced by an underscore or
  kept, and numbers are put behind.  So a symbol begins with a digit only if its text does
  (`Symbol.MadeFrom.startsWell`).
* A qualified name begins as the outermost scope with a name does, or as the node itself
  (`startsWell_qualifiedName`).  The other bases begin with letters.
-/

namespace FlatApi

open Forest (Node)

namespace Symbol

/-- The text holds letters, digits and underscores only. -/
def IsWord (x : String) : Prop := ∀ c ∈ x.toList, isSymbolChar c = true

-- by the list, as there may be an instance that tries all characters there are
instance (x : String) : Decidable (IsWord x) :=
  List.decidableBAll (fun c => isSymbolChar c = true) x.toList

def StartsWithDigit (x : String) : Prop := x.toList.head?.any Char.isDigit = true

instance (x : String) : Decidable (StartsWithDigit x) :=
  inferInstanceAs (Decidable (x.toList.head?.any Char.isDigit = true))

/-- The text is not empty and does not begin with a digit. -/
def StartsWell (x : String) : Prop := x ≠ "" ∧ ¬ StartsWithDigit x

instance (x : String) : Decidable (StartsWell x) :=
  inferInstanceAs (Decidable (x ≠ "" ∧ ¬ StartsWithDigit x))

def IsIdentifier (x : String) : Prop := IsWord x ∧ StartsWell x

/-! ## Characters -/

section Characters

/-- Words one behind the other are a word. -/
theorem IsWord.append {x y : String} (hx : IsWord x) (hy : IsWord y) : IsWord (x ++ y) := by
  intro c hc
  rw [String.toList_append] at hc
  rcases List.mem_append.mp hc with hc | hc
  · exact hx c hc
  · exact hy c hc

theorem isWord_toString (k : Nat) : IsWord (toString k) := by
  intro c hc
  rw [Nat.toString_eq_repr, Nat.toList_repr] at hc
  have hdigit : c.isDigit = true := Nat.isDigit_of_mem_toDigits (by omega) (by omega) hc
  simp [isSymbolChar, Char.isAlphanum, hdigit]

theorem isWord_sanitize (name : String) : IsWord (sanitize name) := by
  intro c hc
  rw [toList_sanitize] at hc
  exact isSymbolChar_iff.mpr (allowed_of_mem_sanitizeChars c hc)

end Characters

/-! ## First characters -/

section Starts

theorem startsWell_iff {x : String} :
    StartsWell x ↔ ∃ c rest, x.toList = c :: rest ∧ c.isDigit = false := by
  rw [StartsWell, StartsWithDigit, ne_eq, ← String.toList_eq_nil_iff]
  cases x.toList with
  | nil => simp
  | cons c rest => simp

theorem StartsWell.append {x : String} (h : StartsWell x) (y : String) : StartsWell (x ++ y) := by
  obtain ⟨c, rest, hx, hc⟩ := startsWell_iff.mp h
  have hxy : (x ++ y).toList = c :: (rest ++ y.toList) := by
    rw [String.toList_append, hx, List.cons_append]
  exact startsWell_iff.mpr ⟨c, _, hxy, hc⟩

/-- Sanitizing makes no digit of a first character that was none. -/
theorem StartsWell.sanitize {x : String} (h : StartsWell x) : StartsWell (sanitize x) := by
  obtain ⟨c, rest, hx, hc⟩ := startsWell_iff.mp h
  have hfirst : ∃ d ds, sanitizeChars (c :: rest) = d :: ds ∧ d.isDigit = false := by
    -- a pair of colons makes one underscore, and any other character is on its own
    unfold sanitizeChars
    split
    · exact ⟨_, _, rfl, by decide⟩
    · next heq =>
      cases heq
      refine ⟨_, _, rfl, ?_⟩
      split
      · exact hc
      · decide
    · next heq => cases heq
  obtain ⟨d, ds, hchars, hd⟩ := hfirst
  have hname : (Symbol.sanitize x).toList = d :: ds := by
    rw [Symbol.sanitize, String.toList_ofList, hx, hchars]
  exact startsWell_iff.mpr ⟨d, ds, hname, hd⟩

theorem startsWell_intercalate (sep : String) {parts : List String} (hne : parts ≠ [])
    (h : ∀ p ∈ parts, StartsWell p) : StartsWell (sep.intercalate parts) := by
  cases parts with
  | nil => exact absurd rfl hne
  | cons p parts =>
    have hp : StartsWell p := h p List.mem_cons_self
    cases parts with
    | nil =>
      rw [String.intercalate_singleton]
      exact hp
    | cons q parts =>
      rw [String.intercalate_cons_cons]
      exact (hp.append sep).append _

end Starts

/-! ## What is made from a text -/

namespace MadeFrom

variable {base x : String}

theorem isWord (h : MadeFrom base x) : IsWord x := by
  obtain ⟨k, rfl⟩ := h
  have hbase : IsWord (sanitize base) := isWord_sanitize base
  cases k with
  | zero => exact hbase
  | succ k => exact hbase.append (isWord_toString k)

theorem startsWell (h : MadeFrom base x) (hbase : StartsWell base) : StartsWell x := by
  obtain ⟨k, rfl⟩ := h
  cases k with
  | zero => exact hbase.sanitize
  | succ k => exact hbase.sanitize.append _

end MadeFrom

end Symbol

open FlatApi.Symbol (IsWord IsIdentifier StartsWell StartsWithDigit)

/-! ## Names of nodes -/

/-- Functions and methods, whose symbols begin as their qualified names do. -/
def Declaration.isCallable : Declaration → Bool
  | .freeFunction _ | .memberFunction _ => true
  | .memberVariable _ | .nameSpace | .classType _ | .other => false

/-- The node has a name, and neither this name nor that of a scope around it begins with a
digit. -/
def Forest.ProperlyNamed (f : Forest) (n : Node) : Prop :=
  n.name ≠ "" ∧ ¬ StartsWithDigit n.name ∧
    ∀ a ∈ f.ancestors n, a.decl.isScope = true → ¬ StartsWithDigit a.name

instance (f : Forest) (n : Node) : Decidable (f.ProperlyNamed n) :=
  inferInstanceAs (Decidable (n.name ≠ "" ∧ ¬ StartsWithDigit n.name ∧
    ∀ a ∈ f.ancestors n, a.decl.isScope = true → ¬ StartsWithDigit a.name))

/-- A qualified name starts as the outermost name does. -/
theorem startsWell_qualifiedName {f : Forest} {n : Node} (h : f.ProperlyNamed n) :
    StartsWell (f.qualifiedName n) := by
  obtain ⟨hne, hname, hscopes⟩ := h
  unfold Forest.qualifiedName
  refine Symbol.startsWell_intercalate "::" (by simp) fun p hp => ?_
  rcases List.mem_append.mp hp with hp | hp
  · obtain ⟨a, ha, rfl⟩ := List.mem_map.mp (List.mem_reverse.mp hp)
    obtain ⟨ha, hscope⟩ := List.mem_filter.mp ha
    simp only [Bool.and_eq_true, Bool.not_eq_true', String.isEmpty_eq_false_iff] at hscope
    exact ⟨hscope.2, hscopes a ha hscope.1⟩
  · rw [List.mem_singleton.mp hp]
    exact ⟨hne, hname⟩

/-! ## Symbols of nodes -/

section Symbols

variable {s : Setting} {n : Node} {e : Export}

/-- What the symbols of a node are made from: its qualified name, if it is called; a text that
begins with letters, for an override setter; or any text behind the head of an accessor. -/
theorem Setting.ExportedAs.symbol_cases (h : s.ExportedAs n e) {x : String}
    (hx : x ∈ e.symbols) :
    (n.decl.isCallable = true ∧ Symbol.MadeFrom (s.qualifiedName n) x) ∨
    (∃ rest, Symbol.MadeFrom ("set_" ++ rest) x) ∨
    ∃ base y, Symbol.MadeFrom base y ∧ (x = "get_" ++ y ∨ x = "set_" ++ y) := by
  obtain ⟨-, h⟩ := h
  cases hdecl : n.decl with
  | freeFunction f =>
    rw [hdecl] at h
    obtain ⟨-, y, hsymbols, hy⟩ := h
    rw [hsymbols, List.mem_singleton] at hx
    rw [hx]
    exact Or.inl ⟨rfl, hy⟩
  | memberFunction m =>
    rw [hdecl] at h
    cases hv : m.isVirtual with
    | true =>
      simp only [hv, if_true] at h
      obtain ⟨-, c, y, o, -, hsymbols, hy, ho⟩ := h
      rw [hsymbols] at hx
      rcases List.mem_cons.mp hx with rfl | hx
      · exact Or.inl ⟨rfl, hy⟩
      · rw [List.mem_singleton.mp hx]
        rw [String.append_assoc, String.append_assoc] at ho
        exact Or.inr (Or.inl ⟨_, ho⟩)
    | false =>
      simp only [hv, Bool.false_eq_true, if_false] at h
      obtain ⟨-, y, hsymbols, hy⟩ := h
      rw [hsymbols, List.mem_singleton] at hx
      rw [hx]
      exact Or.inl ⟨rfl, hy⟩
  | memberVariable type =>
    rw [hdecl] at h
    obtain ⟨-, c, y, -, hsymbols, hy⟩ := h
    rw [hsymbols] at hx
    rcases List.mem_cons.mp hx with rfl | hx
    · exact Or.inr (Or.inr ⟨_, y, hy, Or.inl rfl⟩)
    · exact Or.inr (Or.inr ⟨_, y, hy, Or.inr (List.mem_singleton.mp hx)⟩)
  | nameSpace | classType _ | other =>
    rw [hdecl] at h
    exact h.elim

theorem isWord_heads : IsWord "get_" ∧ IsWord "set_" := by
  constructor <;> decide

theorem startsWell_heads : StartsWell "get_" ∧ StartsWell "set_" := by
  constructor <;> decide

/-- All symbols of an exported entity are words. -/
theorem Setting.ExportedAs.isWord (h : s.ExportedAs n e) {x : String} (hx : x ∈ e.symbols) :
    IsWord x := by
  rcases h.symbol_cases hx with ⟨-, hx⟩ | ⟨rest, hx⟩ | ⟨base, y, hy, rfl | rfl⟩
  · exact hx.isWord
  · exact hx.isWord
  · exact isWord_heads.1.append hy.isWord
  · exact isWord_heads.2.append hy.isWord

/-- The symbols of a properly named node are identifiers; those of fields always are. -/
theorem Setting.ExportedAs.isIdentifier (h : s.ExportedAs n e)
    (hname : n.decl.isCallable = true → s.forest.ProperlyNamed n) {x : String}
    (hx : x ∈ e.symbols) : IsIdentifier x := by
  refine ⟨h.isWord hx, ?_⟩
  rcases h.symbol_cases hx with ⟨hcall, hx⟩ | ⟨rest, hx⟩ | ⟨base, y, -, rfl | rfl⟩
  · exact hx.startsWell (startsWell_qualifiedName (hname hcall))
  · exact hx.startsWell (startsWell_heads.2.append rest)
  · exact startsWell_heads.1.append y
  · exact startsWell_heads.2.append y

end Symbols

/-- **Symbols are identifiers.**  They are words of letters, digits and underscores, whatever the
names and the suffix consist of, and none is empty or begins with a digit if the functions and
methods that are exported are properly named. -/
theorem symbols_are_identifiers {es : List Entity} {types : String → Option String}
    {options : Options} {out : Output}
    (h : generate (.ofEntities es types options) = .ok out) :
    (∀ e ∈ out.exports, ∀ x ∈ e.symbols, IsWord x) ∧
    ((∀ n ∈ Entity.exported es, n.decl.isCallable = true →
        (Forest.ofEntities es).ProperlyNamed n) →
      ∀ e ∈ out.exports, ∀ x ∈ e.symbols, IsIdentifier x) := by
  obtain ⟨turns, hturns⟩ := exists_turns h
  have hentry : ∀ e ∈ out.exports, ∃ n ∈ Entity.exported es,
      (Setting.ofEntities es types options).ExportedAs n e := by
    intro e he
    rw [hturns.exports] at he
    obtain ⟨t, ht, rfl⟩ := List.mem_map.mp he
    refine ⟨t.node, ?_, hturns.exportedAs ht⟩
    have hnodes : turns.map (·.node) = Entity.exported es := hturns.nodes
    rw [← hnodes]
    exact List.mem_map_of_mem ht
  constructor
  · intro e he x hx
    obtain ⟨n, -, hn⟩ := hentry e he
    exact hn.isWord hx
  · intro hnames e he x hx
    obtain ⟨n, hmem, hn⟩ := hentry e he
    exact hn.isIdentifier (hnames n hmem) hx

/-- Two functions of one name in a scope without a name, and a field that only its class keeps from
beginning with a digit. -/
def Entity.exercises : List Entity :=
  [{ name := "", decl := .nameSpace, children :=
      [{ name := "Größe", decl := .freeFunction {} },
        { name := "Größe", decl := .freeFunction { returns := "int" } }] },
    { name := "Übung", decl := .classType true, children :=
      [{ name := "Draw", decl := .memberFunction { isVirtual := true } },
        { name := "2d", decl := .memberVariable "int" }] }]

theorem symbols_are_identifiers_exercises :
    (∀ n ∈ Entity.exported Entity.exercises, n.decl.isCallable = true →
      (Forest.ofEntities Entity.exercises).ProperlyNamed n) ∧
    ∃ out, generate (.ofEntities Entity.exercises TypeTable.builtins.lookup
        { wrapperSuffix := "Ω" }) = .ok out ∧
      out.exports.map (·.symbols) =
        [["Gr__e"], ["Gr__e0"], ["_bung_Draw", "set__bung__fnDraw"],
          ["get__bung_2d", "set__bung_2d"]] ∧
      ∀ e ∈ out.exports, ∀ x ∈ e.symbols, IsIdentifier x := by
  have hnames : ∀ n ∈ Entity.exported Entity.exercises, n.decl.isCallable = true →
      (Forest.ofEntities Entity.exercises).ProperlyNamed n := by decide +kernel
  have hrun : (generate (.ofEntities Entity.exercises TypeTable.builtins.lookup
      { wrapperSuffix := "Ω" })).toOption.map (fun out => out.exports.map (·.symbols)) =
        some [["Gr__e"], ["Gr__e0"], ["_bung_Draw", "set__bung__fnDraw"],
          ["get__bung_2d", "set__bung_2d"]] := by decide +kernel
  obtain ⟨out, hout, hsymbols⟩ := exists_ok_of_toOption hrun
  obtain ⟨-, hidentifiers⟩ := symbols_are_identifiers hout
  exact ⟨hnames, out, hout, hsymbols, hidentifiers hnames⟩

end FlatApi
