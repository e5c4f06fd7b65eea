import FlatApi.Spelling
import Mathlib.Data.List.Chain

/-!
# Normal spellings

A normal spelling has the characters of the spelling that are no white space, and one blank between
two of them exactly if there was any white space between them and the second one is no mark, that is
no star and no ampersand (`normalOf_iff`).  So two spellings have the same normal form exactly if
they agree in these characters and in where they are parted, apart from what is right before marks
(`normalizeChars_eq_iff`).

All this is read off the glyphs of a text: its characters that are no white space, each with the
answer to whether white space parts it from the one before.  Words are joined by writing the glyphs
(`intercalate_words`), and a blank before a mark is dropped by joining the mark to the glyph before
(`dropSpaceBefore_write`), which makes no new work for the other mark.
-/

namespace FlatApi.Spelling

open Text (isSpace words)

/-! ## Characters and gaps -/

/-- The characters that are no white space. -/
def ink (s : List Char) : List Char := s.filter fun c => !isSpace c

/-- Of the characters that are no white space, number `k` and the next one, `d`, have white space
between them. -/
def Parted (s : List Char) (k : Nat) (d : Char) : Prop :=
  ∃ front c w back, s = front ++ c :: (w ++ d :: back) ∧ (ink front).length = k ∧
    isSpace c = false ∧ isSpace d = false ∧ ink w = [] ∧ w ≠ []

/-- White space stands inside only, as single blanks. -/
structure Tidy (t : List Char) : Prop where
  blank : ∀ c ∈ t, isSpace c = true → c = ' '
  single : t.IsChain fun a b => isSpace a = true → isSpace b = false
  head : ∀ c ∈ t.head?, isSpace c = false
  last : ∀ c ∈ t.getLast?, isSpace c = false

/-- A star or an ampersand, which follows the glyph before it. -/
def IsMark (c : Char) : Prop := c = '*' ∨ c = '&'

instance (c : Char) : Decidable (IsMark c) := inferInstanceAs (Decidable (_ ∨ _))

/-- The second text is the normal form of the first one. -/
structure NormalOf (s t : List Char) : Prop where
  tidy : Tidy t
  ink_eq : ink t = ink s
  parted_iff : ∀ k d, Parted t k d ↔ Parted s k d ∧ ¬ IsMark d

section Ink

theorem isSpace_blank : isSpace ' ' = true := rfl

variable {c : Char} {s t : List Char}

theorem ink_cons_of_space (h : isSpace c = true) : ink (c :: s) = ink s :=
  List.filter_cons_of_neg (by simp [h])

theorem ink_cons_of_ink (h : isSpace c = false) : ink (c :: s) = c :: ink s :=
  List.filter_cons_of_pos (by simp [h])

theorem ink_append : ink (s ++ t) = ink s ++ ink t := List.filter_append ..

theorem ink_eq_nil : ink s = [] ↔ ∀ c ∈ s, isSpace c = true := by
  simp [ink, List.filter_eq_nil_iff]

/-- The character number `k` that is no white space. -/
theorem exists_split {k : Nat} (h : k < (ink s).length) :
    ∃ front c back, s = front ++ c :: back ∧ isSpace c = false ∧ (ink front).length = k := by
  induction s generalizing k with
  | nil => exact absurd h (Nat.not_lt_zero k)
  | cons c s ih =>
    cases hc : isSpace c with
    | true =>
      rw [ink_cons_of_space hc] at h
      obtain ⟨front, d, back, rfl, hd, hk⟩ := ih h
      exact ⟨c :: front, d, back, rfl, hd, by rw [ink_cons_of_space hc, hk]⟩
    | false =>
      cases k with
      | zero => exact ⟨[], c, s, rfl, hc, rfl⟩
      | succ k =>
        rw [ink_cons_of_ink hc] at h
        obtain ⟨front, d, back, rfl, hd, hk⟩ := ih (Nat.lt_of_succ_lt_succ h)
        exact ⟨c :: front, d, back, rfl, hd, by rw [ink_cons_of_ink hc, List.length_cons, hk]⟩

/-- The character number `k` that is no white space and the next one. -/
theorem exists_neighbours {k : Nat} (h : k + 1 < (ink s).length) :
    ∃ front c w d back, s = front ++ c :: (w ++ d :: back) ∧ (ink front).length = k ∧
      isSpace c = false ∧ isSpace d = false ∧ ink w = [] := by
  obtain ⟨front, c, rest, rfl, hc, hk⟩ := exists_split (Nat.lt_of_succ_lt h)
  rw [ink_append, ink_cons_of_ink hc, List.length_append, List.length_cons, hk] at h
  obtain ⟨w, d, back, rfl, hd, hw⟩ := exists_split (s := rest) (k := 0) (by omega)
  exact ⟨front, c, w, d, back, rfl, hk, hc, hd, List.length_eq_zero_iff.mp hw⟩

end Ink

/-! ## Glyphs -/

/-- A character that is no white space. -/
structure Glyph where
  /-- White space parts it from the glyph before. -/
  parted : Bool
  char : Char
  ink : isSpace char = false

/-- What stands before the rest of a text. -/
inductive Before where
  /-- No glyph. -/
  | nothing
  | glyph
  /-- White space, and a glyph before it. -/
  | space

namespace Before

def parts : Before → Bool
  | nothing | glyph => false
  | space => true

def addSpace : Before → Before
  | nothing => nothing
  | glyph | space => space

def add (b : Before) (c : Char) : Before := if isSpace c then b.addSpace else glyph

end Before

/-- The glyphs of a text, read from left to right. -/
def glyphsFrom (b : Before) : List Char → List Glyph
  | [] => []
  | c :: r =>
    if h : isSpace c = true then glyphsFrom b.addSpace r
    else ⟨b.parts, c, eq_false_of_ne_true h⟩ :: glyphsFrom .glyph r

/-- The glyphs of a whole text. -/
def glyphs (s : List Char) : List Glyph := glyphsFrom .nothing s

namespace Glyph

def chars (g : Glyph) : List Char := if g.parted then [' ', g.char] else [g.char]

/-- Joined to the glyph before if it is the mark. -/
def join (mark : Char) (g : Glyph) : Glyph := { g with parted := g.parted && g.char != mark }

def joinMarks (g : Glyph) : Glyph := (g.join '*').join '&'

end Glyph

/-- A text with these glyphs. -/
def write (gs : List Glyph) : List Char := gs.flatMap Glyph.chars

/-- The first glyph is not parted from anything. -/
def Whole (gs : List Glyph) : Prop := ∀ g ∈ gs.head?, g.parted = false

/-- The glyph behind number `k` is `d`, and it is parted. -/
def PartedAt (gs : List Glyph) (k : Nat) (d : Char) : Prop :=
  ∃ g, gs[k + 1]? = some g ∧ g.parted = true ∧ g.char = d

section Reading

variable {b : Before} {c : Char} {s t w : List Char}

theorem glyphsFrom_cons_of_space (h : isSpace c = true) :
    glyphsFrom b (c :: s) = glyphsFrom b.addSpace s := by
  rw [glyphsFrom, dif_pos h]

theorem glyphsFrom_cons_of_ink (h : isSpace c = false) :
    glyphsFrom b (c :: s) = ⟨b.parts, c, h⟩ :: glyphsFrom .glyph s := by
  rw [glyphsFrom, dif_neg (ne_true_of_eq_false h)]

/-- Reading goes on from what stands before. -/
theorem glyphsFrom_append (s t : List Char) :
    glyphsFrom b (s ++ t) = glyphsFrom b s ++ glyphsFrom (s.foldl Before.add b) t := by
  induction s generalizing b with
  | nil => rfl
  | cons c s ih =>
    rw [List.cons_append, List.foldl_cons]
    cases hc : isSpace c with
    | true =>
      rw [glyphsFrom_cons_of_space hc, glyphsFrom_cons_of_space hc, ih, Before.add, if_pos hc]
    | false =>
      rw [glyphsFrom_cons_of_ink hc, glyphsFrom_cons_of_ink hc, ih, Before.add,
        if_neg (ne_true_of_eq_false hc), List.cons_append]

theorem addSpace_addSpace : b.addSpace.addSpace = b.addSpace := by cases b <;> rfl

/-- However much white space there is, it counts as one. -/
theorem glyphsFrom_space_append (hw : ink w = []) (hne : w ≠ []) :
    glyphsFrom b (w ++ s) = glyphsFrom b.addSpace s := by
  induction w generalizing b with
  | nil => exact absurd rfl hne
  | cons c w ih =>
    have hc : isSpace c = true := ink_eq_nil.mp hw c List.mem_cons_self
    rw [List.cons_append, glyphsFrom_cons_of_space hc]
    by_cases hw' : w = []
    · rw [hw', List.nil_append]
    · rw [ink_cons_of_space hc] at hw
      rw [ih hw hw', addSpace_addSpace]

theorem map_char_glyphsFrom : (glyphsFrom b s).map Glyph.char = ink s := by
  induction s generalizing b with
  | nil => rfl
  | cons c s ih =>
    cases hc : isSpace c with
    | true => rw [glyphsFrom_cons_of_space hc, ink_cons_of_space hc, ih]
    | false => rw [glyphsFrom_cons_of_ink hc, ink_cons_of_ink hc, List.map_cons, ih]

theorem length_glyphsFrom : (glyphsFrom b s).length = (ink s).length := by
  rw [← map_char_glyphsFrom (b := b), List.length_map]

theorem glyphsFrom_eq_nil (h : ink s = []) : glyphsFrom b s = [] := by
  rw [← List.length_eq_zero_iff, length_glyphsFrom, h, List.length_nil]

/-- White space at the beginning is behind no glyph. -/
theorem foldl_add_nothing (hw : ink w = []) : w.foldl Before.add .nothing = .nothing := by
  rw [ink_eq_nil] at hw
  induction w with
  | nil => rfl
  | cons c w ih =>
    obtain ⟨hc, hw⟩ := List.forall_mem_cons.mp hw
    rw [List.foldl_cons, Before.add, if_pos hc]
    exact ih hw

/-- Where white space begins or ends a text, it is not seen. -/
theorem glyphs_trim {v : List Char} (hv : ink v = []) (hw : ink w = []) :
    glyphs (v ++ s ++ w) = glyphs s := by
  rw [glyphs, glyphsFrom_append, glyphsFrom_append, glyphsFrom_eq_nil hv, glyphsFrom_eq_nil hw,
    foldl_add_nothing hv, List.nil_append, List.append_nil, glyphs]

theorem whole_glyphs (s : List Char) : Whole (glyphs s) := by
  intro g h
  rw [glyphs] at h
  induction s with
  | nil => cases h
  | cons c s ih =>
    cases hc : isSpace c with
    | true =>
      rw [glyphsFrom_cons_of_space hc] at h
      exact ih h
    | false =>
      rw [glyphsFrom_cons_of_ink hc] at h
      cases h
      rfl

end Reading

/-! ## Gaps between glyphs -/

section Gaps

variable {s t front back w : List Char} {c d : Char}

/-- A glyph is parted from the one before it if there is white space between them. -/
theorem getElem?_glyphs (hc : isSpace c = false) (hd : isSpace d = false) (hw : ink w = []) :
    (glyphs (front ++ c :: (w ++ d :: back)))[(ink front).length + 1]? =
      some ⟨!w.isEmpty, d, hd⟩ := by
  have hgap : glyphsFrom .glyph (w ++ d :: back) =
      ⟨!w.isEmpty, d, hd⟩ :: glyphsFrom .glyph back := by
    by_cases hne : w = []
    · rw [hne, List.nil_append, glyphsFrom_cons_of_ink hd]
      rfl
    · rw [glyphsFrom_space_append hw hne, glyphsFrom_cons_of_ink hd]
      cases w with
      | nil => exact absurd rfl hne
      | cons => rfl
  rw [glyphs, glyphsFrom_append, ← length_glyphsFrom (b := .nothing),
    List.getElem?_append_right (Nat.le_add_right _ _), Nat.add_sub_cancel_left,
    glyphsFrom_cons_of_ink hc, hgap]
  rfl

/-- The gaps of a text are those of its glyphs. -/
theorem parted_iff {k : Nat} : Parted s k d ↔ PartedAt (glyphs s) k d := by
  constructor
  · rintro ⟨front, c, w, back, rfl, rfl, hc, hd, hw, hne⟩
    exact ⟨_, getElem?_glyphs hc hd hw, by simpa using hne, rfl⟩
  · rintro ⟨g, hg, hparted, rfl⟩
    have hlt : k + 1 < (ink s).length := by
      rw [← length_glyphsFrom (b := .nothing)]
      exact (List.getElem?_eq_some_iff.mp hg).1
    obtain ⟨front, c, w, d, back, rfl, rfl, hc, hd, hw⟩ := exists_neighbours hlt
    rw [getElem?_glyphs hc hd hw, Option.some.injEq] at hg
    rw [← hg] at hparted ⊢
    exact ⟨front, c, w, back, rfl, rfl, hc, hd, hw, by simpa using hparted⟩

/-- Glyphs agree if they agree in their characters and in where they are parted. -/
theorem Whole.eq_iff {gs hs : List Glyph} (hgs : Whole gs) (hhs : Whole hs) :
    gs = hs ↔ gs.map Glyph.char = hs.map Glyph.char ∧
      ∀ k d, PartedAt gs k d ↔ PartedAt hs k d := by
  constructor
  · rintro rfl
    exact ⟨rfl, fun _ _ => Iff.rfl⟩
  · rintro ⟨hchars, hparted⟩
    have hlength : gs.length = hs.length := by
      rw [← List.length_map Glyph.char, hchars, List.length_map]
    refine List.ext_getElem hlength fun i hi hi' => ?_
    have hchar : gs[i].char = hs[i].char := by
      have hplace := congrArg (·[i]?) hchars
      simpa [hi, hi'] using hplace
    have hsame : gs[i].parted = hs[i].parted := by
      cases i with
      | zero =>
        rw [hgs _ (by rw [List.head?_eq_getElem?, List.getElem?_eq_getElem hi]; rfl),
          hhs _ (by rw [List.head?_eq_getElem?, List.getElem?_eq_getElem hi']; rfl)]
      | succ k =>
        have hplace := hparted k gs[k + 1].char
        rw [PartedAt, PartedAt, List.getElem?_eq_getElem hi, List.getElem?_eq_getElem hi'] at hplace
        simp only [Option.some.injEq, exists_eq_left', hchar, and_true] at hplace
        exact Bool.eq_iff_iff.mpr hplace
    rcases hg : gs[i] with ⟨p, c, hc⟩
    rcases hh : hs[i] with ⟨q, d, hd⟩
    rw [hg, hh] at hchar hsame
    cases hchar
    cases hsame
    rfl

end Gaps

/-! ## Writing glyphs -/

section Writing

variable {s t : List Char} {g : Glyph} {gs : List Glyph}

theorem write_cons : write (g :: gs) = g.chars ++ write gs := rfl

/-- What is written with single blanks has the glyphs that it was written from. -/
theorem glyphsFrom_write : glyphsFrom .glyph (write gs) = gs := by
  induction gs with
  | nil => rfl
  | cons g gs ih =>
    obtain ⟨p, c, hc⟩ := g
    cases p with
    | true =>
      show glyphsFrom .glyph (' ' :: c :: write gs) = _
      rw [glyphsFrom_cons_of_space isSpace_blank, glyphsFrom_cons_of_ink hc, ih]
      rfl
    | false =>
      show glyphsFrom .glyph (c :: write gs) = _
      rw [glyphsFrom_cons_of_ink hc, ih]
      rfl

/-- What is written is read back. -/
theorem glyphs_write (h : Whole gs) : glyphs (write gs) = gs := by
  cases gs with
  | nil => rfl
  | cons g gs =>
    have hchars : g.chars = [g.char] := by rw [Glyph.chars, h g rfl, if_neg Bool.false_ne_true]
    have hread : glyphsFrom .glyph (write (g :: gs)) = g :: gs := glyphsFrom_write
    rw [write_cons, hchars, List.singleton_append, glyphsFrom_cons_of_ink g.ink] at hread
    rw [write_cons, hchars, List.singleton_append, glyphs, glyphsFrom_cons_of_ink g.ink]
    exact hread

theorem mem_chars {c : Char} (h : c ∈ g.chars) : c = ' ' ∨ c = g.char := by
  rw [Glyph.chars] at h
  split at h
  · simpa using h
  · exact .inr (List.mem_singleton.mp h)

theorem getLast?_chars (g : Glyph) : g.chars.getLast? = some g.char := by
  rw [Glyph.chars]
  split <;> rfl

/-- There are no two blanks in a row. -/
theorem isChain_write (gs : List Glyph) :
    (write gs).IsChain fun a b => isSpace a = true → isSpace b = false := by
  induction gs with
  | nil => exact .nil
  | cons g gs ih =>
    have hrest : (g.char :: write gs).IsChain fun a b => isSpace a = true → isSpace b = false :=
      List.isChain_cons.mpr ⟨fun _ _ hspace => absurd (hspace.symm.trans g.ink) nofun, ih⟩
    rw [write_cons, Glyph.chars]
    split
    · exact List.isChain_cons_cons.mpr ⟨fun _ => g.ink, hrest⟩
    · exact hrest

/-- A glyph is the last that is written. -/
theorem isSpace_getLast?_write (gs : List Glyph) :
    ∀ c ∈ (write gs).getLast?, isSpace c = false := by
  induction gs with
  | nil => exact nofun
  | cons g gs ih =>
    intro c hc
    rw [write_cons, List.getLast?_append, getLast?_chars] at hc
    cases hlast : (write gs).getLast? with
    | some d =>
      rw [hlast] at hc
      cases hc
      exact ih c hlast
    | none =>
      rw [hlast] at hc
      cases hc
      exact g.ink

/-- What is written from glyphs has single blanks, and none at its ends. -/
theorem tidy_write (h : Whole gs) : Tidy (write gs) where
  blank c hc hspace := by
    obtain ⟨g, -, hg⟩ := List.mem_flatMap.mp hc
    rcases mem_chars hg with rfl | rfl
    · rfl
    · rw [g.ink] at hspace
      cases hspace
  single := isChain_write gs
  head := by
    cases gs with
    | nil => exact nofun
    | cons g gs =>
      rw [write_cons, Glyph.chars, h g rfl]
      rintro c ⟨⟩
      exact g.ink
  last := isSpace_getLast?_write gs

/-- Behind white space, the first glyph is parted from what stands before. -/
theorem write_glyphsFrom_space (hhead : ∀ c ∈ s.head?, isSpace c = false) (hs : s ≠ []) :
    write (glyphsFrom .space s) = ' ' :: write (glyphsFrom .glyph s) := by
  cases s with
  | nil => exact absurd rfl hs
  | cons c s =>
    have hc := hhead c rfl
    rw [glyphsFrom_cons_of_ink hc, glyphsFrom_cons_of_ink hc]
    rfl

/-- What stands behind a glyph is written from its glyphs if it is tidy but for a blank at its
beginning. -/
theorem write_glyphsFrom_glyph (hblank : ∀ c ∈ t, isSpace c = true → c = ' ')
    (hsingle : t.IsChain fun a b => isSpace a = true → isSpace b = false)
    (hlast : ∀ c ∈ t.getLast?, isSpace c = false) : write (glyphsFrom .glyph t) = t := by
  induction t with
  | nil => rfl
  | cons c t ih =>
    have hlast' : ∀ d ∈ t.getLast?, isSpace d = false := by
      intro d hd
      refine hlast d ?_
      rw [List.getLast?_cons, hd]
      rfl
    have ht := ih (fun d hd => hblank d (List.mem_cons_of_mem c hd)) hsingle.tail hlast'
    cases hc : isSpace c with
    | true =>
      -- white space does not stand at the end
      have hne : t ≠ [] := by
        rintro rfl
        rw [hlast c rfl] at hc
        cases hc
      have hhead : ∀ d ∈ t.head?, isSpace d = false :=
        fun d hd => (List.isChain_cons.mp hsingle).1 d hd hc
      rw [glyphsFrom_cons_of_space hc, Before.addSpace, write_glyphsFrom_space hhead hne, ht,
        hblank c List.mem_cons_self hc]
    | false =>
      rw [glyphsFrom_cons_of_ink hc, write_cons, ht]
      rfl

/-- A tidy text is written from its glyphs. -/
theorem write_glyphs (h : Tidy t) : write (glyphs t) = t := by
  cases t with
  | nil => rfl
  | cons c t =>
    have hc := h.head c rfl
    have hwhole := write_glyphsFrom_glyph h.blank h.single h.last
    rw [glyphsFrom_cons_of_ink hc] at hwhole
    rw [glyphs, glyphsFrom_cons_of_ink hc]
    exact hwhole

end Writing

/-! ## Normal forms -/

section Normalizing

variable {s t w : List Char}

/-- The glyphs behind white space are those of the text on its own, but for the first one. -/
theorem write_glyphsFrom_space_eq (s : List Char) :
    write (glyphsFrom .space s) = if ink s = [] then [] else ' ' :: write (glyphs s) := by
  induction s with
  | nil => rfl
  | cons c s ih =>
    cases hc : isSpace c with
    | true =>
      rw [glyphsFrom_cons_of_space hc, ink_cons_of_space hc, glyphs, glyphsFrom_cons_of_space hc]
      exact ih
    | false =>
      rw [glyphsFrom_cons_of_ink hc, ink_cons_of_ink hc, glyphs, glyphsFrom_cons_of_ink hc,
        if_neg (List.cons_ne_nil _ _)]
      rfl

theorem words_cons_of_space {c : Char} (hc : isSpace c = true) : words (c :: s) = words s := by
  cases s <;> simp [words, hc]

theorem words_cons_ne_nil {c : Char} (hc : isSpace c = false) : words (c :: s) ≠ [] := by
  unfold words
  rw [if_neg (ne_true_of_eq_false hc)]
  split
  · exact List.cons_ne_nil _ _
  · split
    · exact List.cons_ne_nil _ _
    · split <;> exact List.cons_ne_nil _ _

theorem words_eq_nil : words s = [] ↔ ink s = [] := by
  induction s with
  | nil => exact iff_of_true rfl rfl
  | cons c s ih =>
    cases hc : isSpace c with
    | true => rw [ink_cons_of_space hc, words_cons_of_space hc, ih]
    | false =>
      rw [ink_cons_of_ink hc]
      exact iff_of_false (words_cons_ne_nil hc) (List.cons_ne_nil _ _)

theorem intercalate_cons_word (c : Char) (w : List Char) (ws : List (List Char)) :
    [' '].intercalate ((c :: w) :: ws) = c :: [' '].intercalate (w :: ws) := by
  cases ws with
  | nil => rfl
  | cons => rfl

/-- Words that are joined by blanks are the glyphs as they are written. -/
theorem intercalate_words (s : List Char) : [' '].intercalate (words s) = write (glyphs s) := by
  fun_induction words s with
  | case1 => rfl
  | case2 c r hc ih => rw [ih, glyphs, glyphs, glyphsFrom_cons_of_space hc, Before.addSpace]
  | case3 c hc =>
    rw [glyphs, glyphsFrom_cons_of_ink (eq_false_of_ne_true hc)]
    rfl
  | case4 c hc d r hd ih =>
    have hrest : glyphsFrom .glyph (d :: r) = glyphsFrom .space (d :: r) := by
      rw [glyphsFrom_cons_of_space hd, glyphsFrom_cons_of_space hd]
      rfl
    rw [glyphs, glyphsFrom_cons_of_ink (eq_false_of_ne_true hc), write_cons, hrest,
      write_glyphsFrom_space_eq, ← ih]
    cases hw : words (d :: r) with
    | nil =>
      rw [if_pos (words_eq_nil.mp hw)]
      rfl
    | cons w ws =>
      rw [if_neg fun hink => List.cons_ne_nil w ws (hw.symm.trans (words_eq_nil.mpr hink))]
      rfl
  | case5 c hc d r hd hw ih => exact absurd hw (words_cons_ne_nil (eq_false_of_ne_true hd))
  | case6 c hc d r hd w ws hw ih =>
    have hd := eq_false_of_ne_true hd
    rw [hw] at ih
    simp only [hw]
    rw [intercalate_cons_word, ih, glyphs, glyphs, glyphsFrom_cons_of_ink hd,
      glyphsFrom_cons_of_ink (eq_false_of_ne_true hc), glyphsFrom_cons_of_ink hd]
    rfl

theorem char_ne_blank (g : Glyph) : g.char ≠ ' ' := by
  intro h
  have hink := g.ink
  rw [h, isSpace_blank] at hink
  cases hink

theorem dropSpaceBefore_cons_of_ne {mark c : Char} (h : c ≠ ' ') (r : List Char) :
    dropSpaceBefore mark (c :: r) = c :: dropSpaceBefore mark r := by
  rw [dropSpaceBefore]
  rintro d r' rfl
  exact absurd rfl h

theorem chars_join_self (g : Glyph) : (g.join g.char).chars = [g.char] := by
  simp [Glyph.chars, Glyph.join]

theorem chars_join_of_ne {mark : Char} {g : Glyph} (h : g.char ≠ mark) :
    (g.join mark).chars = g.chars := by
  simp [Glyph.chars, Glyph.join, h]

/-- Dropping the blanks before a mark joins it to the glyph before. -/
theorem dropSpaceBefore_write (mark : Char) (gs : List Glyph) :
    dropSpaceBefore mark (write gs) = write (gs.map (Glyph.join mark)) := by
  induction gs with
  | nil => rfl
  | cons g gs ih =>
    have hchar : dropSpaceBefore mark (g.char :: write gs) =
        g.char :: write (gs.map (Glyph.join mark)) := by
      rw [dropSpaceBefore_cons_of_ne (char_ne_blank g), ih]
    rw [List.map_cons, write_cons, write_cons]
    by_cases hmark : g.char = mark
    · subst hmark
      rw [chars_join_self, Glyph.chars]
      cases g.parted with
      | false => exact hchar
      | true =>
        show dropSpaceBefore g.char (' ' :: g.char :: write gs) = _
        rw [dropSpaceBefore, if_pos rfl, ih]
        rfl
    · rw [chars_join_of_ne hmark, Glyph.chars]
      cases g.parted with
      | false => exact hchar
      | true =>
        show dropSpaceBefore mark (' ' :: g.char :: write gs) = _
        rw [dropSpaceBefore, if_neg hmark, hchar]
        rfl

/-- A spelling is normalized by joining the marks. -/
theorem normalizeChars_eq (s : List Char) :
    normalizeChars s = write ((glyphs s).map Glyph.joinMarks) := by
  rw [normalizeChars, intercalate_words, dropSpaceBefore_write, dropSpaceBefore_write,
    List.map_map]
  rfl

/-- Joining marks parts nothing. -/
theorem whole_joinMarks (s : List Char) : Whole ((glyphs s).map Glyph.joinMarks) := by
  intro g h
  rw [List.head?_map] at h
  obtain ⟨g', hg', rfl⟩ := Option.map_eq_some_iff.mp h
  simp [Glyph.joinMarks, Glyph.join, whole_glyphs s g' hg']

/-- Normalizing joins marks to what is before them and changes no other glyph. -/
theorem glyphs_normalizeChars (s : List Char) :
    glyphs (normalizeChars s) = (glyphs s).map Glyph.joinMarks := by
  rw [normalizeChars_eq, glyphs_write (whole_joinMarks s)]

/-- What stays parted is what was, except marks. -/
theorem joinMarks_parted {g : Glyph} :
    g.joinMarks.parted = true ↔ g.parted = true ∧ ¬ IsMark g.char := by
  simp [Glyph.joinMarks, Glyph.join, IsMark, and_assoc]

/-- The glyphs of a normal form, told by those of the spelling. -/
theorem partedAt_joinMarks {k : Nat} {d : Char} :
    PartedAt ((glyphs s).map Glyph.joinMarks) k d ↔ Parted s k d ∧ ¬ IsMark d := by
  rw [parted_iff]
  constructor
  · rintro ⟨g, hg, hparted, rfl⟩
    rw [List.getElem?_map] at hg
    obtain ⟨g', hg', rfl⟩ := Option.map_eq_some_iff.mp hg
    obtain ⟨hparted, hmark⟩ := joinMarks_parted.mp hparted
    exact ⟨⟨g', hg', hparted, rfl⟩, hmark⟩
  · rintro ⟨⟨g, hg, hparted, rfl⟩, hmark⟩
    exact ⟨g.joinMarks, by rw [List.getElem?_map, hg]; rfl, joinMarks_parted.mpr ⟨hparted, hmark⟩,
      rfl⟩

theorem map_char_joinMarks (s : List Char) :
    ((glyphs s).map Glyph.joinMarks).map Glyph.char = ink s := by
  rw [List.map_map, ← map_char_glyphsFrom (b := .nothing)]
  rfl

/-- The normal form of a spelling is the one text that is described. -/
theorem normalOf_iff : NormalOf s t ↔ normalizeChars s = t := by
  have hglyphs : (ink t = ink s ∧ ∀ k d, Parted t k d ↔ Parted s k d ∧ ¬ IsMark d) ↔
      glyphs t = (glyphs s).map Glyph.joinMarks := by
    simp only [(whole_glyphs t).eq_iff (whole_joinMarks s), map_char_joinMarks,
      partedAt_joinMarks, ← parted_iff]
    rw [glyphs, map_char_glyphsFrom]
  constructor
  · intro h
    rw [normalizeChars_eq, ← hglyphs.mp ⟨h.ink_eq, h.parted_iff⟩, write_glyphs h.tidy]
  · rintro rfl
    obtain ⟨hink, hparted⟩ := hglyphs.mpr (glyphs_normalizeChars s)
    have htidy : Tidy (normalizeChars s) := by
      rw [normalizeChars_eq]
      exact tidy_write (whole_joinMarks s)
    exact ⟨htidy, hink, hparted⟩

/-- Spellings have the same normal form if they agree in their characters and gaps. -/
theorem normalizeChars_eq_iff : normalizeChars s = normalizeChars t ↔
    ink s = ink t ∧ ∀ k d, ¬ IsMark d → (Parted s k d ↔ Parted t k d) := by
  have hglyphs : normalizeChars s = normalizeChars t ↔
      (glyphs s).map Glyph.joinMarks = (glyphs t).map Glyph.joinMarks := by
    constructor
    · intro h
      rw [← glyphs_normalizeChars, h, glyphs_normalizeChars]
    · intro h
      rw [normalizeChars_eq, h, normalizeChars_eq]
  simp only [hglyphs, (whole_joinMarks s).eq_iff (whole_joinMarks t), map_char_joinMarks,
    partedAt_joinMarks, and_congr_left_iff]

end Normalizing

/-! ## Changes of white space -/

section Changes

variable {a b v w : List Char} {m : Char}

theorem joinMarks_joinMarks (g : Glyph) : g.joinMarks.joinMarks = g.joinMarks := by
  simp only [Glyph.joinMarks, Glyph.join, Glyph.mk.injEq, and_true]
  grind

theorem normalizeChars_idem (s : List Char) :
    normalizeChars (normalizeChars s) = normalizeChars s := by
  have hjoin : Glyph.joinMarks ∘ Glyph.joinMarks = Glyph.joinMarks := funext joinMarks_joinMarks
  rw [normalizeChars_eq, glyphs_normalizeChars, List.map_map, hjoin, ← normalizeChars_eq]

/-- White space at the ends does not matter. -/
theorem normalizeChars_trim (s : List Char) (hv : ink v = []) (hw : ink w = []) :
    normalizeChars (v ++ s ++ w) = normalizeChars s := by
  rw [normalizeChars_eq, glyphs_trim hv hw, ← normalizeChars_eq]

/-- One gap is like another. -/
theorem normalizeChars_gap (a b : List Char) (hv : ink v = []) (hw : ink w = []) (hv' : v ≠ [])
    (hw' : w ≠ []) : normalizeChars (a ++ v ++ b) = normalizeChars (a ++ w ++ b) := by
  have hglyphs : glyphs (a ++ v ++ b) = glyphs (a ++ w ++ b) := by
    rw [List.append_assoc, List.append_assoc, glyphs, glyphs, glyphsFrom_append a,
      glyphsFrom_append a, glyphsFrom_space_append hv hv', glyphsFrom_space_append hw hw']
  rw [normalizeChars_eq, hglyphs, ← normalizeChars_eq]

theorem joinMarks_of_mark {p : Bool} {h : isSpace m = false} (hm : IsMark m) :
    Glyph.joinMarks ⟨p, m, h⟩ = ⟨false, m, h⟩ := by
  rcases hm with rfl | rfl <;> simp [Glyph.joinMarks, Glyph.join]

theorem isSpace_mark (hm : IsMark m) : isSpace m = false := by
  rcases hm with rfl | rfl <;> rfl

/-- Before a mark there is no gap to be seen. -/
theorem normalizeChars_mark (a b : List Char) (hw : ink w = []) (hm : IsMark m) :
    normalizeChars (a ++ w ++ m :: b) = normalizeChars (a ++ m :: b) := by
  have hmark : ∀ before : Before, (glyphsFrom before (m :: b)).map Glyph.joinMarks =
      ⟨false, m, isSpace_mark hm⟩ :: (glyphsFrom .glyph b).map Glyph.joinMarks := by
    intro before
    rw [glyphsFrom_cons_of_ink (isSpace_mark hm), List.map_cons, joinMarks_of_mark hm]
  have hglyphs : (glyphs (a ++ w ++ m :: b)).map Glyph.joinMarks =
      (glyphs (a ++ m :: b)).map Glyph.joinMarks := by
    rw [List.append_assoc, glyphs, glyphs, glyphsFrom_append a, glyphsFrom_append a,
      List.map_append, List.map_append]
    by_cases hne : w = []
    · rw [hne, List.nil_append]
    · rw [glyphsFrom_space_append hw hne, hmark, hmark]
  rw [normalizeChars_eq, hglyphs, ← normalizeChars_eq]

end Changes

/-! ## Texts -/

/-- Nothing but white space. -/
def IsBlank (w : String) : Prop := ∀ c ∈ w.toList, isSpace c = true

/-- What normalizing keeps of a text, and what it does not see. -/
structure IsNormalization (normalize : String → String) : Prop where
  /-- The normal form is the one text with the same characters that are no white space, single
  blanks where there was any white space, none of them before a mark, and no other white space. -/
  eq_iff : ∀ s t, normalize s = t ↔ NormalOf s.toList t.toList
  idem : ∀ s, normalize (normalize s) = normalize s
  trim : ∀ v s w, IsBlank v → IsBlank w → normalize (v ++ s ++ w) = normalize s
  gap : ∀ a v w b, IsBlank v → IsBlank w → v ≠ "" → w ≠ "" →
    normalize (a ++ v ++ b) = normalize (a ++ w ++ b)
  mark : ∀ a w b, IsBlank w → (∃ m ∈ b.toList.head?, IsMark m) →
    normalize (a ++ w ++ b) = normalize (a ++ b)
  same_iff : ∀ s t, normalize s = normalize t ↔ ink s.toList = ink t.toList ∧
    ∀ k d, ¬ IsMark d → (Parted s.toList k d ↔ Parted t.toList k d)

theorem toList_normalize (s : String) : (normalize s).toList = normalizeChars s.toList := by
  rw [normalize, String.toList_ofList]

theorem normalize_eq_normalize {s t : String} :
    normalize s = normalize t ↔ normalizeChars s.toList = normalizeChars t.toList := by
  rw [← toList_normalize, ← toList_normalize, String.toList_inj]

/-- **Normal spellings.** -/
theorem isNormalization_normalize : IsNormalization normalize where
  eq_iff s t := by rw [normalOf_iff, ← toList_normalize, String.toList_inj]
  idem s := by rw [normalize_eq_normalize, toList_normalize, normalizeChars_idem]
  trim v s w hv hw := by
    rw [normalize_eq_normalize, String.toList_append, String.toList_append,
      normalizeChars_trim _ (ink_eq_nil.mpr hv) (ink_eq_nil.mpr hw)]
  gap a v w b hv hw hv' hw' := by
    simp only [normalize_eq_normalize, String.toList_append]
    exact normalizeChars_gap _ _ (ink_eq_nil.mpr hv) (ink_eq_nil.mpr hw)
      (by simpa using hv') (by simpa using hw')
  mark a w b hw := by
    rintro ⟨m, hhead, hm⟩
    obtain ⟨r, hr⟩ := List.head?_eq_some_iff.mp hhead
    simp only [normalize_eq_normalize, String.toList_append, hr]
    exact normalizeChars_mark _ _ (ink_eq_nil.mpr hw) hm
  same_iff s t := by rw [normalize_eq_normalize, normalizeChars_eq_iff]

/-- Each mark follows the glyph before it, which may be another mark. -/
example : normalize "  a\t& * &b  *" = "a&*&b*" := by decide +kernel

end FlatApi.Spelling
