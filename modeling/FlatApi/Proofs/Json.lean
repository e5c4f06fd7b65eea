import FlatApi.Json
import FlatApi.Yaml.Scalar

/-!
# Reading JSON

`Json.read?` reads any layout and any way of escaping; of the values of JSON it knows those that are
written here, which are texts, lists and records.

* A text is read in two steps: its characters and escapes are code units, where an escape may be
  half of a character, and the halves are then joined (`text?_quote`).
* A value is read back wherever it stands (`value?_chars`), since what follows it cannot be
  taken for a part of it.  So a text is written by one value only (`read?_write`).
-/

namespace FlatApi.Json

/-! ## Reading texts -/

/-- What a letter behind a backslash stands for. -/
def shortForm? : Char → Option Char
  | '"' => some '"'
  | '\\' => some '\\'
  | '/' => some '/'
  | 'b' => some '\x08'
  | 'f' => some '\x0c'
  | 'n' => some '\n'
  | 'r' => some '\r'
  | 't' => some '\t'
  | _ => none

/-- The code units up to the closing quote, and what is behind it. -/
def units? : List Char → Option (List Nat × List Char)
  | [] => none
  | '"' :: r => some ([], r)
  | '\\' :: 'u' :: a :: b :: c :: d :: r => do
    let n ← Yaml.Scalar.digits? 16 [a, b, c, d]
    let (ns, r) ← units? r
    return (n :: ns, r)
  | '\\' :: e :: r => do
    let c ← shortForm? e
    let (ns, r) ← units? r
    return (c.toNat :: ns, r)
  | c :: r =>
    if c.toNat < 0x20 then none
    else do
      let (ns, r) ← units? r
      return (c.toNat :: ns, r)

/-- The first half of a character that is escaped in two. -/
def isHighHalf (n : Nat) : Bool := 0xd800 ≤ n && n < 0xdc00

def isLowHalf (n : Nat) : Bool := 0xdc00 ≤ n && n < 0xe000

/-- The characters that code units stand for.  No half stands alone. -/
def joined? : List Nat → Option (List Char)
  | [] => some []
  | [n] => if isHighHalf n || isLowHalf n then none else some [Char.ofNat n]
  | n :: m :: ns =>
    if isHighHalf n && isLowHalf m then
      (Char.ofNat (0x10000 + (n - 0xd800) * 0x400 + (m - 0xdc00)) :: ·) <$> joined? ns
    else if isHighHalf n || isLowHalf n then none
    else (Char.ofNat n :: ·) <$> joined? (m :: ns)

/-- A text behind its opening quote. -/
def text? (s : List Char) : Option (String × List Char) := do
  let (ns, r) ← units? s
  let cs ← joined? ns
  return (String.ofList cs, r)

/-! ## Reading values -/

def isBlank (c : Char) : Bool := c == ' ' || c == '\t' || c == '\n' || c == '\r'

def skip (s : List Char) : List Char := s.dropWhile isBlank

mutual

/-- A value, and what is behind it.  The number bounds the steps; as every step takes a character,
the length of the text is enough. -/
def value? : Nat → List Char → Option (Json × List Char)
  | 0, _ => none
  | n + 1, s =>
    match skip s with
    | '"' :: r => do
      let (t, r) ← text? r
      return (.text t, r)
    | '[' :: r =>
      match skip r with
      | ']' :: r => some (.list [], r)
      | r => do
        let (x, r) ← value? n r
        let (xs, r) ← items? n r
        return (.list (x :: xs), r)
    | '{' :: r =>
      match skip r with
      | '}' :: r => some (.record [], r)
      | r => do
        let (x, r) ← field? n r
        let (xs, r) ← fields? n r
        return (.record (x :: xs), r)
    | _ => none

/-- The items behind the first one, up to the end of the list. -/
def items? : Nat → List Char → Option (List Json × List Char)
  | 0, _ => none
  | n + 1, s =>
    match skip s with
    | ',' :: r => do
      let (x, r) ← value? n r
      let (xs, r) ← items? n r
      return (x :: xs, r)
    | ']' :: r => some ([], r)
    | _ => none

/-- A key and its value. -/
def field? : Nat → List Char → Option ((String × Json) × List Char)
  | 0, _ => none
  | n + 1, s =>
    match skip s with
    | '"' :: r => do
      let (k, r) ← text? r
      match skip r with
      | ':' :: r => do
        let (x, r) ← value? n r
        return ((k, x), r)
      | _ => none
    | _ => none

/-- The fields behind the first one, up to the end of the record. -/
def fields? : Nat → List Char → Option (List (String × Json) × List Char)
  | 0, _ => none
  | n + 1, s =>
    match skip s with
    | ',' :: r => do
      let (x, r) ← field? n r
      let (xs, r) ← fields? n r
      return (x :: xs, r)
    | '}' :: r => some ([], r)
    | _ => none

end

/-- The value that a text writes, with nothing but blanks behind it. -/
def read? (s : String) : Option Json := do
  let (j, r) ← value? (s.toList.length + 1) s.toList
  if (skip r).isEmpty then some j else none

/-! ## What is written is read -/

section Texts

theorem not_half (c : Char) : isHighHalf c.toNat = false ∧ isLowHalf c.toNat = false := by
  have hvalid : c.toNat < 0xd800 ∨ 0xdfff < c.toNat ∧ c.toNat < 0x110000 := c.valid
  unfold isHighHalf isLowHalf
  constructor
  · simp
    omega
  · simp
    omega

/-- Whole characters are not joined. -/
theorem joined?_map_toNat (cs : List Char) : joined? (cs.map Char.toNat) = some cs := by
  induction cs with
  | nil => rfl
  | cons c cs ih =>
    obtain ⟨hhigh, hlow⟩ := not_half c
    cases cs with
    | nil => simp [joined?, hhigh, hlow, Char.ofNat_toNat]
    | cons c' cs =>
      rw [List.map_cons] at ih
      simp [joined?, hhigh, hlow, ih, Char.ofNat_toNat]

/-- Two hexadecimal digits behind two zeros. -/
theorem digits?_hexDigit :
    ∀ n < 0x20,
      Yaml.Scalar.digits? 16 ['0', '0', hexDigit (n / 16), hexDigit (n % 16)] = some n := by
  decide

theorem units?_plain {c : Char} (hquote : c ≠ '"') (hback : c ≠ '\\') (h : ¬ c.toNat < 0x20)
    (rest : List Char) :
    units? (c :: rest) = (units? rest).map fun p => (c.toNat :: p.1, p.2) := by
  rw [units?.eq_5 c rest hquote (fun _ _ _ _ _ heq => absurd heq hback)
    (fun _ _ heq => absurd heq hback), if_neg h]
  cases units? rest <;> rfl

/-- An escaped character is read as the character. -/
theorem units?_escape (c : Char) (rest : List Char) :
    units? (escape c ++ rest) = (units? rest).map fun p => (c.toNat :: p.1, p.2) := by
  unfold escape
  split
  case h_8 _ hquote hback _ _ _ _ _ =>
    by_cases hcontrol : c.toNat < 0x20
    · rw [if_pos hcontrol]
      cases h : units? rest <;> simp [units?, digits?_hexDigit _ hcontrol, h]
    · rw [if_neg hcontrol]
      exact units?_plain hquote hback hcontrol rest
  all_goals
    cases h : units? rest <;> simp [units?, shortForm?, h]

theorem units?_flatMap_escape (cs rest : List Char) :
    units? (cs.flatMap escape ++ '"' :: rest) = some (cs.map Char.toNat, rest) := by
  induction cs with
  | nil => simp [units?]
  | cons c cs ih => rw [List.flatMap_cons, List.append_assoc, units?_escape, ih, List.map_cons,
      Option.map_some]

theorem text?_flatMap_escape (s : String) (rest : List Char) :
    text? (s.toList.flatMap escape ++ '"' :: rest) = some (s, rest) := by
  simp only [text?, units?_flatMap_escape, joined?_map_toNat, Option.bind_eq_bind,
    Option.bind_some, String.ofList_toList]
  rfl

end Texts

section Blanks

theorem skip_newline (level : Nat) (s : List Char) : skip (newline level ++ s) = skip s := by
  have hblank : ∀ c ∈ newline level, isBlank c = true := by
    intro c hc
    rcases List.mem_cons.mp hc with rfl | hc
    · rfl
    · rw [List.eq_of_mem_replicate hc]
      rfl
  exact List.dropWhile_append_of_pos hblank

theorem skip_of_not_blank {c : Char} (h : isBlank c = false) (s : List Char) :
    skip (c :: s) = c :: s := by
  rw [skip, List.dropWhile_cons, h]
  rfl

/-- A value begins with a character that is no blank and ends no list. -/
theorem exists_chars_eq_cons (level : Nat) (j : Json) :
    ∃ c s, chars level j = c :: s ∧ isBlank c = false ∧ c ≠ ']' := by
  match j with
  | .text _ => exact ⟨_, _, rfl, by decide, by decide⟩
  | .list [] => exact ⟨_, _, rfl, by decide, by decide⟩
  | .list (x :: xs) => exact ⟨_, _, rfl, by decide, by decide⟩
  | .record [] => exact ⟨_, _, rfl, by decide, by decide⟩
  | .record (f :: fs) => exact ⟨_, _, rfl, by decide, by decide⟩

/-- A value that is written does not start with a blank. -/
theorem skip_chars (level : Nat) (j : Json) (rest : List Char) :
    skip (chars level j ++ rest) = chars level j ++ rest := by
  obtain ⟨c, s, hchars, hblank, -⟩ := exists_chars_eq_cons level j
  rw [hchars, List.cons_append, skip_of_not_blank hblank]

/-- Blanks in front of a value make no difference. -/
theorem value?_congr {n : Nat} {s s' : List Char} (h : skip s = skip s') :
    value? n s = value? n s' := by
  cases n with
  | zero => rfl
  | succ n => rw [value?, value?, h]

theorem field?_congr {n : Nat} {s s' : List Char} (h : skip s = skip s') :
    field? n s = field? n s' := by
  cases n with
  | zero => rfl
  | succ n => rw [field?, field?, h]

end Blanks

section Values

/-- A list that is not empty: its first item, and those behind it. -/
theorem value?_list (level : Nat) {n : Nat} {x : Json} {xs : List Json} {tail rest : List Char}
    (hx : value? n (chars level x ++ tail) = some (x, tail))
    (hxs : items? n tail = some (xs, rest)) :
    value? (n + 1) ('[' :: (newline level ++ (chars level x ++ tail))) =
      some (.list (x :: xs), rest) := by
  obtain ⟨c, s, hchars, -, hc⟩ := exists_chars_eq_cons level x
  have hskip : skip (newline level ++ (chars level x ++ tail)) = c :: (s ++ tail) := by
    rw [skip_newline, skip_chars, hchars, List.cons_append]
  rw [hchars, List.cons_append] at hx
  rw [value?, skip_of_not_blank (by decide)]
  simp only [hskip]
  split
  next heq => exact absurd (List.cons_eq_cons.mp heq).1 hc
  next => simp [hx, hxs]

theorem field?_quote {n level : Nat} {k : String} {x : Json} {rest : List Char}
    (hx : value? n (chars level x ++ rest) = some (x, rest)) :
    field? (n + 1) (quote k ++ (':' :: ' ' :: (chars level x ++ rest))) = some ((k, x), rest) := by
  have hblank : value? n (' ' :: (chars level x ++ rest)) = some (x, rest) := by
    rw [← hx]
    exact value?_congr rfl
  rw [quote, List.cons_append, List.cons_append, List.append_assoc, field?,
    skip_of_not_blank (by decide)]
  simp only [List.singleton_append, text?_flatMap_escape, Option.bind_eq_bind, Option.bind_some,
    skip_of_not_blank (c := ':') (by decide), hblank]
  rfl

/-- A record that is not empty: its first field, and those behind it. -/
theorem value?_record (level : Nat) {n : Nat} {k : String} {x : Json} {fs : List (String × Json)}
    {body tail rest : List Char} (hx : field? n (quote k ++ body) = some ((k, x), tail))
    (hfs : fields? n tail = some (fs, rest)) :
    value? (n + 1) ('{' :: (newline level ++ (quote k ++ body))) =
      some (.record ((k, x) :: fs), rest) := by
  have hskip : skip (newline level ++ (quote k ++ body)) = quote k ++ body := by
    rw [skip_newline, quote, List.cons_append, List.cons_append, skip_of_not_blank (by decide)]
  rw [value?, skip_of_not_blank (by decide)]
  simp only [hskip]
  split
  next heq => exact absurd (List.cons_eq_cons.mp heq).1 (by decide)
  next => simp [hx, hfs]

-- The induction is on the value.  The lengths bound the steps, and the text of each part is shorter
-- than that of the whole.

mutual

/-- A value is read back, whatever is behind it. -/
theorem value?_chars : ∀ (j : Json) (level n : Nat) (rest : List Char),
    (chars level j).length ≤ n → value? n (chars level j ++ rest) = some (j, rest)
  | .text s, level, 0, rest, hn => by simp [chars, quote] at hn
  | .text s, level, n + 1, rest, hn => by
    rw [chars, quote, List.cons_append, List.cons_append, List.append_assoc, value?,
      skip_of_not_blank (by decide)]
    simp only [List.singleton_append, text?_flatMap_escape, Option.bind_eq_bind, Option.bind_some]
    rfl
  | .list [], level, 0, rest, hn => by simp [chars] at hn
  | .list [], level, n + 1, rest, hn => rfl
  | .list (x :: xs), level, 0, rest, hn => by simp [chars] at hn
  | .list (x :: xs), level, n + 1, rest, hn => by
    simp only [chars, List.length_cons, List.length_append] at hn
    have hx := value?_chars x (level + 1) n
      (itemChars (level + 1) xs ++ (newline level ++ ']' :: rest)) (by omega)
    have hxs := items?_itemChars xs (level + 1) level n rest (by omega)
    rw [← value?_list (level + 1) hx hxs]
    simp [chars]
  | .record [], level, 0, rest, hn => by simp [chars] at hn
  | .record [], level, n + 1, rest, hn => rfl
  | .record ((k, x) :: fs), level, 0, rest, hn => by simp [chars] at hn
  | .record ((k, x) :: fs), level, 1, rest, hn => by simp [chars, quote] at hn
  | .record ((k, x) :: fs), level, n + 2, rest, hn => by
    simp only [chars, List.length_cons, List.length_append] at hn
    have hx := value?_chars x (level + 1) n
      (fieldChars (level + 1) fs ++ (newline level ++ '}' :: rest)) (by omega)
    have hfs := fields?_fieldChars fs (level + 1) level (n + 1) rest (by omega)
    rw [← value?_record (level + 1) (field?_quote hx) hfs]
    simp [chars]

/-- The items behind the first one are read back up to the end of the list. -/
theorem items?_itemChars : ∀ (xs : List Json) (level outer n : Nat) (rest : List Char),
    (itemChars level xs).length < n →
      items? n (itemChars level xs ++ (newline outer ++ ']' :: rest)) = some (xs, rest)
  | [], level, outer, n + 1, rest, hn => by
    rw [itemChars, List.nil_append, items?, skip_newline, skip_of_not_blank (by decide)]
    rfl
  | x :: xs, level, outer, n + 1, rest, hn => by
    simp only [itemChars, List.length_cons, List.length_append] at hn
    have hx := value?_chars x level n (itemChars level xs ++ (newline outer ++ ']' :: rest))
      (by omega)
    have hxs := items?_itemChars xs level outer n rest (by omega)
    rw [← value?_congr (skip_newline level _)] at hx
    rw [itemChars, items?]
    simp only [List.cons_append, List.append_assoc, skip_of_not_blank (c := ',') (by decide), hx,
      hxs, Option.bind_eq_bind, Option.bind_some]
    rfl

theorem fields?_fieldChars : ∀ (fs : List (String × Json)) (level outer n : Nat)
    (rest : List Char), (fieldChars level fs).length < n →
      fields? n (fieldChars level fs ++ (newline outer ++ '}' :: rest)) = some (fs, rest)
  | [], level, outer, n + 1, rest, hn => by
    rw [fieldChars, List.nil_append, fields?, skip_newline, skip_of_not_blank (by decide)]
    rfl
  | (k, x) :: fs, level, outer, 1, rest, hn => by simp [fieldChars] at hn
  | (k, x) :: fs, level, outer, n + 2, rest, hn => by
    simp only [fieldChars, List.length_cons, List.length_append] at hn
    have hx := value?_chars x level n (fieldChars level fs ++ (newline outer ++ '}' :: rest))
      (by omega)
    have hfield := field?_quote (k := k) hx
    have hfs := fields?_fieldChars fs level outer (n + 1) rest (by omega)
    rw [← field?_congr (skip_newline level _)] at hfield
    rw [fieldChars, fields?]
    simp only [List.cons_append, List.append_assoc, List.nil_append,
      skip_of_not_blank (c := ',') (by decide), hfield, hfs, Option.bind_eq_bind, Option.bind_some]
    rfl

end

/-- What is written is read back. -/
theorem read?_write (j : Json) : read? j.write = some j := by
  have hread := value?_chars j 0 ((chars 0 j).length + 1) [] (Nat.le_succ _)
  rw [List.append_nil] at hread
  unfold read? write
  rw [String.toList_ofList, hread]
  rfl

end Values

end FlatApi.Json
