import FlatApi.Yaml.Token
import FlatApi.Yaml.Cursor

/-!
# Scalars in a YAML text

The three ways of writing a scalar: between quotes, plain, and as a block of lines.  Quoted and
plain scalars may run over several lines; what lies between two words is a `Gap`, and folding
turns a gap into text: blanks alone stay as they are, one break becomes a space, of several breaks
the first is dropped.  All texts under construction are kept in reverse.
-/

namespace FlatApi.Yaml

/-- Blanks and breaks passed since the last word, latest first. -/
inductive Gap where
  /-- No break so far. -/
  | inLine (blanks : List Char)
  /-- Broken at `first`, or at an escaped break, which leaves no character. -/
  | broken (first : Option Char) (more : List Char)

namespace Gap

/-- A blank counts only as long as the line is not broken. -/
def blank (ch : Char) : Gap → Gap
  | inLine blanks => inLine (ch :: blanks)
  | broken first more => broken first more

def lineBreak (ch : Char) : Gap → Gap
  | inLine _ => broken (some ch) []
  | broken first more => broken first (ch :: more)

def isBroken : Gap → Bool
  | inLine _ => false
  | broken .. => true

/-- The folded gap on top of the text before it. -/
def foldOnto (text : List Char) : Gap → List Char
  | inLine blanks => blanks ++ text
  | broken none more => more ++ text
  | broken (some first) more =>
    if first == '\n' then (if more.isEmpty then ' ' :: text else more ++ text)
    else more ++ first :: text

end Gap

/-- The text with the gap after it, if there is one, folded. -/
def foldGap (text : List Char) : Option Gap → List Char
  | none => text
  | some gap => gap.foldOnto text

/-- The gap so far, or a new one. -/
def openGap (gap : Option Gap) : Gap := gap.getD (.inLine [])

/-! ## Quoted scalars -/

/-- The character that a one-letter escape stands for. -/
def simpleEscape? : Char → Option Char
  | '0' => some '\x00'
  | 'a' => some '\x07'
  | 'b' => some '\x08'
  | 't' => some '\t'
  | '\t' => some '\t'
  | 'n' => some '\n'
  | 'v' => some '\x0b'
  | 'f' => some '\x0c'
  | 'r' => some '\r'
  | 'e' => some '\x1b'
  | ' ' => some ' '
  | '"' => some '"'
  | '/' => some '/'
  | '\\' => some '\\'
  | 'N' => some '\u0085'
  | '_' => some '\u00a0'
  | 'L' => some '\u2028'
  | 'P' => some '\u2029'
  | _ => none

/-- The number of digits after a numeric escape. -/
def escapeWidth? : Char → Option Nat
  | 'x' => some 2
  | 'u' => some 4
  | 'U' => some 8
  | _ => none

def hexDigit? (c : Char) : Option Nat :=
  if c.isDigit then some (c.toNat - '0'.toNat)
  else if 'a' ≤ c && c ≤ 'f' then some (c.toNat - 'a'.toNat + 10)
  else if 'A' ≤ c && c ≤ 'F' then some (c.toNat - 'A'.toNat + 10)
  else none

/-- The character whose number is written in the first `width` hexadecimal digits. -/
def escapedChar (width : Nat) (digits : List Char) : Except Malformed Char := do
  let digits := digits.take width
  if digits.length < width then throw .escapeDigits
  let some ds := digits.mapM hexDigit? | throw .escapeDigits
  let n := ds.foldl (fun n d => 16 * n + d) 0
  if n.isValidChar then return Char.ofNat n else throw .escapeScalar

/-- Reads a quoted scalar from behind its opening quote to behind its closing one. -/
def scanQuoted (double : Bool) (text : List Char) (gap : Option Gap) (c : Cursor) :
    Except Malformed (String × Cursor) :=
  match _h : c.rest with
  | [] => .error .unclosedQuote
  | ch :: r =>
    if isBlank ch then
      scanQuoted double text (some ((openGap gap).blank ch)) (c.within 1 r)
    else match _hb : c.lineBreak? with
    | some (b, d) => scanQuoted double text (some ((openGap gap).lineBreak b)) d
    | none =>
      if c.atDocumentMark then .error .documentMarkInQuotes
      else
        let text := foldGap text gap
        if double then
          if ch == '"' then .ok (String.ofList text.reverse, c.within 1 r)
          else if ch == '\\' then
            match _he : (c.within 1 r).lineBreak? with
            | some (_, d) => scanQuoted double text (some (.broken none [])) d
            | none =>
              match r with
              | [] => .error .escapeCode
              | e :: r' =>
                match simpleEscape? e with
                | some x => scanQuoted double (x :: text) none (c.within 2 r')
                | none =>
                  match escapeWidth? e with
                  | none => .error .escapeCode
                  | some width =>
                    match escapedChar width r' with
                    | .error m => .error m
                    | .ok x =>
                      scanQuoted double (x :: text) none (c.within (2 + width) (r'.drop width))
          else scanQuoted double (ch :: text) none (c.within 1 r)
        else if ch == '\'' then
          if r.head? == some '\'' then
            scanQuoted double ('\'' :: text) none (c.within 2 (r.drop 1))
          else .ok (String.ofList text.reverse, c.within 1 r)
        else scanQuoted double (ch :: text) none (c.within 1 r)
termination_by c.rest.length
decreasing_by
  · simp only [Cursor.within, _h, List.length_cons]; omega
  · exact Cursor.lineBreak?_shorter _hb
  · have := Cursor.lineBreak?_shorter _he
    simp only [Cursor.within] at this
    simp only [_h, List.length_cons]; omega
  · simp only [Cursor.within, _h, List.length_cons]; omega
  · simp only [Cursor.within, _h, List.length_cons, List.length_drop]; omega
  · simp only [Cursor.within, _h, List.length_cons]; omega
  · simp only [Cursor.within, _h, List.length_cons, List.length_drop]; omega
  · simp only [Cursor.within, _h, List.length_cons]; omega

/-! ## Plain scalars -/

/-- Brackets and commas, which end a plain scalar inside a flow collection. -/
def isFlowIndicator (c : Char) : Bool :=
  c == ',' || c == '[' || c == ']' || c == '{' || c == '}'

/-- A colon that a flow collection cannot tell from the end of a key. -/
def isAmbiguousColon : List Char → Bool
  | ':' :: c :: _ => isFlowIndicator c || c == '?'
  | _ => false

/-- A plain scalar ends before a colon that ends a word, and inside a flow collection before any
of its indicators. -/
def endsPlain (inFlow : Bool) : List Char → Bool
  | [] => true
  | c :: r => (c == ':' && endsWord r) || (inFlow && isFlowIndicator c)

/-- A plain scalar that ends here, with what `scanPlain` tells about the place. -/
def plainResult (text : List Char) (gap : Option Gap) (c : Cursor) : String × Bool × Cursor :=
  (String.ofList text.reverse, gap.any Gap.isBroken, c)

/-- Reads a plain scalar.  Its lines are indented by at least `indent` outside flow collections;
a comment and a document mark end it.  The place returned lies behind the blanks and breaks that
follow, and the flag says whether a break is among them. -/
def scanPlain (inFlow : Bool) (indent : Nat) (text : List Char) (gap : Option Gap) (c : Cursor) :
    Except Malformed (String × Bool × Cursor) :=
  match _h : c.rest with
  | [] => .ok (plainResult text gap c)
  | ch :: r =>
    if isBlank ch then
      if gap.any Gap.isBroken && ch == '\t' && c.column < indent then .error .tabIndentation
      else scanPlain inFlow indent text (some ((openGap gap).blank ch)) (c.within 1 r)
    else match _hb : c.lineBreak? with
    | some (b, d) => scanPlain inFlow indent text (some ((openGap gap).lineBreak b)) d
    | none =>
      if gap.isSome && (c.atDocumentMark || ch == '#' || (!inFlow && c.column < indent)) then
        .ok (plainResult text gap c)
      else if inFlow && isAmbiguousColon c.rest then .error .ambiguousColon
      else if endsPlain inFlow c.rest then .ok (plainResult text gap c)
      else scanPlain inFlow indent (ch :: foldGap text gap) none (c.within 1 r)
termination_by c.rest.length
decreasing_by
  · simp only [Cursor.within, _h, List.length_cons]; omega
  · exact Cursor.lineBreak?_shorter _hb
  · simp only [Cursor.within, _h, List.length_cons]; omega

/-! ## Block scalars -/

/-- What becomes of the breaks after the last line of a block scalar. -/
inductive Chomping where
  /-- None is kept. -/
  | strip
  /-- The first one is kept. -/
  | clip
  /-- All are kept. -/
  | keep

/-- The sign that sets the chomping, if there is one. -/
def takeChomping (c : Cursor) : Chomping × Cursor :=
  match c.rest with
  | '+' :: r => (.keep, c.within 1 r)
  | '-' :: r => (.strip, c.within 1 r)
  | _ => (.clip, c)

/-- The digit that sets the indentation, if there is one.  Zero is no indentation. -/
def takeIndentation (c : Cursor) : Except Malformed (Option Nat × Cursor) :=
  match c.rest with
  | d :: r =>
    if d == '0' then .error .blockHeader
    else if d.isDigit then .ok (some (d.toNat - '0'.toNat), c.within 1 r)
    else .ok (none, c)
  | [] => .ok (none, c)

/-- Passes blanks, a comment and the break at the end of a line; `fault` is the answer if anything
else stands there. -/
def endLine (fault : Malformed) (c : Cursor) : Except Malformed Cursor :=
  let c := c.skipWhile isBlank
  let c := if c.rest.head? == some '#' then c.skipWhile (!isBreak ·) else c
  match c.rest, c.lineBreak? with
  | [], _ => .ok c
  | _, some (_, d) => .ok d
  | _, none => .error fault

/-- The first line of a block scalar behind `|` or `>`: sign and digit come in either order. -/
def blockHeader (c : Cursor) : Except Malformed (Chomping × Option Nat × Cursor) := do
  let (chomping, c₁) := takeChomping c
  let (indent, c₂) ← takeIndentation c₁
  let (chomping, c₃) := match chomping, indent with
    | .clip, some _ => takeChomping c₂
    | chomping, _ => (chomping, c₂)
  return (chomping, indent, ← endLine .blockHeader c₃)

/-- Passes the empty lines before the first line of text.  Returns their breaks and the largest
indentation met. -/
def leadingLines (most : Nat) (breaks : List Char) (c : Cursor) :
    Except Malformed (Nat × List Char × Cursor) :=
  match _h : c.rest with
  | [] => .ok (max most c.column, breaks, c)
  | ch :: r =>
    if ch == ' ' then leadingLines most breaks (c.within 1 r)
    else if ch == '\t' then .error .tabIndentation
    else match _hb : c.lineBreak? with
    | some (b, d) => leadingLines (max most c.column) (b :: breaks) d
    | none => .ok (max most c.column, breaks, c)
termination_by c.rest.length
decreasing_by
  · simp only [Cursor.within, _h, List.length_cons]; omega
  · exact Cursor.lineBreak?_shorter _hb

/-- A block scalar under construction. -/
structure BlockText where
  text : List Char := []
  /-- The break of the last line of text. -/
  last : Option Char := none
  /-- The breaks of the empty lines after it. -/
  breaks : List Char := []
  /-- The last line of text began with a blank. -/
  lastBlank : Bool := false

namespace BlockText

/-- A new line of text that begins with `ch`.  A folded block joins two lines by a space unless
one of them begins with a blank. -/
def startLine (literal : Bool) (ch : Char) (b : BlockText) : BlockText :=
  let joined :=
    if !literal && b.last == some '\n' && !b.lastBlank && !isBlank ch then
      if b.breaks.isEmpty then ' ' :: b.text else b.text
    else b.last.toList ++ b.text
  { text := ch :: (b.breaks ++ joined), lastBlank := isBlank ch }

def finish (chomping : Chomping) (b : BlockText) : String :=
  let text := match chomping with
    | .strip => b.text
    | .clip => b.last.toList ++ b.text
    | .keep => b.breaks ++ (b.last.toList ++ b.text)
  String.ofList text.reverse

end BlockText

/-- Reads the lines of a block scalar; `inLine` says that a line of text has begun.  The block
ends before the first line of text with another indentation than `indent`. -/
def scanBlockLines (literal : Bool) (indent : Nat) (inLine : Bool) (b : BlockText) (c : Cursor) :
    Except Malformed (BlockText × Cursor) :=
  match _h : c.rest with
  | [] => .ok (b, c)
  | ch :: r =>
    if !inLine && ch == ' ' && c.column < indent then
      scanBlockLines literal indent inLine b (c.within 1 r)
    else if !inLine && ch == '\t' && c.column < indent then .error .tabIndentation
    else match _hb : c.lineBreak? with
    | some (ch, d) =>
      let b := if inLine then { b with last := some ch, breaks := [] }
        else { b with breaks := ch :: b.breaks }
      scanBlockLines literal indent false b d
    | none =>
      if inLine then
        scanBlockLines literal indent true { b with text := ch :: b.text } (c.within 1 r)
      else if c.column == indent then
        scanBlockLines literal indent true (b.startLine literal ch) (c.within 1 r)
      else .ok (b, c)
termination_by c.rest.length
decreasing_by
  · simp only [Cursor.within, _h, List.length_cons]; omega
  · exact Cursor.lineBreak?_shorter _hb
  · simp only [Cursor.within, _h, List.length_cons]; omega
  · simp only [Cursor.within, _h, List.length_cons]; omega

/-- Reads a block scalar from behind `|` or `>`.  `parent` is the indentation of the block around
it; without a digit in the header the first line of text sets the indentation. -/
def scanBlock (literal : Bool) (parent : Option Nat) (c : Cursor) :
    Except Malformed (String × Cursor) := do
  let (chomping, given, c) ← blockHeader c
  match given with
  | some n =>
    let (b, c) ← scanBlockLines literal (parent.getD 0 + n) false {} c
    return (b.finish chomping, c)
  | none =>
    let (most, breaks, c) ← leadingLines 0 [] c
    let indent := max most (max (parent.elim 0 (· + 1)) 1)
    let (b, c) ← scanBlockLines literal indent false { breaks } c
    return (b.finish chomping, c)

end FlatApi.Yaml
