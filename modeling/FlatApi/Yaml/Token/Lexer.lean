import FlatApi.Yaml.Token.Scalar

/-!
# From text to tokens

`tokens` cuts a text into tokens.  Indentation and the brackets of flow collections decide what a
character means, so the lexer carries the indentations of the open block collections and the
depth of flow collections.

A mapping key needs no mark in front: only the colon behind it shows that it was one.  Wherever a
key could begin, the lexer notes the place as a `Candidate`; the colon then puts the key token,
and if need be the start of a block mapping, in front of what was read since.  A candidate has to
be in the line of its colon and at most 1024 octets before it.
-/

namespace FlatApi.Yaml

/-- A place where a key may have begun. -/
structure Candidate where
  /-- The number of tokens before it. -/
  slot : Nat
  /-- Nothing but a key can stand at this place. -/
  required : Bool
  index : Nat
  line : Nat
  column : Nat

structure Lexer where
  cursor : Cursor
  tokens : Array Token := #[]
  /-- Columns of the open block collections, innermost first. -/
  indents : List Nat := []
  /-- A key may begin here. -/
  keyAllowed : Bool := true
  /-- The candidate of the innermost collection. -/
  candidate : Option Candidate := none
  /-- Candidates outside each open flow collection, innermost first. -/
  outer : List (Option Candidate) := []

namespace Lexer

def inFlow (l : Lexer) : Bool := !l.outer.isEmpty

def push (l : Lexer) (t : Token) : Lexer := { l with tokens := l.tokens.push t }

/-- Adds a token and passes its `n` characters. -/
def emit (l : Lexer) (t : Token) (n : Nat) : Lexer :=
  { l with tokens := l.tokens.push t, cursor := l.cursor.skip n }

/-! ## Indentation -/

/-- Opens a block collection at `column` unless one at this column or further right is open.  Its
token goes to `slot`. -/
def openBlock (l : Lexer) (column slot : Nat) (start : Token) : Lexer :=
  if l.inFlow || l.indents.any (column ≤ ·) then l
  else { l with
    indents := column :: l.indents
    tokens := l.tokens.insertIdxIfInBounds slot start }

/-- Closes the block collections right of `column`; without a column, all. -/
def closeBlocks (l : Lexer) (column : Option Nat) : Lexer :=
  if l.inFlow then l
  else
    let closed := l.indents.takeWhile fun i => column.all (· < i)
    { l with
      indents := l.indents.drop closed.length
      tokens := l.tokens ++ (closed.map fun _ => Token.blockEnd) }

/-! ## Candidates for keys -/

/-- A candidate that its colon can no longer reach. -/
def expired (l : Lexer) (k : Candidate) : Bool :=
  k.line < l.cursor.line || k.index + 1024 < l.cursor.index

def checkCandidate (l : Lexer) : Option Candidate → Except Malformed (Option Candidate)
  | none => .ok none
  | some k =>
    if !l.expired k then .ok (some k)
    else if k.required then .error .missingColon
    else .ok none

def dropExpired (l : Lexer) : Except Malformed Lexer := do
  let outer ← l.outer.mapM l.checkCandidate
  let candidate ← l.checkCandidate l.candidate
  return { l with outer, candidate }

/-- Gives the innermost candidate up. -/
def dropCandidate (l : Lexer) : Except Malformed Lexer :=
  if l.candidate.any (·.required) then .error .missingColon
  else .ok { l with candidate := none }

/-- Notes the present place as a candidate, where a key may begin. -/
def noteCandidate (l : Lexer) : Except Malformed Lexer :=
  if !l.keyAllowed then .ok l
  else do
    let l ← l.dropCandidate
    let here : Candidate :=
      { slot := l.tokens.size
        required := !l.inFlow && l.indents.head? == some l.cursor.column
        index := l.cursor.index
        line := l.cursor.line
        column := l.cursor.column }
    return { l with candidate := some here }

/-! ## Blanks and comments -/

/-- Passes blanks, comments and breaks.  Outside flow collections a break allows a key, and a tab
is a blank only where no key may begin.  A byte order mark may begin a line. -/
def skipBlanks (inFlow keyAllowed : Bool) (c : Cursor) : Bool × Cursor :=
  match _h : c.rest with
  | [] => (keyAllowed, c)
  | ch :: r =>
    if ch == ' ' || (ch == '\t' && (inFlow || !keyAllowed))
        || (ch == '\uFEFF' && c.column == 0) then
      skipBlanks inFlow keyAllowed (c.within 1 r)
    else if ch == '#' then
      let n := (r.takeWhile (!isBreak ·)).length
      skipBlanks inFlow keyAllowed (c.within (1 + n) (r.drop n))
    else match _hb : c.lineBreak? with
    | some (_, d) => skipBlanks inFlow (keyAllowed || !inFlow) d
    | none => (keyAllowed, c)
termination_by c.rest.length
decreasing_by
  · simp only [Cursor.within, _h, List.length_cons]; omega
  · simp only [Cursor.within, _h, List.length_cons, List.length_drop]; omega
  · exact Cursor.lineBreak?_shorter _hb

/-! ## Directives -/

/-- A number of at most nine digits. -/
def versionNumber (c : Cursor) : Except Malformed (Nat × Cursor) :=
  let (digits, c) := c.span Char.isDigit
  if digits.isEmpty || digits.length > 9 then .error .directiveVersion
  else .ok (digits.foldl (fun n d => 10 * n + (d.toNat - '0'.toNat)) 0, c)

/-- Characters of a tag's address. -/
def isTagChar (c : Char) : Bool := isWordChar c || ";/?:@&=+$.!~*'()".contains c

/-- Brackets and commas are part of an address only where it is delimited on both sides. -/
def isDelimitedTagChar (c : Char) : Bool := isTagChar c || c == ',' || c == '[' || c == ']'

/-- The octet written as `%` and two digits. -/
def escapedOctet? : List Char → Option Nat
  | '%' :: a :: b :: _ => do return 16 * (← hexDigit? a) + (← hexDigit? b)
  | _ => none

/-- How many octets follow the first one of a character. -/
def following? (octet : Nat) : Option Nat :=
  if octet < 0x80 then some 0
  else if octet / 0x20 == 0x6 then some 1
  else if octet / 0x10 == 0xE then some 2
  else if octet / 0x08 == 0x1E then some 3
  else none

/-- Reads an address, of which the octets read so far are kept in reverse; `missing` octets of the
current character are still to come.  Whether they make up a character is not looked at. -/
def tagAddress (isPart : Char → Bool) (octets : Octets) (missing : Nat) :
    List Char → Except Malformed (Octets × List Char)
  | [] => if missing = 0 then .ok (octets, []) else .error .tagEscape
  | '%' :: a :: b :: r =>
    match escapedOctet? ['%', a, b] with
    | none => .error .tagEscape
    | some octet =>
      let octets := UInt8.ofNat octet :: octets
      if missing = 0 then
        match following? octet with
        | none => .error .tagEscape
        | some n => tagAddress isPart octets n r
      else if octet / 0x40 ≠ 2 then .error .tagEscape
      else tagAddress isPart octets (missing - 1) r
  | ch :: r =>
    if missing ≠ 0 || ch == '%' then .error .tagEscape
    else if isPart ch then tagAddress isPart (UInt8.ofNat ch.toNat :: octets) 0 r
    else .ok (octets, ch :: r)

/-- Reads the rest of an address that begins with `start`. -/
def takeAddress (isPart : Char → Bool) (start : List Char) (c : Cursor) :
    Except Malformed (Octets × Cursor) := do
  let (octets, rest) ← tagAddress isPart [] 0 c.rest
  let address := Octets.ofString (.ofList start) ++ octets.reverse
  return (address, c.within (c.rest.length - rest.length) rest)

/-- Reads `!`, `!!` or `!name!`, or, if the second mark is missing, `!name`. -/
def takeHandle (c : Cursor) : Except Malformed (List Char × Cursor) :=
  match c.rest with
  | '!' :: r =>
    let (word, c) := (c.within 1 r).span isWordChar
    match c.rest with
    | '!' :: r => .ok ('!' :: word ++ ['!'], c.within 1 r)
    | _ => .ok ('!' :: word, c)
  | _ => .error .tagHandle

/-- A handle with both marks. -/
def isNamedHandle (handle : List Char) : Bool :=
  handle.length > 1 && handle.getLast? == some '!'

/-- Reads a line that begins with `%`. -/
def scanDirective (c : Cursor) : Except Malformed (Token × Cursor) := do
  let (name, c) := c.next.span isWordChar
  if name.isEmpty || !endsWord c.rest then throw .directiveName
  let c := c.skipWhile isBlank
  if name == "YAML".toList then
    let (major, c) ← versionNumber c
    if c.rest.head? != some '.' then throw .directiveVersion
    let (minor, c) ← versionNumber c.next
    return (.versionDirective major minor, ← endLine .directiveEnd c)
  else if name == "TAG".toList then
    let (handle, c) ← takeHandle c
    if handle != ['!'] && !isNamedHandle handle then throw .tagHandle
    if !c.rest.head?.any isBlank then throw .tagHandle
    let (address, c) ← takeAddress isDelimitedTagChar [] (c.skipWhile isBlank)
    if address.isEmpty then throw .tagUri
    if !endsWord c.rest then throw .tagEnd
    return (.tagDirective (.ofList handle) address, ← endLine .directiveEnd c)
  else throw .directiveName

/-! ## Anchors, aliases and tags -/

/-- Reads the name behind `&` or `*`. -/
def scanName (c : Cursor) : Except Malformed (String × Cursor) :=
  let (name, c) := c.next.span isWordChar
  if name.isEmpty then .error .anchorName
  else if endsWord c.rest || c.rest.head?.any ("?:,]\x7d%@`".contains ·) then
    .ok (.ofList name, c)
  else .error .anchorName

/-- Reads a tag: an address in angle brackets, a handle with a suffix, or a suffix alone.  A mark
with nothing behind it is a whole address. -/
def scanTag (inFlow : Bool) (c : Cursor) : Except Malformed (Token × Cursor) := do
  let (handle, suffix, c) ← show Except Malformed (List Char × Octets × Cursor) from
    match c.rest with
    | '!' :: '<' :: r => do
      let (address, c) ← takeAddress isDelimitedTagChar [] (c.within 2 r)
      if address.isEmpty || c.rest.head? != some '>' then throw .tagUri
      return ([], address, c.next)
    | _ => do
      let (handle, c) ← takeHandle c
      if isNamedHandle handle then
        let (suffix, c) ← takeAddress isTagChar [] c
        if suffix.isEmpty then throw .tagUri
        return (handle, suffix, c)
      else
        let (suffix, c) ← takeAddress isTagChar (handle.drop 1) c
        if suffix.untilZero.isEmpty then return ([], Tag.ownMark, c) else return (['!'], suffix, c)
  if endsWord c.rest || (inFlow && c.rest.head? == some ',') then
    return (.tag (.ofList handle) suffix, c)
  else throw .tagEnd

/-! ## One token -/

/-- A scalar, an alias, an anchor or a tag: something that a key may begin with. -/
def content (l : Lexer) (read : Cursor → Except Malformed (Token × Cursor)) :
    Except Malformed Lexer := do
  let l ← l.noteCandidate
  let (t, cursor) ← read l.cursor
  return { l with tokens := l.tokens.push t, cursor, keyAllowed := false }

/-- A directive or a document mark: it closes all open blocks. -/
def betweenDocuments (l : Lexer) : Except Malformed Lexer := do
  let l ← (l.closeBlocks none).dropCandidate
  return { l with keyAllowed := false }

/-- `[` or `{`. -/
def flowStart (l : Lexer) (t : Token) : Except Malformed Lexer := do
  let l ← l.noteCandidate
  let l := { l with outer := l.candidate :: l.outer, candidate := none, keyAllowed := true }
  return l.emit t 1

/-- `]` or `}`. -/
def flowEnd (l : Lexer) (t : Token) : Except Malformed Lexer := do
  let l ← l.dropCandidate
  let l := match l.outer with
    | [] => l
    | candidate :: outer => { l with candidate, outer }
  return { l with keyAllowed := false }.emit t 1

/-- The comma of a flow collection. -/
def flowEntry (l : Lexer) : Except Malformed Lexer := do
  let l ← l.dropCandidate
  return { l with keyAllowed := true }.emit .flowEntry 1

/-- The dash of a block sequence. -/
def blockEntry (l : Lexer) : Except Malformed Lexer := do
  if !l.inFlow && !l.keyAllowed then throw .entryNotAllowed
  let l := l.openBlock l.cursor.column l.tokens.size .blockSequenceStart
  let l ← l.dropCandidate
  return { l with keyAllowed := true }.emit .blockEntry 1

/-- The question mark in front of a key. -/
def explicitKey (l : Lexer) : Except Malformed Lexer := do
  if !l.inFlow && !l.keyAllowed then throw .keyNotAllowed
  let l := l.openBlock l.cursor.column l.tokens.size .blockMappingStart
  let l ← l.dropCandidate
  return { l with keyAllowed := !l.inFlow }.emit .key 1

/-- The colon in front of a value.  If a candidate is open, it was a key. -/
def value (l : Lexer) : Except Malformed Lexer :=
  match l.candidate with
  | some k =>
    let l := { l with
      tokens := l.tokens.insertIdxIfInBounds k.slot .key
      candidate := none
      keyAllowed := false }
    .ok ((l.openBlock k.column k.slot .blockMappingStart).emit .value 1)
  | none =>
    if !l.inFlow && !l.keyAllowed then .error .valueNotAllowed
    else
      let l := l.openBlock l.cursor.column l.tokens.size .blockMappingStart
      .ok ({ l with keyAllowed := !l.inFlow }.emit .value 1)

/-- `|` or `>`. -/
def blockScalar (l : Lexer) (literal : Bool) : Except Malformed Lexer := do
  let l ← l.dropCandidate
  let (text, cursor) ← scanBlock literal l.indents.head? l.cursor.next
  return { l with tokens := l.tokens.push (.scalar text .quoted), cursor, keyAllowed := true }

def quotedScalar (l : Lexer) (double : Bool) : Except Malformed Lexer :=
  l.content fun c => do
    let (text, c) ← scanQuoted double [] none c.next
    return (.scalar text .quoted, c)

/-- A plain scalar.  Behind a break a key may begin. -/
def plainScalar (l : Lexer) : Except Malformed Lexer := do
  let l ← l.noteCandidate
  let indent := l.indents.head?.elim 0 (· + 1)
  let (text, broken, cursor) ← scanPlain l.inFlow indent [] none l.cursor
  return { l with tokens := l.tokens.push (.scalar text .plain), cursor, keyAllowed := broken }

/-- The end of the text closes everything. -/
def finish (l : Lexer) : Except Malformed Lexer := do
  let l ← (l.closeBlocks none).dropCandidate
  return l.push .streamEnd

/-- Characters that mean something at the start of a token. -/
def isIndicator (c : Char) : Bool := "-?:,[]\x7b\x7d#&*!|>'\"%@`".toList.contains c

/-- A plain scalar begins with any character but an indicator; dash, question mark and colon begin
one where they are not indicators. -/
def startsPlain (inFlow : Bool) (c : Char) (r : List Char) : Bool :=
  !(isBlankOrBreak c || isIndicator c) || (c == '-' && !r.head?.any isBlank)
    || (!inFlow && (c == '?' || c == ':') && !endsWord r)

/-- Reads the next token from a place where one begins with `c`. -/
def token (l : Lexer) (c : Char) (r : List Char) : Except Malformed Lexer :=
  let lineStart := l.cursor.column == 0
  if lineStart && c == '%' then do
    let l ← l.betweenDocuments
    let (t, cursor) ← scanDirective l.cursor
    return { l with tokens := l.tokens.push t, cursor }
  else if lineStart && isDocumentMark '-' (c :: r) then
    return (← l.betweenDocuments).emit .documentStart 3
  else if lineStart && isDocumentMark '.' (c :: r) then
    return (← l.betweenDocuments).emit .documentEnd 3
  else if c == '[' then l.flowStart .flowSequenceStart
  else if c == '{' then l.flowStart .flowMappingStart
  else if c == ']' then l.flowEnd .flowSequenceEnd
  else if c == '}' then l.flowEnd .flowMappingEnd
  else if c == ',' then l.flowEntry
  else if c == '-' && endsWord r then l.blockEntry
  else if c == '?' && (l.inFlow || endsWord r) then l.explicitKey
  else if c == ':' && (l.inFlow || endsWord r) then l.value
  else if c == '*' then l.content fun c => do
    let (name, c) ← scanName c
    return (.alias name, c)
  else if c == '&' then l.content fun c => do
    let (name, c) ← scanName c
    return (.anchor name, c)
  else if c == '!' then l.content (scanTag l.inFlow)
  else if c == '|' && !l.inFlow then l.blockScalar true
  else if c == '>' && !l.inFlow then l.blockScalar false
  else if c == '\'' then l.quotedScalar false
  else if c == '"' then l.quotedScalar true
  else if startsPlain l.inFlow c r then l.plainScalar
  else .error .strayCharacter

/-- Reads all tokens that are left of a text with `size` octets. -/
def run (size : Nat) (l : Lexer) : Except Malformed (Array Token) := do
  let (keyAllowed, cursor) := skipBlanks l.inFlow l.keyAllowed l.cursor
  let l' ← { l with keyAllowed, cursor }.dropExpired
  let l' := l'.closeBlocks (some l'.cursor.column)
  match l'.cursor.rest with
  | [] => return (← l'.finish).tokens
  | c :: r =>
    let l' ← l'.token c r
    -- every token takes at least one character, so the other branch is never reached
    if l.cursor.index < l'.cursor.index ∧ l'.cursor.index ≤ size then l'.run size
    else throw .strayCharacter
termination_by size - l.cursor.index

end Lexer

/-- The tokens of a text, `streamEnd` last. -/
def tokens (text : String) : Except Malformed (Array Token) :=
  let chars := text.toList
  if chars.all isAllowed then Lexer.run text.utf8ByteSize { cursor := { rest := chars } }
  else .error .controlCharacter

end FlatApi.Yaml
