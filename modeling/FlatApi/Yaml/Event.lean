import FlatApi.Yaml.Token
import FlatApi.Yaml.Malformed

/-!
# From tokens to events

An event says that a node begins, ends or stands here; the events of a document are its nodes in
the order of the text.  A stack of goals, innermost first, says what the coming tokens have to be.
A goal either takes a token or gives way to simpler goals without taking one; the second kind of
move lowers the rank of the stack, so there is always an end to it (`Event.run`).

A node may be left out in most places; it is then an empty plain scalar.
-/

namespace FlatApi.Yaml

inductive Event where
  | alias (name : String)
  | scalar (anchor : Option String) (tag : Option Tag) (text : String) (style : Style)
  | sequenceStart (anchor : Option String) (tag : Option Tag)
  | sequenceEnd
  | mappingStart (anchor : Option String) (tag : Option Tag)
  | mappingEnd

/-- The node that stands where none is written. -/
def Event.empty : Event := .scalar none none "" .plain

/-- A place for a node, named by what is around it. -/
inductive Site where
  /-- A document without directives and without a mark at its start. -/
  | document
  /-- A document behind its mark. -/
  | markedDocument
  | blockItem
  /-- An item of a sequence that is indented no further than the key it belongs to. -/
  | alignedItem
  | blockPair
  | flowItem
  | flowItemValue
  | flowKey
  | flowValue

namespace Site

/-- The tokens before which the node of the place is left out. -/
def isEnd (site : Site) (t : Token) : Bool :=
  match site, t with
  | .markedDocument, .versionDirective .. | .markedDocument, .tagDirective ..
  | .markedDocument, .documentStart | .markedDocument, .documentEnd
  | .markedDocument, .streamEnd => true
  | .blockItem, .blockEntry | .blockItem, .blockEnd => true
  | .alignedItem, .blockEntry | .alignedItem, .key | .alignedItem, .value
  | .alignedItem, .blockEnd => true
  | .blockPair, .key | .blockPair, .value | .blockPair, .blockEnd => true
  | .flowItemValue, .flowEntry | .flowItemValue, .flowSequenceEnd => true
  | .flowKey, .value | .flowKey, .flowEntry | .flowKey, .flowMappingEnd => true
  | .flowValue, .flowEntry | .flowValue, .flowMappingEnd => true
  | _, _ => false

/-- Block collections may stand here. -/
def isBlock : Site → Bool
  | .document | .markedDocument | .blockItem | .alignedItem | .blockPair => true
  | .flowItem | .flowItemValue | .flowKey | .flowValue => false

/-- A sequence may stand here without an indentation of its own. -/
def allowsAligned : Site → Bool
  | .blockPair => true
  | _ => false

end Site

/-- What has to come next. -/
inductive Goal where
  | node (site : Site)
  /-- A node whose anchor or tag was read. -/
  | decorated (site : Site) (anchor : Option String) (tag : Option Tag)
  | blockItems
  | alignedItems
  | blockKeys
  | blockValue
  | flowItems
  | flowItemsEnd
  /-- The key of a flow item that is a mapping of one pair. -/
  | flowItemKey
  | flowItemValue
  | flowItemEnd
  | flowKeys
  | flowKeysEnd
  | flowValue
  /-- A flow key without a mark in front has no value left to read. -/
  | noValue

namespace Goal

/-- A bound on the moves that take no token. -/
def rank : Goal → Nat
  | .node _ | .decorated .. => 2
  | .alignedItems | .blockValue | .flowItemEnd | .flowValue | .noValue => 1
  | .flowItemValue => 2
  | .flowItems => 3
  | .flowKeys => 4
  | .flowItemKey => 5
  | .blockItems | .blockKeys | .flowItemsEnd | .flowKeysEnd => 0

end Goal

def totalRank : List Goal → Nat
  | [] => 0
  | g :: goals => g.rank + totalRank goals

theorem totalRank_append (gs hs : List Goal) :
    totalRank (gs ++ hs) = totalRank gs + totalRank hs := by
  induction gs with
  | nil => rw [List.nil_append, totalRank, Nat.zero_add]
  | cons g gs ih => rw [List.cons_append, totalRank, totalRank, ih, Nat.add_assoc]

/-- One move of a goal whose rank is `bound`: the goals that take its place, and events. -/
inductive Move (bound : Nat) where
  /-- The token is taken. -/
  | shift (goals : List Goal) (events : List Event)
    (few : totalRank goals ≤ 5 := by exact Nat.le_of_ble_eq_true rfl)
  /-- The token is left for the new goals. -/
  | reduce (goals : List Goal) (events : List Event) (lower : totalRank goals < bound)

/-- The addresses that tag handles stand for. -/
abbrev TagHandles := List (String × Octets)

namespace TagHandles

/-- Handles that need no directive. -/
def standard : TagHandles := [("!", Tag.ownMark), ("!!", Tag.common)]

/-- The tag for a handle and a suffix.  Without a handle the suffix is the whole address. -/
def expand (handles : TagHandles) (handle : String) (suffix : Octets) : Except Malformed Tag :=
  if handle.isEmpty then .ok (.ofAddress suffix.untilZero)
  else match handles.lookup handle with
    | some address => .ok (.ofAddress (address.untilZero ++ suffix.untilZero))
    | none => .error .undefinedTagHandle

end TagHandles

namespace Event

/-- A node behind its anchor and tag. -/
def content (site : Site) (anchor : Option String) (tag : Option Tag) (t : Token) :
    Except Malformed (Move 2) :=
  match t with
  | .scalar text style => .ok (.shift [] [.scalar anchor tag text style])
  | .flowSequenceStart => .ok (.shift [.flowItems] [.sequenceStart anchor tag])
  | .flowMappingStart => .ok (.shift [.flowKeys] [.mappingStart anchor tag])
  | t =>
    if site.isBlock && t == .blockSequenceStart then
      .ok (.shift [.blockItems] [.sequenceStart anchor tag])
    else if site.isBlock && t == .blockMappingStart then
      .ok (.shift [.blockKeys] [.mappingStart anchor tag])
    else if site.allowsAligned && t == .blockEntry then
      .ok (.reduce [.alignedItems] [.sequenceStart anchor tag] (by decide))
    else if anchor.isSome || tag.isSome then
      .ok (.reduce [] [.scalar anchor tag "" .plain] (by decide))
    else .error .expectedNode

/-- The move of a goal in front of a token. -/
def step (handles : TagHandles) (g : Goal) (t : Token) : Except Malformed (Move g.rank) :=
  match g with
  | .node site =>
    if site.isEnd t then .ok (.reduce [] [.empty] Nat.zero_lt_two)
    else match t with
      | .alias name => .ok (.shift [] [.alias name])
      | .anchor name => .ok (.shift [.decorated site (some name) none] [])
      | .tag handle suffix => do
        return .shift [.decorated site none (some (← handles.expand handle suffix))] []
      | t => content site none none t
  | .decorated site anchor tag =>
    match t, anchor, tag with
    | .anchor name, none, some tag => .ok (.shift [.decorated site (some name) (some tag)] [])
    | .tag handle suffix, some anchor, none => do
      let tag ← handles.expand handle suffix
      return .shift [.decorated site (some anchor) (some tag)] []
    | t, anchor, tag => content site anchor tag t
  | .blockItems => match t with
    | .blockEntry => .ok (.shift [.node .blockItem, .blockItems] [])
    | .blockEnd => .ok (.shift [] [.sequenceEnd])
    | _ => .error .expectedBlockEntry
  | .alignedItems => match t with
    | .blockEntry => .ok (.shift [.node .alignedItem, .alignedItems] [])
    | _ => .ok (.reduce [] [.sequenceEnd] (by decide))
  | .blockKeys => match t with
    | .key => .ok (.shift [.node .blockPair, .blockValue] [])
    | .blockEnd => .ok (.shift [] [.mappingEnd])
    | _ => .error .expectedKey
  | .blockValue => match t with
    | .value => .ok (.shift [.node .blockPair, .blockKeys] [])
    | _ => .ok (.reduce [.blockKeys] [.empty] (by decide))
  | .flowItems => match t with
    | .key => .ok (.shift [.flowItemKey] [.mappingStart none none])
    | .flowSequenceEnd => .ok (.shift [] [.sequenceEnd])
    | _ => .ok (.reduce [.node .flowItem, .flowItemsEnd] [] (by decide))
  | .flowItemsEnd => match t with
    | .flowEntry => .ok (.shift [.flowItems] [])
    | .flowSequenceEnd => .ok (.shift [] [.sequenceEnd])
    | _ => .error .expectedFlowEntry
  | .flowItemKey => match t with
    -- a key that is left out takes the token behind it along
    | .value | .flowEntry | .flowSequenceEnd => .ok (.shift [.flowItemValue] [.empty])
    | _ => .ok (.reduce [.node .flowItem, .flowItemValue] [] (by decide))
  | .flowItemValue => match t with
    | .value => .ok (.shift [.node .flowItemValue, .flowItemEnd] [])
    | _ => .ok (.reduce [.flowItemEnd] [.empty] (by decide))
  | .flowItemEnd => .ok (.reduce [.flowItemsEnd] [.mappingEnd] (by decide))
  | .flowKeys => match t with
    | .key => .ok (.shift [.node .flowKey, .flowValue] [])
    | .flowMappingEnd => .ok (.shift [] [.mappingEnd])
    | _ => .ok (.reduce [.node .flowItem, .noValue] [] (by decide))
  | .flowKeysEnd => match t with
    | .flowEntry => .ok (.shift [.flowKeys] [])
    | .flowMappingEnd => .ok (.shift [] [.mappingEnd])
    | _ => .error .expectedFlowEntry
  | .flowValue => match t with
    | .value => .ok (.shift [.node .flowValue, .flowKeysEnd] [])
    | _ => .ok (.reduce [.flowKeysEnd] [.empty] (by decide))
  | .noValue => .ok (.reduce [.flowKeysEnd] [.empty] (by decide))

/-- Reads tokens until no goal is left.  Returns the events and the tokens not taken. -/
def run (handles : TagHandles) (events : Array Event) (goals : List Goal) (ts : List Token) :
    Except Malformed (Array Event × List Token) :=
  match goals, ts with
  | [], ts => .ok (events, ts)
  | _ :: _, [] => .error .incomplete
  | g :: goals, t :: ts =>
    match step handles g t with
    | .error m => .error m
    | .ok (.shift new es _few) => run handles (events ++ es) (new ++ goals) ts
    | .ok (.reduce new es _lower) => run handles (events ++ es) (new ++ goals) (t :: ts)
-- a token pays for the goals that a shift puts in its place
termination_by 6 * ts.length + totalRank goals
decreasing_by
  · rw [totalRank_append, totalRank, List.length_cons]
    omega
  · rw [totalRank_append, totalRank, List.length_cons]
    omega

/-! ## Documents -/

/-- The directives in front of a document.  A version and a handle are declared at most once. -/
def directives (version : Bool) (handles : TagHandles) :
    List Token → Except Malformed (TagHandles × List Token)
  | .versionDirective major minor :: ts =>
    if version then .error .repeatedDirective
    else if major == 1 && (minor == 1 || minor == 2) then directives true handles ts
    else .error .unsupportedVersion
  | .tagDirective handle address :: ts =>
    if (handles.lookup handle).isSome then .error .repeatedDirective
    else directives version ((handle, address) :: handles) ts
  | ts => .ok (handles, ts)

/-- Behind the first document only marks of its end may come. -/
def nothingLeft : List Token → Except Malformed Unit
  | .documentEnd :: ts => nothingLeft ts
  | [.streamEnd] => .ok ()
  | _ => .error .severalDocuments

/-- The events of a text with one document; none if there is no document. -/
def ofTokens (ts : List Token) : Except Malformed (Array Event) := do
  match ts with
  | .streamEnd :: _ => return #[]
  | .versionDirective .. :: _ | .tagDirective .. :: _ | .documentStart :: _ =>
    let (handles, ts) ← directives false [] ts
    let .documentStart :: ts := ts | throw .expectedDocumentStart
    let (events, ts) ← run (handles ++ TagHandles.standard) #[] [.node .markedDocument] ts
    nothingLeft ts
    return events
  | ts =>
    let (events, ts) ← run TagHandles.standard #[] [.node .document] ts
    nothingLeft ts
    return events

end Event

end FlatApi.Yaml
