import FlatApi.Wrapper

/-!
# Lines of code

A listing grows line by line.  A line is indented as deeply as the listing is at that moment,
unless it is empty.
-/

namespace FlatApi

structure Listing where
  /-- The lines, the last one first. -/
  reversed : List String := []
  depth : Nat := 0
  /-- The text of one level of indentation. -/
  unit : String

namespace Listing

def lines (l : Listing) : List String := l.reversed.reverse

/-- A text in front of which the unit stands `n` times. -/
def indented (unit : String) (n : Nat) (text : String) : String :=
  String.join (List.replicate n unit) ++ text

def blank (l : Listing) : Listing := { l with reversed := "" :: l.reversed }

def line (l : Listing) (text : String) : Listing :=
  if text.isEmpty then l.blank
  else { l with reversed := indented l.unit l.depth text :: l.reversed }

def indent (l : Listing) : Listing := { l with depth := l.depth + 1 }

/-- Indentation never falls below none. -/
def dedent (l : Listing) : Listing := { l with depth := l.depth - 1 }

def addLines (l : Listing) (texts : List String) : Listing := texts.foldl line l

/-- The declaration, the body between braces, and an empty line. -/
def wrapper (l : Listing) (w : Wrapper) (exportMacro : Option String) : Listing :=
  let l := (l.line (w.declaration exportMacro)).line "\x7b"
  let l := (l.indent.addLines w.body).dedent
  (l.line "\x7d").blank

/-- The whole text; the last line ends like all others. -/
def contents (l : Listing) : String := "\n".intercalate l.lines ++ "\n"

end Listing

end FlatApi
