import FlatApi.Command

/-!
# The command line

The words of a command line are taken in order, and the first one that cannot be understood ends
the reading.  A value follows its option as the next word, or in the same word, behind an equals
sign or directly behind a short option.
-/

namespace FlatApi

/-- Why a command line is not understood. -/
inductive UsageError where
  | noCommand
  | unknownCommand (word : String)
  | unexpected (word : String)
  | unexpectedValue (option : String)
  | noValue (option : String)
  | invalidValue (option value : String)
  | repeated (option : String)
  | missing (option : String)
  deriving DecidableEq

namespace UsageError

def message : UsageError → String
  | .noCommand => "a command is required"
  | .unknownCommand word => s!"unrecognized command '{word}'"
  | .unexpected word => s!"unexpected argument '{word}'"
  | .unexpectedValue option => s!"option '{option}' takes no value"
  | .noValue option => s!"option '{option}' needs a value"
  | .invalidValue option value => s!"invalid value '{value}' for option '{option}'"
  | .repeated option => s!"option '{option}' cannot be used several times"
  | .missing option => s!"option '{option}' is required"

end UsageError

/-- What help is about. -/
inductive HelpTopic where
  | program
  | codegen
  | analyze
  | help
  deriving DecidableEq

/-- What a command line asks for. -/
inductive Request where
  | help (topic : HelpTopic)
  | run (c : Command)
  deriving DecidableEq

/-! ## Words -/

/-- A word of the command line. -/
inductive Word where
  /-- Two dashes: only plain words follow. -/
  | endOfOptions
  /-- A name behind two dashes, with the value behind its equals sign. -/
  | long (name : String) (value : Option String)
  /-- Letters behind one dash. -/
  | short (letters : List Char)
  | plain (s : String)

def Word.ofString (s : String) : Word :=
  match s.toList with
  | ['-', '-'] => .endOfOptions
  | '-' :: '-' :: r =>
    let name := r.takeWhile (· != '=')
    match r.drop name.length with
    | [] => .long (.ofList name) none
    | _ :: value => .long (.ofList name) (some (.ofList value))
  | '-' :: c :: r => .short (c :: r)
  | _ => .plain s

/-! ## Options of a command -/

inductive CommandName where
  | codegen
  | analyze
  deriving DecidableEq

/-- The options that take a value. -/
inductive ValueOption where
  | entities
  | typeMap
  | config
  | outputDir
  | outputFile
  | format
  deriving DecidableEq

namespace ValueOption

def name : ValueOption → String
  | .entities => "entities"
  | .typeMap => "type-map"
  | .config => "config"
  | .outputDir => "output"
  | .outputFile => "output-file"
  | .format => "format"

def letter? : ValueOption → Option Char
  | .entities => some 'e'
  | .typeMap => some 't'
  | .config => some 'c'
  | .outputDir => some 'o'
  | .outputFile | .format => none

/-- The options of a command. -/
def all : CommandName → List ValueOption
  | .codegen => [.entities, .typeMap, .config, .outputDir, .outputFile]
  | .analyze => [.entities, .typeMap, .config, .format]

def ofName? (c : CommandName) (name : String) : Option ValueOption :=
  (all c).find? (·.name == name)

def ofLetter? (c : CommandName) (letter : Char) : Option ValueOption :=
  (all c).find? (·.letter? == some letter)

/-- A file or directory needs a name; a format has to be a known one. -/
def accepts (o : ValueOption) (value : String) : Bool :=
  match o with
  | .entities | .typeMap | .config | .outputDir => !value.isEmpty
  | .outputFile => true
  | .format => value == "text" || value == "json"

end ValueOption

/-- What was given so far. -/
structure Given where
  verbose : Bool := false
  values : List (ValueOption × String) := []

namespace Given

def value? (g : Given) (o : ValueOption) : Option String := g.values.lookup o

/-- Adds the value of an option. -/
def set (g : Given) (o : ValueOption) (value : String) : Except UsageError Given :=
  if !o.accepts value then .error (.invalidValue o.name value)
  else if (g.value? o).isSome then .error (.repeated o.name)
  else .ok { g with values := (o, value) :: g.values }

def setVerbose (g : Given) : Except UsageError Given :=
  if g.verbose then .error (.repeated "verbose") else .ok { g with verbose := true }

end Given

/-- What a word is, after those before it. -/
inductive Reading where
  | go (g : Given)
  /-- The next word is the value of the option. -/
  | awaiting (g : Given) (o : ValueOption)
  | help

/-- Reads the letters behind one dash.  The rest of the word behind an option with a value is its
value. -/
def Reading.ofLetters (c : Option CommandName) (g : Given) : List Char → Except UsageError Reading
  | [] => .ok (.go g)
  | 'v' :: r => do ofLetters c (← g.setVerbose) r
  | 'h' :: _ => .ok .help
  | letter :: r =>
    match c.bind (ValueOption.ofLetter? · letter) with
    | none => .error (.unexpected (String.ofList ['-', letter]))
    | some o =>
      match r with
      | [] => .ok (.awaiting g o)
      | '=' :: value => .go <$> g.set o (.ofList value)
      | value => .go <$> g.set o (.ofList value)

/-- Reads an option with a long name. -/
def Reading.ofLong (c : Option CommandName) (g : Given) (name : String) (value : Option String) :
    Except UsageError Reading :=
  if name == "verbose" then
    if value.isSome then .error (.unexpectedValue name) else .go <$> g.setVerbose
  else if name == "help" then
    if value.isSome then .error (.unexpectedValue name) else .ok .help
  else match c.bind (ValueOption.ofName? · name), value with
    | none, _ => .error (.unexpected ("--" ++ name))
    | some o, none => .ok (.awaiting g o)
    | some o, some value => .go <$> g.set o value

/-- The command for the options given. -/
def Given.command (g : Given) (c : CommandName) : Except UsageError Command := do
  let some entities := g.value? .entities | throw (.missing "entities")
  let paths : InputPaths := { entities, typeMap := g.value? .typeMap, config := g.value? .config }
  match c with
  | .codegen => return .codegen paths (g.value? .outputDir) (g.value? .outputFile)
  | .analyze =>
    return .analyze paths (if g.value? .format == some "json" then .json else .text)

def CommandName.topic : CommandName → HelpTopic
  | .codegen => .codegen
  | .analyze => .analyze

/-- Reads the words behind the name of a command.  `awaiting` is an option whose value comes
next. -/
def Request.ofOptions (c : CommandName) (g : Given) (awaiting : Option ValueOption) :
    List String → Except UsageError Request
  | [] => match awaiting with
    | some o => .error (.noValue o.name)
    | none => .run <$> g.command c
  | s :: rest =>
    match awaiting, Word.ofString s with
    | some o, .plain value => do ofOptions c (← g.set o value) none rest
    | some o, _ => .error (.noValue o.name)
    | none, .endOfOptions => match rest with
      | [] => .run <$> g.command c
      | s :: _ => .error (.unexpected s)
    | none, .plain s => .error (.unexpected s)
    | none, .long name value => do
      match ← Reading.ofLong (some c) g name value with
      | .go g => ofOptions c g none rest
      | .awaiting g o => ofOptions c g (some o) rest
      | .help => return .help c.topic
    | none, .short letters => do
      match ← Reading.ofLetters (some c) g letters with
      | .go g => ofOptions c g none rest
      | .awaiting g o => ofOptions c g (some o) rest
      | .help => return .help c.topic

/-- What `help` is asked about. -/
def Request.ofTopic : List String → Except UsageError Request
  | [] => .ok (.help .program)
  | s :: rest => do
    let topic ← match s with
      | "codegen" => .ok .codegen
      | "analyze" => .ok .analyze
      | "help" => .ok .help
      | s => .error (.unknownCommand s)
    match rest with
    | [] => return .help topic
    | s :: _ => throw (.unknownCommand s)

/-- Reads the words in front of the name of a command. -/
def Request.ofWords (g : Given) : List String → Except UsageError Request
  | [] => .error .noCommand
  | s :: rest =>
    match Word.ofString s with
    | .plain "codegen" => ofOptions .codegen {} none rest
    | .plain "analyze" => ofOptions .analyze {} none rest
    | .plain "help" => ofTopic rest
    | .plain s => .error (.unknownCommand s)
    | .endOfOptions => match rest with
      | [] => .error .noCommand
      | s :: _ => .error (.unexpected s)
    | .long name value => do
      match ← Reading.ofLong none g name value with
      | .go g | .awaiting g _ => ofWords g rest
      | .help => return .help .program
    | .short letters => do
      match ← Reading.ofLetters none g letters with
      | .go g | .awaiting g _ => ofWords g rest
      | .help => return .help .program

/-- What a command line asks for. -/
def Request.ofArguments (args : List String) : Except UsageError Request := ofWords {} args

end FlatApi
