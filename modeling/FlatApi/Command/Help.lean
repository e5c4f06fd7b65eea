import FlatApi.Command.Arguments

/-!
# Help texts
-/

namespace FlatApi

namespace HelpTopic

def verboseText : String := "Enable verbose (debug) logging unless RUST_LOG says otherwise"

/-- The usage line, and the options with what they mean. -/
def lines : HelpTopic → List String
  | .program =>
    ["Flat C API wrapper generator for native class hierarchies", "",
      "Usage: capi-gen [OPTIONS] <COMMAND>", "",
      "Commands:",
      "  codegen  Generate the flat C API source file",
      "  analyze  Run generation without writing anything and print the symbol manifest",
      "  help     Print this message or the help of the given subcommand(s)", "",
      "Options:",
      "  -v, --verbose  " ++ verboseText,
      "  -h, --help     Print help"]
  | .codegen =>
    ["Generate the flat C API source file", "",
      "Usage: capi-gen codegen [OPTIONS] --entities <FILE>", "",
      "Options:",
      "  -e, --entities <FILE>     Entity file produced by the native parser",
      "  -v, --verbose             " ++ verboseText,
      "  -t, --type-map <FILE>     Type map file (native type -> C type)",
      "  -c, --config <FILE>       Generator options file",
      "  -o, --output <DIR>        Output directory, overrides the options file",
      "      --output-file <NAME>  Output file name, overrides the options file",
      "  -h, --help                Print help"]
  | .analyze =>
    ["Run generation without writing anything and print the symbol manifest", "",
      "Usage: capi-gen analyze [OPTIONS] --entities <FILE>", "",
      "Options:",
      "  -e, --entities <FILE>  Entity file produced by the native parser",
      "  -v, --verbose          " ++ verboseText,
      "  -t, --type-map <FILE>  Type map file (native type -> C type)",
      "  -c, --config <FILE>    Generator options file",
      "      --format <FORMAT>  Manifest output format "
        ++ "[default: text] [possible values: text, json]",
      "  -h, --help             Print help"]
  | .help =>
    ["Print this message or the help of the given subcommand(s)", "",
      "Usage: capi-gen help [COMMAND]...", "",
      "Arguments:",
      "  [COMMAND]...  Print help for the subcommand(s)"]

def text (t : HelpTopic) : String := String.join (t.lines.map (· ++ "\n"))

end HelpTopic

/-- How a command line ends. -/
inductive Outcome where
  /-- With this text on standard output. -/
  | done (output : String)
  | failed (f : Failure)
  | misused (e : UsageError)
  deriving DecidableEq

namespace Outcome

def exitCode : Outcome → Nat
  | .done _ => 0
  | .failed _ => 1
  | .misused _ => 2

/-- Understands a command line and does what it asks for. -/
def ofArguments {m : Type → Type} [Monad m] [Storage m] (args : List String) : m Outcome := do
  match Request.ofArguments args with
  | .error e => return .misused e
  | .ok (.help topic) => return .done topic.text
  | .ok (.run c) => match ← c.run with
    | .ok output => return .done output
    | .error f => return .failed f

end Outcome

end FlatApi
