import ClientForge.Text.Quoted
import ClientForge.Text.Split
/-!
# Options and usage

The options of the tool, how they are written, and what is said about arguments that do not fit.
-/

namespace ClientForge
namespace CommandLine

/-- An option of the tool. -/
inductive Flag where
  | language
  | output
  | name
  | config
  | noClobber
  | verbose
  | help
deriving DecidableEq, Repr

namespace Flag

/-- All options, in the order of the help text. -/
def all : List Flag :=
  [.language, .output, .name, .config, .noClobber, .verbose, .help]

/-- The long form of an option. -/
def long : Flag → String
  | .language => "--lang"
  | .output => "--output"
  | .name => "--name"
  | .config => "--config"
  | .noClobber => "--no-clobber"
  | .verbose => "--verbose"
  | .help => "--help"

/-- The letter of an option's short form. -/
def letter? : Flag → Option Char
  | .language => some 'x'
  | .output => some 'o'
  | .name => some 'n'
  | .config => some 'c'
  | .verbose => some 'v'
  | .noClobber => none
  | .help => none

/-- Whether an option has a value. -/
def takesValue : Flag → Bool
  | .language => true
  | .output => true
  | .name => true
  | .config => true
  | _ => false

/-- Both forms of an option, as messages name it. -/
def title (flag : Flag) : String :=
  match flag.letter? with
  | some letter => "'" ++ flag.long ++ "' / '-" ++ String.singleton letter ++ "'"
  | none => "'" ++ flag.long ++ "'"

/-- The option with a long form. -/
def ofLong? (s : String) : Option Flag :=
  all.find? (·.long = s)

/-- The option with a letter. -/
def ofLetter? (c : Char) : Option Flag :=
  all.find? (·.letter? = some c)

end Flag

/-- What a path has to be. -/
inductive PathProblem where
  | missing
  | directory
deriving DecidableEq, Repr

/-- Why arguments are refused. An option is named as it was typed. -/
inductive UsageFault where
  | unknownOption (typed : String)
  | missingValue (typed : String)
  | needlessValue (typed : String)
  | missingSchema
  | badPath (title kind typed : String) (problem : PathProblem)
  | extraArguments (typed : List String)
deriving DecidableEq, Repr

namespace UsageFault

/-- The wording of a refusal. -/
def message : UsageFault → String
  | .unknownOption typed => "No such option " ++ Text.displayed typed ++ "."
  | .missingValue typed => "Option " ++ Text.displayed typed ++ " requires an argument."
  | .needlessValue typed => "Option " ++ Text.displayed typed ++ " does not take a value."
  | .missingSchema => "Missing argument 'SCHEMA'."
  | .badPath title kind typed problem =>
    "Invalid value for " ++ title ++ ": " ++ kind ++ " " ++ Text.displayed typed ++
      match problem with
      | .missing => " does not exist."
      | .directory => " is a directory."
  | .extraArguments [typed] => "Got unexpected extra argument (" ++ typed ++ ")"
  | .extraArguments typed => "Got unexpected extra arguments (" ++ Text.join " " typed ++ ")"

/-- A fault in the value of an option is told without the usage lines. -/
def showsUsage : UsageFault → Bool
  | .missingValue _ => false
  | .needlessValue _ => false
  | _ => true

/-- What is printed about a refusal. -/
def text (fault : UsageFault) : String :=
  (if fault.showsUsage then
    "Usage: xsrc [OPTIONS] SCHEMA\nTry 'xsrc --help' for help.\n\n" else "") ++
    "Error: " ++ fault.message ++ "\n"

/-- The exit code after a refusal. -/
def exitCode : Nat := 2

end UsageFault

/-- The help text. -/
def helpText : String :=
  Text.unlines
    ["Usage: xsrc [OPTIONS] SCHEMA",
     "",
     "  Generate a REST client from the SCHEMA document.",
     "",
     "Options:",
     "  -x, --lang TEXT    Target language: javascript (js), typescript (ts) or python",
     "                     (py)",
     "  -o, --output FILE  Output file (default: stdout)",
     "  -n, --name TEXT    Client class name (overrides $as)",
     "  -c, --config PATH  JSON configuration file",
     "  --no-clobber       Fail if the output file already exists",
     "  -v, --verbose      Log each pipeline phase",
     "  --help             Show this message and exit.",
     ""]

end CommandLine
end ClientForge
