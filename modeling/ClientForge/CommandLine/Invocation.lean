import ClientForge.CommandLine.Usage
import ClientForge.Document.Value
import ClientForge.Files.Route
/-!
# Invocations

The arguments of the tool as an invocation. Options may stand anywhere, letters may be joined,
and of a repeated option the last value counts. Values are checked in the order in which their
options first appear, then the schema, then leftover arguments.
-/

namespace ClientForge
namespace CommandLine

open Files (Location Route Tree)

/-- An option as it was given. -/
structure Given where
  flag : Flag
  value : String := ""
deriving DecidableEq, Repr

/-- The options of one argument, and the option whose value has to follow, if any, with its
typed form. -/
abbrev Parsed := List Given × Option (Flag × String)

/-- The options of joined letters. The characters after a letter that takes a value are its
value. -/
def readLetters : List Char → Except UsageFault Parsed
  | [] => .ok ([], none)
  | c :: rest =>
    let typed := String.ofList ['-', c]
    match Flag.ofLetter? c with
    | none => .error (.unknownOption typed)
    | some flag =>
      if flag.takesValue then
        if rest.isEmpty then .ok ([], some (flag, typed))
        else .ok ([⟨flag, String.ofList rest⟩], none)
      else (readLetters rest).map fun (more, due) => (⟨flag, ""⟩ :: more, due)

/-- The option of a long form, perhaps with a value after an equals sign. -/
def readLong (flag : Flag) (typed : String) (value : Option String) : Except UsageFault Parsed :=
  match flag.takesValue, value with
  | true, none => .ok ([], some (flag, typed))
  | true, some value => .ok ([⟨flag, value⟩], none)
  | false, none => .ok ([⟨flag, ""⟩], none)
  | false, some _ => .error (.needlessValue typed)

/-- The options of an argument that begins with a dash. -/
def readOption (argument : String) : Except UsageFault Parsed :=
  let (name, value) := Text.cut '=' argument.toList
  let typed := String.ofList name
  match Flag.ofLong? typed with
  | some flag => readLong flag typed (value.map String.ofList)
  | none =>
    if ['-', '-'].isPrefixOf argument.toList then .error (.unknownOption typed)
    else readLetters (argument.toList.drop 1)

/-- Whether an argument is an option: a lone dash is not. -/
def isOption (argument : String) : Bool :=
  argument.toList.head? == some '-' && argument.length ≠ 1

/-- The given options and the other arguments. Everything after two dashes is no option. -/
def readArguments : List String → Except UsageFault (List Given × List String)
  | [] => .ok ([], [])
  | argument :: rest =>
    if argument = "--" then .ok ([], rest)
    else if isOption argument then
      match readOption argument with
      | .error fault => .error fault
      | .ok (given, none) =>
        (readArguments rest).map fun (more, others) => (given ++ more, others)
      | .ok (given, some (flag, typed)) =>
        match rest with
        | [] => .error (.missingValue typed)
        | value :: rest =>
          (readArguments rest).map fun (more, others) => (given ++ ⟨flag, value⟩ :: more, others)
    else (readArguments rest).map fun (given, others) => (given, argument :: others)

/-- What the tool is asked to do. -/
structure Invocation where
  language : String := "javascript"
  output : Option Location := none
  name : Option String := none
  config : Option Location := none
  noClobber : Bool := false
  verbose : Bool := false
  schema : Location
deriving DecidableEq, Repr

/-- A path that has to be no directory, or has to exist, or both. -/
def checkPath (tree : Tree) (place : Location) (title kind typed : String)
    (mustExist noDirectory : Bool) : Except UsageFault Location :=
  let target := tree.locate (Route.parseAt place typed)
  if tree.leads target then
    if noDirectory && tree.isDirectory target then .error (.badPath title kind typed .directory)
    else .ok target
  else if mustExist then .error (.badPath title kind typed .missing)
  else .ok target

/-- The last value of an option. -/
def lastValue? (flag : Flag) (given : List Given) : Option String :=
  (given.reverse.find? (·.flag = flag)).map (·.value)

/-- Options without repetitions, in the order of their first appearance. -/
def firstAppearances : List Given → List Flag
  | [] => []
  | g :: rest => g.flag :: (firstAppearances rest).filter (· ≠ g.flag)

/-- The invocation with the value of an option filled in. -/
def apply (tree : Tree) (place : Location) (given : List Given) (i : Invocation) (flag : Flag) :
    Except UsageFault Invocation :=
  let value := (lastValue? flag given).getD ""
  match flag with
  | .language => .ok { i with language := value }
  | .name => .ok { i with name := some value }
  | .output =>
    (checkPath tree place flag.title "File" value false true).map fun target =>
      { i with output := some target }
  | .config =>
    (checkPath tree place flag.title "Path" value true false).map fun target =>
      { i with config := some target }
  | .noClobber => .ok { i with noClobber := true }
  | .verbose => .ok { i with verbose := true }
  | .help => .ok i

/-- The invocation after options, in order. -/
def applyAll (tree : Tree) (place : Location) (given : List Given) (i : Invocation) :
    List Flag → Except UsageFault Invocation
  | [] => .ok i
  | flag :: rest =>
    match apply tree place given i flag with
    | .error fault => .error fault
    | .ok next => applyAll tree place given next rest

/-- What arguments ask for: help, or a compilation. -/
inductive Request where
  | help
  | compile (invocation : Invocation)
deriving DecidableEq, Repr

/-- The invocation for options and other arguments, of which the first one is the schema. -/
def Invocation.make (tree : Tree) (place : Location) (given : List Given) (others : List String) :
    Except UsageFault Invocation := do
  let i ← applyAll tree place given { schema := [] } (firstAppearances given)
  match others with
  | [] => .error .missingSchema
  | typed :: extra =>
    let schema ← checkPath tree place "'SCHEMA'" "File" typed true true
    if extra.isEmpty then pure { i with schema := schema } else .error (.extraArguments extra)

/-- What arguments ask for at a place of a tree. Help comes before all checks of values. -/
def Request.ofArguments (tree : Tree) (place : Location) (arguments : List String) :
    Except UsageFault Request := do
  let (given, others) ← readArguments arguments
  if given.any (·.flag = .help) then pure .help
  else
    let i ← Invocation.make tree place given others
    pure (.compile i)

/-! ## The invocation as a line -/

/-- The last name of a path. -/
def fileName (path : String) : String :=
  let names := (Text.splitOn '/' path.toList).filter fun name => name ≠ [] ∧ name ≠ ['.']
  String.ofList (names.getLast?.getD [])

/-- Whether a value is worth showing: it is neither empty nor the default. -/
def isShown (default value : Value) : Bool :=
  match default, value with
  | _, .null => false
  | .str usual, .str s => s != "" && s != usual
  | _, .str s => s != ""
  | _, _ => true

/-- The words for a value that is worth showing; paths are shown by their last names. -/
def valueWords (default value : Value) (isPath : Bool) : Option (List String) :=
  if isShown default value then
    value.text?.map fun text => [if isPath then fileName text else text]
  else some []

/-- The words of an option with a value. -/
def optionWords (flag : Flag) (default value : Value) (isPath : Bool) : Option (List String) :=
  (valueWords default value isPath).map fun words =>
    if words.isEmpty then [] else flag.long :: words

/-- The line of values by option and argument: the argument first, then the options that are not
at their defaults. Switches do not change what is generated and are left out. There is no line if a
value has no text. -/
def lineOf? (language output name config schema : Value) : Option String := do
  let argument ← valueWords .null schema true
  let language ← optionWords .language (.str "javascript") language false
  let output ← optionWords .output .null output true
  let name ← optionWords .name .null name false
  let config ← optionWords .config .null config true
  pure (Text.join " " ("xsrc" :: argument ++ language ++ output ++ name ++ config))

/-- A location as a value, null for none. -/
def locationValue (root : String) : Option Location → Value
  | none => .null
  | some place => .str (place.shown root)

/-- The line of an invocation. All of its values are texts, so there always is one. -/
def Invocation.line (root : String) (i : Invocation) : String :=
  let line? := lineOf? (.str i.language) (locationValue root i.output)
    (match i.name with
      | none => .null
      | some name => .str name)
    (locationValue root i.config) (.str (i.schema.shown root))
  line?.getD ""

end CommandLine
end ClientForge
