import ClientForge.CommandLine.Invocation
import ClientForge.Document.Load
import ClientForge.Pipeline
/-!
# Runs of the tool

A whole run as a function of the file tree and the arguments: what is printed, the exit code, and
the tree afterwards.
-/

namespace ClientForge
namespace CommandLine

open Files (Location Tree)

/-- A failure that the tool has no report for. -/
inductive Unhandled where
  | encoding (fault : Utf8.Fault)
  | longInteger (digits : Nat)
  | value (problem : Yaml.Problem)
  | source (fault : Source.Fault)
  | nullCharacter
  | unencodable (fault : Text.EncodeFault)
  | endlessLink (route : Files.Route)
  | unwritable
deriving DecidableEq, Repr

/-- The wording of a failure without a report, given the text of the root. -/
def Unhandled.message (root : String) : Unhandled → String
  | .encoding fault => fault.message
  | .longInteger digits => (Yaml.Problem.longInteger digits).message
  | .value problem => problem.message
  | .source fault => fault.message
  | .nullCharacter => Check.Fault.nullCharacter.message
  | .unencodable fault => fault.message
  | .endlessLink route => "Symlink loop from " ++ Text.displayed (Location.shown root route)
  | .unwritable => Value.longTextMessage

/-- Why a run stops: a report, a refusal of the system, or something unforeseen. -/
inductive Stop where
  | report (diagnostic : Diagnostic)
  | system (text : String)
  | unhandled (failure : Unhandled)
deriving DecidableEq, Repr

/-- A run that is stopped by a report, or by the want of one. -/
def Stop.ofReport : Option Diagnostic → Stop
  | some diagnostic => .report diagnostic
  | none => .unhandled .unwritable

/-- A run that a fault in loading a file stops; `what` says what is being done. -/
def Stop.ofLoad (root path what : String) : Load.Fault → Stop
  | .unreadable fault => .report (Load.report path ("Cannot read schema file: " ++ fault.text root))
  | .malformed reason => .report (Load.report path (what ++ reason))
  | .encoding fault => .unhandled (.encoding fault)
  | .longInteger digits => .unhandled (.longInteger digits)
  | .value problem => .unhandled (.value problem)

/-- A run that a fault in writing stops. -/
def Stop.ofWrite (root : String) : Files.WriteFault → Stop
  | .targetExists target => .system (Files.Job.existsMessage root target)
  | .language asked => Stop.ofReport asked.diagnostic?
  | .check .nullCharacter => .unhandled .nullCharacter
  | .check (.encoding fault) => .unhandled (.unencodable fault)
  | .check fault => .report fault.diagnostic
  | .endlessLink route => .unhandled (.endlessLink route)
  | .system fault => .system (fault.text root)
  | .encoding fault => .unhandled (.unencodable fault)

/-- A run that a fault of the compilation stops. -/
def Stop.ofPipeline (root : String) : PipelineFault → Stop
  | .report diagnostic => .report diagnostic
  | .unwritable => .unhandled .unwritable
  | .source fault => .unhandled (.source fault)
  | .write fault => Stop.ofWrite root fault

/-- The settings in a file, the default ones without a file. -/
def loadConfig (root : String) (tree : Tree) : Option Location → Except Stop Config
  | none => .ok {}
  | some place =>
    let path := place.shown root
    match tree.read place with
    | .error fault => .error (.system (fault.text root))
    | .ok octets =>
      match Load.json octets with
      | .error fault => .error (Stop.ofLoad root path "Cannot decode config file" fault)
      | .ok value =>
        (Config.ofValue value).mapError fun fault =>
          Stop.ofReport (fault.diagnostic?.map (·.withPath path))

/-- The settings of an invocation: the switch protects the target, and the comment names the
invocation unless it names something else. -/
def settings (root : String) (i : Invocation) (config : Config) : Config :=
  let config :=
    if i.noClobber then { config with output := { config.output with mode := .error } } else config
  if config.addGenerationComment ∧ config.generationCommand = "" then
    { config with generationCommand := i.line root }
  else config

/-- The document of an invocation. -/
def loadSchema (root : String) (tree : Tree) (place : Location) : Except Stop Value :=
  (Load.document tree place).mapError
    (Stop.ofLoad root (place.shown root) "Cannot decode schema file")

/-- What has been printed, and the tree, when a run ends or stops. -/
structure Progress where
  tree : Tree
  log : List LogLine := []
  stdout : String := ""
  stderr : String := ""
  stop : Option Stop := none
deriving DecidableEq, Repr

/-- The compilation of a loaded document. -/
def generate (root : String) (tree : Tree) (i : Invocation) (config : Config)
    (language : Language) (document : Value) : Progress :=
  match i.output with
  | none =>
    match Pipeline.generate document config language i.name with
    | (log, .ok code) => { tree := tree, log := log, stdout := code }
    | (log, .error fault) => { tree := tree, log := log, stop := some (Stop.ofPipeline root fault) }
  | some target =>
    match Pipeline.generateTo root tree target document config language i.name with
    | (after, log, .ok ()) =>
      { tree := after, log := log
        stderr := "Code file generated at " ++ target.shown root ++ "\n" }
    | (after, log, .error fault) =>
      { tree := after, log := log, stop := some (Stop.ofPipeline root fault) }

/-- The run of an invocation. -/
def compile (root : String) (tree : Tree) (i : Invocation) : Progress :=
  match loadConfig root tree i.config with
  | .error stop => { tree := tree, stop := some stop }
  | .ok config =>
    match loadSchema root tree i.schema with
    | .error stop => { tree := tree, stop := some stop }
    | .ok document =>
      let loaded := Load.logLine (i.schema.shown root)
      match Language.parse (.str i.language) with
      | .error asked => { tree := tree, log := [loaded], stop := some (.ofReport asked.diagnostic?) }
      | .ok language =>
        let p := generate root tree i (settings root i config) language document
        { p with log := loaded :: p.log }

/-- What a run leaves behind. -/
structure Outcome where
  exitCode : Nat
  stdout : String
  stderr : String
  tree : Tree
  unhandled : Option Unhandled := none
deriving DecidableEq, Repr

/-- The outcome of an ended or stopped run. The log is printed only if it was asked for. -/
def Progress.outcome (p : Progress) (verbose : Bool) : Outcome :=
  let log := if verbose then String.join (p.log.map LogLine.render) else ""
  match p.stop with
  | none => ⟨0, p.stdout, log ++ p.stderr, p.tree, none⟩
  | some (.report diagnostic) =>
    ⟨diagnostic.kind.exitCode, p.stdout, log ++ p.stderr ++ "Error: " ++ diagnostic.text ++ "\n",
      p.tree, none⟩
  | some (.system text) => ⟨1, p.stdout, log ++ p.stderr ++ "Error: " ++ text ++ "\n", p.tree, none⟩
  | some (.unhandled failure) => ⟨1, p.stdout, log ++ p.stderr, p.tree, some failure⟩

/-- The run of the tool at a place of a tree. -/
def run (root : String) (tree : Tree) (place : Location) (arguments : List String) : Outcome :=
  match Request.ofArguments tree place arguments with
  | .error fault => ⟨UsageFault.exitCode, "", fault.text, tree, none⟩
  | .ok .help => ⟨0, helpText, "", tree, none⟩
  | .ok (.compile i) => (compile root tree i).outcome i.verbose

end CommandLine
end ClientForge
