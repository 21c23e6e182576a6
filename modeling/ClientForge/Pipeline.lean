import ClientForge.Client.Assembly
import ClientForge.Files.Writer
import ClientForge.Schema.Binding
import ClientForge.Source.Render
/-!
# Pipeline

A whole compilation: bind the document, assemble the module, print it, and write it if asked to.
The log up to the end or the failure comes with the outcome.
-/

namespace ClientForge

/-- Why a compilation fails: a fault of the input, one whose report cannot be made, a module that
cannot be printed, or a source that cannot be written. -/
inductive PipelineFault where
  | report (diagnostic : Diagnostic)
  | unwritable
  | source (fault : Source.Fault)
  | write (fault : Files.WriteFault)
deriving DecidableEq, Repr

/-- A compilation that a failure of binding stops. -/
def PipelineFault.ofFailure (failure : Schema.Failure) : PipelineFault :=
  match failure.diagnostic? with
  | some diagnostic => .report diagnostic
  | none => .unwritable

namespace Pipeline

/-- The class name to ask for: the given one, else the configured one. -/
def askedName (config : Config) (name : Option String) : Option String :=
  match name with
  | some given => if given ≠ "" then some given else some config.className
  | none => some config.className

/-- The log line of a finished source. -/
def logLine (language : Language) (code : String) : LogLine :=
  let count := code.toList.count '\n'
  ⟨"xsrc.pipeline.generator", s!"Generated {count} lines of " ++ language.name⟩

/-- The source for a document, with the log. -/
def generate (document : Value) (config : Config) (language : Language)
    (name : Option String) : List LogLine × Except PipelineFault String :=
  let bound := Schema.bindDocument document (askedName config name)
  let log := Schema.logOf bound.events
  match bound.result with
  | .error failure => (log, .error (.ofFailure failure))
  | .ok client =>
    match Assembly.assemble language config client with
    | .error failure => (log, .error (.report failure.diagnostic))
    | .ok m =>
      let log := log ++ [Assembly.logLine m]
      match Source.render m with
      | .error fault => (log, .error (.source fault))
      | .ok code => (log ++ [logLine language code], .ok code)

/-- A request to put a source into a tree: a text that is there already, or the outcome of a
compilation, which goes to what a path stands for and does not follow it. The source may be any
text, also one that no document of this library has. -/
inductive Delivery where
  | write (output : OutputConfig) (job : Files.Job)
  | generate (output : OutputConfig) (route : Files.Route) (language : Language)
      (compiled : Except PipelineFault Text.Points)

namespace Delivery

/-- The output settings that a delivery is made under. -/
def output : Delivery → OutputConfig
  | .write output _ => output
  | .generate output _ _ _ => output

/-- What is to be written where, seen from a tree. A path is looked at only once there is a
source. -/
def job (tree : Files.Tree) : Delivery → Except PipelineFault Files.Job
  | .write _ job => .ok job
  | .generate _ route language compiled =>
    match compiled with
    | .error fault => .error fault
    | .ok content =>
      match tree.locate? route with
      | none => .error (.write (.endlessLink route))
      | some target => .ok ⟨target, content, .str language.name⟩

/-- The tree after a delivery, and whether it was made. What cannot be made leaves the tree as it
is. -/
def run (python : Files.PythonCheck) (tree : Files.Tree) (delivery : Delivery) :
    Files.Tree × Except PipelineFault Unit :=
  match delivery.job tree with
  | .error fault => (tree, .error fault)
  | .ok job =>
    match job.run python delivery.output tree with
    | (after, outcome) => (after, outcome.mapError .write)

end Delivery

/-- The tree after the source for a document was written along a route, with the log. -/
def generateTo (root : String) (tree : Files.Tree) (route : Files.Route) (document : Value)
    (config : Config) (language : Language) (name : Option String) :
    Files.Tree × List LogLine × Except PipelineFault Unit :=
  let (log, compiled) := generate document config language name
  let delivery := Delivery.generate config.output route language
    (compiled.map Text.Points.ofString)
  match delivery.run Check.checkPython tree, delivery.job tree with
  | (after, .ok ()), .ok job => (after, log ++ [job.logLine root], .ok ())
  | (after, outcome), _ => (after, log, outcome)

end Pipeline
end ClientForge
