import ClientForge.Check.Output
import ClientForge.Config
import ClientForge.Files.Route
import ClientForge.Log
import ClientForge.Text.Encoding
/-!
# Writing sources

A source is written under the output settings: a target that exists may be protected, a text may
have to pass its check, and the target may be replaced in one step by a finished file beside it.
Without that step the target is opened first, which empties it, and only then is the text encoded.

How Python is checked is left to the caller. JavaScript and TypeScript are checked by their
brackets.
-/

namespace ClientForge
namespace Files

/-- Why nothing is written. -/
inductive WriteFault where
  | targetExists (route : Route)
  | language (asked : Language.Unsupported)
  | check (fault : Check.Fault)
  | endlessLink (route : Route)
  | system (fault : Fault)
  | encoding (fault : Text.EncodeFault)
deriving DecidableEq, Repr

/-- A check of Python text. -/
abbrev PythonCheck := Text.Points → Except Check.Fault Unit

/-- A text and the path where it goes. The language is as it was asked for and matters for the
check only. -/
structure Job where
  route : Route
  content : Text.Points
  language : Value

namespace Job

/-- The wording of a protected target. -/
def existsMessage (root : String) (route : Route) : String :=
  "Output file already exists: " ++ Location.shown root route ++ ". Use force mode to overwrite."

/-- The check of a job's text. -/
def check (python : PythonCheck) (job : Job) : Except WriteFault Unit :=
  match Language.parse job.language with
  | .error asked => .error (.language asked)
  | .ok .python => (python job.content).mapError .check
  | .ok language => (Check.check language job.content.replaced).mapError .check

/-- What has to hold before anything is touched. -/
def permit (python : PythonCheck) (config : OutputConfig) (tree : Tree) (job : Job) :
    Except WriteFault Unit :=
  if config.mode = .error ∧ tree.leads job.route then
    .error (.targetExists job.route)
  else if config.validateBeforeWrite then job.check python
  else .ok ()

/-- The target is replaced by a file that is finished at a free location; if that fails, the file is
removed. -/
def replaceFrom (tree : Tree) (job : Job) (beside : Location) : Tree × Except WriteFault Unit :=
  let number := tree.freshNumber
  let opened := tree.putFile beside []
  let remove (tree : Tree) := (tree.erase beside).drain number
  match job.content.encode with
  | .error fault => (remove opened, .error (.encoding fault))
  | .ok octets =>
    let finished := opened.fill number octets
    match finished.moveTo beside (.file number) job.route with
    | .error refusal => (remove finished, .error (.system ⟨refusal, job.route⟩))
    | .ok done => (done, .ok ())

/-- The target is replaced by a finished file. That is made where the path leads as a text, and the
path itself is followed again. -/
def replaceTarget (tree : Tree) (job : Job) : Tree × Except WriteFault Unit :=
  let parent := Route.location job.route.dropLast
  match tree.directoryAt parent with
  | .error refusal => (tree, .error (.system ⟨refusal, parent⟩))
  | .ok place => job.replaceFrom tree (tree.freshBeside place (job.route.getLast?.getD ""))

/-- The target is written in place. It stays empty if the text cannot be encoded. -/
def writeTarget (tree : Tree) (job : Job) : Tree × Except WriteFault Unit :=
  match tree.openFile job.route with
  | .error refusal => (tree, .error (.system ⟨refusal, job.route⟩))
  | .ok (opened, number) =>
    match job.content.encode with
    | .error fault => (opened, .error (.encoding fault))
    | .ok octets => (opened.fill number octets, .ok ())

/-- The tree after a job, and whether it was done. -/
def run (python : PythonCheck) (config : OutputConfig) (tree : Tree) (job : Job) :
    Tree × Except WriteFault Unit :=
  match permit python config tree job with
  | .error fault => (tree, .error fault)
  | .ok () =>
    match tree.makeWay job.route with
    | (ready, .error fault) => (ready, .error (.system fault))
    | (ready, .ok ()) =>
      if config.atomicWrite then replaceTarget ready job else writeTarget ready job

/-- The log line of a finished job. -/
def logLine (root : String) (job : Job) : LogLine :=
  ⟨"xsrc.pipeline.writer.atomic_writer",
    s!"Wrote {job.content.length} bytes to " ++ Location.shown root job.route⟩

end Job
end Files
end ClientForge
