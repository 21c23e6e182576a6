import ClientForge.Schema.Binding
import ClientForge.Session
/-!
# Binders

One binder can bind many documents. It keeps the context tree of the last one, as far as that was
built, and starts over for the next.
-/

namespace ClientForge
namespace Schema

/-- What a binder keeps: the contexts of the document that it was given last. -/
structure Binder where
  tree : ContextTree := {}

namespace Binder

/-- A document to bind, with the class name that is asked for. -/
structure Request where
  document : Value
  asked : Option String := none

/-- The binder after a request. What it kept before is cleared first; then a context is added for
each node that is entered, up to the end or the failure. -/
def bind (binder : Binder) (request : Request) : Binder × Except Failure Client :=
  let cleared : Binder := { binder with tree := {} }
  let bound := bindDocument request.document request.asked
  let growth := bound.events.foldl Growth.step { tree := cleared.tree }
  ({ cleared with tree := growth.tree }, bound.result)

/-- The binder after each of several requests, with the outcomes. -/
def bindAll (binder : Binder) (requests : List Request) : List (Binder × Except Failure Client) :=
  session bind binder requests

end Binder
end Schema
end ClientForge
