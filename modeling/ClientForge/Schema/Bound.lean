import ClientForge.Document.Value
import ClientForge.Diagnostic
import ClientForge.Text.Blank
import ClientForge.Text.Letters
import ClientForge.Url.Template
/-!
# Bound clients

What a schema document means: every action has a resolved URL, a method and typed parameters,
and the API sets keep the order of the document.
-/

namespace ClientForge

/-- The methods that an action may use. -/
inductive HttpMethod where
  | get
  | post
  | put
  | delete
  | head
  | options
  | patch
deriving DecidableEq, Repr

namespace HttpMethod

/-- The name of a method on the wire. -/
def name : HttpMethod → String
  | .get => "GET"
  | .post => "POST"
  | .put => "PUT"
  | .delete => "DELETE"
  | .head => "HEAD"
  | .options => "OPTIONS"
  | .patch => "PATCH"

/-- All methods, in the order of messages. -/
def all : List HttpMethod :=
  [.get, .post, .put, .delete, .head, .options, .patch]

/-- The method with a given name, in any case and with blanks around it. -/
def ofName? (s : String) : Option HttpMethod :=
  let word := Text.upper (Text.strip s)
  all.find? (·.name = word)

end HttpMethod

/-- Where a parameter travels in the request. -/
inductive Origin where
  | path
  | query
  | body
deriving DecidableEq, Repr

/-- The word for an origin. -/
def Origin.name : Origin → String
  | .path => "path"
  | .query => "query"
  | .body => "body"

/-- A typed parameter of an action. -/
structure Parameter where
  name : String
  type : Primitive
  origin : Origin
  default : Option Literal := none
deriving DecidableEq, Repr

/-- A resolved action. -/
structure Action where
  name : String
  path : KeyPath
  method : HttpMethod
  url : UrlTemplate
  pathParams : List Parameter
  queryParams : List Parameter
  bodyParams : List Parameter
deriving DecidableEq, Repr

/-- All parameters in call order. -/
def Action.parameters (a : Action) : List Parameter :=
  a.pathParams ++ a.queryParams ++ a.bodyParams

/-- A resolved API set with its nested sets and its actions. -/
structure ApiSet where
  name : String
  path : KeyPath
  url : UrlTemplate
  sets : List ApiSet
  actions : List Action
deriving Repr

mutual

/-- How many nodes an API set has, itself included. -/
def ApiSet.nodeCount : ApiSet → Nat
  | ⟨_, _, _, sets, actions⟩ => 1 + ApiSet.nodeCounts sets + actions.length

/-- How many nodes several API sets have. -/
def ApiSet.nodeCounts : List ApiSet → Nat
  | [] => 0
  | set :: rest => set.nodeCount + ApiSet.nodeCounts rest

end

/-- A bound document: the client class, the literal root URL if there is one, and the root. -/
structure Client where
  className : String
  url : Option String
  root : ApiSet
deriving Repr

end ClientForge
