import ClientForge.Language
import ClientForge.Schema.Bound
/-!
# Client modules

The sources of a client before they are printed: one class for each API set, with a
constructor, an accessor for each nested set, and a method for each action.
-/

namespace ClientForge

/-- A parameter of a constructor or method: its identifier, and the name it is sent under. -/
structure Argument where
  name : String
  wireName : String
  type : Primitive
  origin : Origin
  default : Option Literal
deriving DecidableEq, Repr

/-- A piece of the URL that a method builds; the base URL is so many parents away. -/
inductive UrlPiece where
  | text (s : String)
  | param (name : String) (type : Primitive)
  | base (hops : Nat)
deriving DecidableEq, Repr

/-- The request of a method. -/
structure Call where
  method : String
  url : List UrlPiece
  query : List Argument
  body : List Argument
deriving DecidableEq, Repr

/-- A method of a class. -/
structure Method where
  name : String
  wireName : String
  arguments : List Argument
  call : Call
deriving DecidableEq, Repr

/-- A property that makes the client of a nested API set. -/
structure Accessor where
  name : String
  className : String
deriving DecidableEq, Repr

/-- The constructor of a class: the root takes arguments, every other class its parent. -/
structure Constructor where
  arguments : List Argument := []
  parentClass : Option String := none
deriving DecidableEq, Repr

/-- The class of an API set. -/
structure ClassDecl where
  name : String
  path : String
  constructor : Constructor
  accessors : List Accessor
  methods : List Method
deriving DecidableEq, Repr

/-- The root class is the one without a parent. -/
def ClassDecl.isRoot (c : ClassDecl) : Bool :=
  c.constructor.parentClass.isNone

/-- All classes of a client, the root first, every class before those below it. -/
structure Module where
  language : Language
  rootClass : String
  comment : String
  classes : List ClassDecl
deriving DecidableEq, Repr

end ClientForge
