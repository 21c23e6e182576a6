import ClientForge.Client.Module
import ClientForge.Source.Layout
import ClientForge.Text.Casing
import ClientForge.Text.Quoted
/-!
# JavaScript and TypeScript sources

One class per API set; each action is an asynchronous method with a single request. TypeScript
sources are the same with types on parameters, fields and accessors.
-/

namespace ClientForge
namespace Source
namespace Script

/-- Whether types are written. -/
inductive Dialect where
  | plain
  | typed
deriving DecidableEq, Repr

/-- The words for numbers that are not finite. -/
def specials : Binary64.SpecialTexts := ⟨"Infinity", "NaN"⟩

/-- A default value in the sources. -/
def literal : Literal → String
  | .null => "null"
  | .boolean b => if b then "true" else "false"
  | .integer n => toString n
  | .number x => x.render specials
  | .string s => Text.asciiLiteral s

/-- The name of a type in the sources. -/
def typeName : Primitive → String
  | .string => "string"
  | .number => "number"
  | .boolean => "boolean"

/-- Text inside a template literal. -/
def templateText : List Char → List Char
  | [] => []
  | '$' :: '\x7b' :: rest => '\\' :: '$' :: '\x7b' :: templateText rest
  | c :: rest =>
    if c = '\\' || c = '\x60' then '\\' :: c :: templateText rest else c :: templateText rest

/-- A piece of a URL inside a template literal. -/
def templatePiece : UrlPiece → String
  | .text s => String.ofList (templateText s.toList)
  | .param name _ => "$\x7bencodeURIComponent(" ++ name ++ ")\x7d"
  | .base hops => "$\x7bthis" ++ Text.repeated "._super" hops ++ "._url\x7d"

/-- The text of a piece that is nothing but text. -/
def pieceText? : UrlPiece → Option String
  | .text s => some s
  | _ => none

/-- The expression for a URL: a string literal if it is all text, else a template literal. -/
def url (pieces : List UrlPiece) : String :=
  match pieces.mapM pieceText? with
  | some texts => Text.asciiLiteral (String.join texts)
  | none => "\x60" ++ String.join (pieces.map templatePiece) ++ "\x60"

/-- A parameter of a constructor or method. -/
def parameter (dialect : Dialect) (a : Argument) : String :=
  let declared := match dialect with
    | .plain => a.name
    | .typed => a.name ++ ": " ++ typeName a.type
  match a.default with
  | none => declared
  | some value => declared ++ " = " ++ literal value

/-- The parameters of a constructor or method. -/
def parameters (dialect : Dialect) (list : List Argument) : String :=
  Text.join ", " (list.map (parameter dialect))

/-- The lines of a bag of arguments, none if it is empty. -/
def bag (key : String) (list : List Argument) : List String :=
  if list.isEmpty then []
  else
    (key ++ ": \x7b") ::
      indent 1 (list.map fun a => Text.asciiLiteral a.wireName ++ ": " ++ a.name ++ ",") ++
      ["\x7d,"]

/-- The lines of a request. -/
def call (c : Call) : List String :=
  "return axios(\x7b" ::
    (("method: " ++ Text.asciiLiteral (Text.lowercase c.method) ++ ",") ::
      ("url: " ++ url c.url ++ ",") :: (bag "params" c.query ++ bag "data" c.body)).map
      (indentation ++ ·) ++
    ["\x7d);"]

/-- The lines of a method. -/
def method (dialect : Dialect) (m : Method) : List String :=
  ("async " ++ m.name ++ "(" ++ parameters dialect m.arguments ++ ") \x7b") ::
    indent 1 (call m.call) ++ ["\x7d"]

/-- The lines of an accessor. -/
def accessor (dialect : Dialect) (a : Accessor) : List String :=
  let result := match dialect with
    | .plain => ""
    | .typed => ": " ++ a.className
  ["get " ++ a.name ++ "()" ++ result ++ " \x7b",
   indentation ++ "return new " ++ a.className ++ "(this);",
   "\x7d"]

/-- The lines of a constructor. -/
def constructor (dialect : Dialect) (c : Constructor) : Except Fault (List String) :=
  match c.parentClass with
  | some parent =>
    let declared := match dialect with
      | .plain => "_super"
      | .typed => "_super: " ++ parent
    .ok (("constructor(" ++ declared ++ ") \x7b") :: indent 1 ["this._super = _super;"] ++ ["\x7d"])
  | none =>
    match c.arguments with
    | [] => .error .rootWithoutArgument
    | first :: _ =>
      .ok (("constructor(" ++ parameters dialect c.arguments ++ ") \x7b") ::
        indent 1 ["this._url = " ++ first.name ++ ";"] ++ ["\x7d"])

/-- The lines of the field declarations. -/
def fields (dialect : Dialect) (c : Constructor) : List (List String) :=
  match dialect, c.parentClass with
  | .plain, _ => []
  | .typed, none => [["readonly _url: string;"]]
  | .typed, some parent => [["readonly _super: " ++ parent ++ ";"]]

/-- The lines of a class. -/
def classLines (dialect : Dialect) (c : ClassDecl) : Except Fault (List String) :=
  (constructor dialect c.constructor).map fun built =>
    let members := fields dialect c.constructor ++ [built] ++ c.accessors.map (accessor dialect) ++
      c.methods.map (method dialect)
    ((if c.isRoot then "export class " else "class ") ++ c.name ++ " \x7b") ::
      spaced (members.map (indent 1)) ++ ["\x7d"]

/-- The fixed lines above the classes: the rest of the prefix template, which JavaScript and
TypeScript have in common. -/
def imports : List String := ["import axios from \"axios\";"]

/-- The lines above the classes. -/
def header (comment : String) : List String :=
  headerLines "//" comment imports

/-- The lines of classes, each after an empty line. -/
def classesLines (dialect : Dialect) : List ClassDecl → Except Fault (List String)
  | [] => .ok []
  | c :: rest => do
    let own ← classLines dialect c
    let others ← classesLines dialect rest
    pure ("" :: own ++ others)

/-- The source of a module. -/
def source (dialect : Dialect) (m : Module) : Except Fault String :=
  (classesLines dialect m.classes).map fun ls => Text.unlines (header m.comment ++ ls) ++ "\n"

end Script
end Source
end ClientForge
