import ClientForge.TypeSpec
/-!
# URL templates

A resolved URL: text, slots for path parameters, and the place of the client's base URL. The
normal form has no empty text and no two neighbouring texts.
-/

namespace ClientForge

/-- A part of a resolved URL. -/
inductive UrlPart where
  | text (s : String)
  | slot (name : String) (type : Primitive)
  | base (default : Option String)
deriving DecidableEq, Repr

/-- A resolved URL. -/
structure UrlTemplate where
  parts : List UrlPart
deriving DecidableEq, Repr

namespace UrlTemplate

/-- The slots in order of appearance. -/
def slots (t : UrlTemplate) : List (String × Primitive) :=
  t.parts.filterMap fun
    | .slot name type => some (name, type)
    | _ => none

/-- A part as a reader sees it; an unknown base URL has a slot of its own. -/
def partPattern : UrlPart → String
  | .text s => s
  | .slot name _ => "\x7b" ++ name ++ "\x7d"
  | .base (some default) => default
  | .base none => "\x7burl\x7d"

/-- The whole URL as a reader sees it. -/
def pattern (t : UrlTemplate) : String :=
  String.join (t.parts.map partPattern)

/-- A part before normal parts: empty text is dropped, text joins text. -/
def attach : UrlPart → List UrlPart → List UrlPart
  | .text s, parts =>
    if s = "" then parts
    else
      match parts with
      | .text t :: rest => .text (s ++ t) :: rest
      | parts => .text s :: parts
  | part, parts => part :: parts

/-- The normal form of parts. -/
def normalParts : List UrlPart → List UrlPart
  | [] => []
  | part :: rest => attach part (normalParts rest)

/-- The normal form of a template. -/
def normalized (t : UrlTemplate) : UrlTemplate :=
  ⟨normalParts t.parts⟩

end UrlTemplate
end ClientForge
