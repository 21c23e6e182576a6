import ClientForge.TypeSpec
/-!
# Expressions

A schema string is a sequence of literal text, references `${!super.url}` to what an enclosing
node has resolved, and placeholders `<id:number>`. A backslash takes the next character
literally. Reading stops at the first item that is not well formed and reports where that item
starts.
-/

namespace ClientForge

/-- A piece of an expression. -/
inductive Segment where
  | literal (text : String)
  | reference (hops : Nat) (attr : String)
  | placeholder (name : String) (spec : TypeSpec)
deriving DecidableEq, Repr

/-- A schema string that has been read. -/
structure Expression where
  segments : List Segment
  source : String
deriving DecidableEq, Repr

namespace Expression

/-- What is wrong with an item of an expression. -/
inductive Cause where
  | danglingEscape
  | unterminatedReference
  | unterminatedPlaceholder
  | emptyReference
  | emptyToken (body : String)
  | tokenAfterAttribute (token attr body : String)
  | invalidToken (token : String)
  | invalidPlaceholder (name : String)
  | missingType (body : String)
  | typeSpec (fault : TypeSpec.Fault)
deriving DecidableEq, Repr

/-- The wording of each cause. -/
def Cause.message : Cause → String
  | .danglingEscape => "Dangling escape character at end of expression"
  | .unterminatedReference => "Unterminated context reference '$\x7b'"
  | .unterminatedPlaceholder => "Unterminated placeholder '<'"
  | .emptyReference => "Empty context reference '$\x7b\x7d'"
  | .emptyToken body => "Empty segment in context reference '$\x7b" ++ body ++ "\x7d'"
  | .tokenAfterAttribute token attr body =>
    s!"'{token}' follows attribute '{attr}' in '$\x7b" ++ body ++ "\x7d'"
  | .invalidToken token => s!"Invalid token '{token}' in context reference"
  | .invalidPlaceholder name => s!"Invalid placeholder name '{name}'"
  | .missingType body => s!"Missing type after ':' in placeholder '<{body}>'"
  | .typeSpec fault => fault.message

/-- A cause with the offset of the item it is about. -/
structure Fault where
  cause : Cause
  position : Nat
deriving DecidableEq, Repr

/-- The report of a rejected expression. -/
def Fault.diagnostic (f : Fault) (path : String) : Diagnostic :=
  { kind := match f.cause with
      | .typeSpec _ => .typeSpec
      | _ => .expressionSyntax
    message := f.cause.message
    path := path
    column := some f.position }

/-- The word for one step up. -/
def superToken : String := "!super"

/-- What a reference without an attribute reads. -/
def defaultAttribute : String := "url"

/-- The item types of an expression; text comes one character at a time. -/
inductive Item where
  | char (c : Char)
  | reference (hops : Nat) (attr : String)
  | placeholder (name : String) (spec : TypeSpec)
deriving DecidableEq, Repr

/-- The steps and the attribute among the tokens of a reference; nothing follows an
attribute. -/
def readTokens (body : String) :
    Option String → List (List Char) → Except Cause (Nat × Option String)
  | attr, [] => .ok (0, attr)
  | attr, token :: rest =>
    let word := String.ofList (Text.trim token)
    if word = "" then .error (.emptyToken body)
    else
      match attr with
      | some a => .error (.tokenAfterAttribute word a body)
      | none =>
        if word = superToken then
          (readTokens body none rest).map fun (hops, a) => (hops + 1, a)
        else if Text.isIdentifier word.toList then readTokens body (some word) rest
        else .error (.invalidToken word)

/-- The reference between `${` and `}`. -/
def readReference (body : List Char) : Except Cause Item :=
  if body.all Text.isBlank then .error .emptyReference
  else
    (readTokens (String.ofList body) none (Text.splitOn '.' body)).map fun (hops, attr) =>
      .reference hops (attr.getD defaultAttribute)

/-- The placeholder between `<` and `>`. -/
def readPlaceholder (body : List Char) : Except Cause Item :=
  let (before, after) := Text.cut ':' body
  let name := Text.trim before
  if Text.isIdentifier name then
    match after with
    | none => .ok (.placeholder (String.ofList name) {})
    | some spec =>
      if spec.all Text.isBlank then .error (.missingType (String.ofList body))
      else
        match TypeSpec.parse (String.ofList spec) with
        | .error fault => .error (.typeSpec fault)
        | .ok spec => .ok (.placeholder (String.ofList name) spec)
  else .error (.invalidPlaceholder (String.ofList name))

/-- What follows the first separator is shorter than the whole. -/
theorem length_of_cut {sep : Char} {cs body tail : List Char}
    (h : Text.cut sep cs = (body, some tail)) : tail.length < cs.length := by
  induction cs generalizing body with
  | nil => simp [Text.cut] at h
  | cons c cs ih =>
    unfold Text.cut at h
    split at h
    · simp only [Prod.mk.injEq, Option.some.injEq] at h
      simp [← h.2]
    · simp only [Prod.mk.injEq] at h
      have shorter := @ih (Text.cut sep cs).1 (by rw [← h.2])
      simp only [List.length_cons]
      omega

/-- The items of the characters from a position on. -/
def items (position : Nat) : List Char → Except Fault (List Item)
  | [] => .ok []
  | '\\' :: rest =>
    match rest with
    | [] => .error ⟨.danglingEscape, position⟩
    | c :: rest => (items (position + 2) rest).map (.char c :: ·)
  | '$' :: '\x7b' :: rest =>
    match _h : Text.cut '\x7d' rest with
    | (_, none) => .error ⟨.unterminatedReference, position⟩
    | (body, some tail) =>
      match readReference body with
      | .error cause => .error ⟨cause, position⟩
      | .ok item => (items (position + body.length + 3) tail).map (item :: ·)
  | '<' :: rest =>
    match _h : Text.cut '>' rest with
    | (_, none) => .error ⟨.unterminatedPlaceholder, position⟩
    | (body, some tail) =>
      match readPlaceholder body with
      | .error cause => .error ⟨cause, position⟩
      | .ok item => (items (position + body.length + 2) tail).map (item :: ·)
  | c :: rest => (items (position + 1) rest).map (.char c :: ·)
termination_by cs => cs.length
decreasing_by
  all_goals simp only [List.length_cons]
  · omega
  · have := length_of_cut _h
    omega
  · have := length_of_cut _h
    omega
  · omega

/-- Items with each run of characters made one literal. -/
def merge : List Item → List Segment
  | [] => []
  | .char c :: rest =>
    match merge rest with
    | .literal s :: segments => .literal (String.singleton c ++ s) :: segments
    | segments => .literal (String.singleton c) :: segments
  | .reference hops attr :: rest => .reference hops attr :: merge rest
  | .placeholder name spec :: rest => .placeholder name spec :: merge rest

/-- The segments that items stand for; the empty text is one empty literal. -/
def segmentsOf (list : List Item) : List Segment :=
  match merge list with
  | [] => [.literal ""]
  | segments => segments

/-- The expression that a schema string stands for. -/
def parse (s : String) : Except Fault Expression :=
  (items 0 s.toList).map fun list => ⟨segmentsOf list, s⟩

/-- The text of a literal. -/
def segmentText? : Segment → Option String
  | .literal s => some s
  | _ => none

/-- The names of the placeholders, in order. -/
def placeholders (e : Expression) : List String :=
  e.segments.filterMap fun
    | .placeholder name _ => some name
    | _ => none

/-- How many references there are. -/
def references (e : Expression) : Nat :=
  e.segments.countP fun
    | .reference .. => true
    | _ => false

/-- Whether there is nothing but text. -/
def isLiteral (e : Expression) : Bool :=
  e.segments.all fun
    | .literal _ => true
    | _ => false

/-- The literal text of all segments together. -/
def text (e : Expression) : String :=
  String.join (e.segments.filterMap segmentText?)

end Expression
end ClientForge
