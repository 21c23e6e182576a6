import ClientForge.Proofs.Document.Json
import ClientForge.Proofs.Source.Validity
import ClientForge.Proofs.Url.Normal
/-!
# URL expressions

`Template.items` reads a template literal by the rules of the language: a backslash takes the next
character as it is, a dollar sign and a brace open a substitution up to the next closing brace, and
a backtick ends the literal.  What is written for a URL with pieces that are not text is read back
by these rules (`literal?_url`), and the pieces can be told from what is read (`piece?_itemOf`).  A
URL that is all text is a string literal instead (`parse_url`).

Escaping looks at a dollar sign only together with the brace after it.  So a text that ends in a
dollar sign is safe before a substitution and before the end, but not before another text: this is
where the URL has to be normal.
-/

namespace ClientForge
namespace Source
namespace Template

/-! ## The reader -/

/-- Text, or the code of a substitution. -/
inductive Item where
  | text (cs : List Char)
  | substitution (code : List Char)
deriving DecidableEq, Repr

/-- One more character in front; text in a row is one item. -/
def push (c : Char) : List Item → List Item
  | .text cs :: rest => .text (c :: cs) :: rest
  | list => .text [c] :: list

mutual

/-- The items up to the backtick that ends the literal, and what stands behind it. -/
def items : List Char → Option (List Item × List Char)
  | [] => none
  | '\x60' :: rest => some ([], rest)
  | ['\\'] => none
  | '\\' :: c :: rest => (items rest).map (Prod.map (push c) id)
  | '$' :: '\x7b' :: rest => substitution [] rest
  | c :: rest => (items rest).map (Prod.map (push c) id)

/-- The same inside a substitution, after some of its code. -/
def substitution (code : List Char) : List Char → Option (List Item × List Char)
  | [] => none
  | '\x7d' :: rest => (items rest).map (Prod.map (.substitution code :: ·) id)
  | c :: rest => substitution (code ++ [c]) rest

end

/-- The items of a text that is one template literal from its first character to its last. -/
def literal? : List Char → Option (List Item)
  | '\x60' :: rest =>
    match items rest with
    | some (list, []) => some list
    | _ => none
  | _ => none

/-- A piece of a URL as far as sources tell: the type of a parameter is not written. -/
inductive Piece where
  | text (s : String)
  | param (name : String)
  | base (hops : Nat)
deriving DecidableEq, Repr

/-- How many parents away the base URL is that a chain of members leads to. -/
def hops? (code : List Char) : Option Nat :=
  match code.splitOn '.' with
  | first :: chain =>
    if first = "this".toList ∧
        chain = List.replicate (chain.length - 1) "_super".toList ++ ["_url".toList] then
      some (chain.length - 1)
    else none
  | [] => none

/-- The piece that an item stands for. -/
def Item.piece? : Item → Option Piece
  | .text cs => some (.text (String.ofList cs))
  | .substitution code =>
    match (code.dropPrefix? "encodeURIComponent(".toList).bind (·.dropSuffix? ")".toList) with
    | some name => some (.param (String.ofList name))
    | none => (hops? code).map .base

/-! ## Text -/

/-- Most characters stand for themselves; a dollar sign does unless a brace follows. -/
theorem items_cons {c : Char} {rest : List Char} (hquote : c ≠ '\x60') (hbackslash : c ≠ '\\')
    (hopen : c = '$' → rest.head? ≠ some '\x7b') :
    items (c :: rest) = (items rest).map (Prod.map (push c) id) := by
  rw [items]
  · exact hquote
  · exact fun hc _ => hbackslash hc
  · exact fun _ _ hc _ => hbackslash hc
  · rintro rest' hc rfl
    exact hopen hc rfl

/-- Escaped text begins with a backslash, or as the text does. -/
theorem head?_templateText (c : Char) (cs : List Char) :
    (Script.templateText (c :: cs)).head? = some '\\' ∨
      (Script.templateText (c :: cs)).head? = some c := by
  generalize htext : c :: cs = text
  fun_cases Script.templateText text with
  | case1 => cases htext
  | case2 rest => exact Or.inl rfl
  | case3 d rest _ hescape =>
      cases htext
      exact Or.inl rfl
  | case4 d rest _ hplain =>
      cases htext
      exact Or.inr rfl

/-- Escaped text is read back character by character, unless a brace follows that could open a
substitution. -/
theorem items_templateText (cs : List Char) {tail : List Char} (htail : tail.head? ≠ some '\x7b') :
    items (Script.templateText cs ++ tail) =
      (items tail).map (Prod.map (fun list => cs.foldr push list) id) := by
  fun_induction Script.templateText cs with
  | case1 => exact (congrFun Option.map_id (items tail)).symm
  | case2 rest ih =>
      have hbrace : items ('\x7b' :: (Script.templateText rest ++ tail)) = _ :=
        items_cons (by decide) (by decide) (by simp)
      rw [List.cons_append, List.cons_append, List.cons_append, items, hbrace, ih, Option.map_map,
        Option.map_map]
      rfl
  | case3 c rest _ hescape ih =>
      rw [List.cons_append, List.cons_append, items, ih, Option.map_map]
      rfl
  | case4 c rest hnot hplain ih =>
      rw [Bool.or_eq_true, decide_eq_true_iff, decide_eq_true_iff, not_or] at hplain
      have hopen : c = '$' → (Script.templateText rest ++ tail).head? ≠ some '\x7b' := by
        intro hc
        cases rest with
        | nil => exact htail
        | cons d rest =>
            have hd : d ≠ '\x7b' := fun heq => hnot rest hc (by rw [heq])
            rw [List.head?_append]
            rcases head?_templateText d rest with hhead | hhead
            · simp [hhead]
            · simp [hhead, hd]
      rw [List.cons_append, items_cons hplain.2 hplain.1 hopen, ih, Option.map_map]
      rfl

/-- The characters of a text make one item before a substitution and at the end. -/
theorem foldr_push {cs : List Char} (hcs : cs ≠ []) {list : List Item}
    (hlist : ∀ item ∈ list.head?, ∀ text, item ≠ .text text) :
    cs.foldr push list = .text cs :: list := by
  induction cs with
  | nil => contradiction
  | cons c rest ih =>
      by_cases hrest : rest = []
      · subst hrest
        cases list with
        | nil => rfl
        | cons item others =>
            cases item with
            | text text => exact absurd rfl (hlist _ rfl text)
            | substitution code => rfl
      · rw [List.foldr_cons, ih hrest, push]

/-! ## Substitutions -/

theorem substitution_append (seen : List Char) {code : List Char} (hcode : '\x7d' ∉ code)
    (tail : List Char) :
    substitution seen (code ++ '\x7d' :: tail) =
      (items tail).map (Prod.map (.substitution (seen ++ code) :: ·) id) := by
  induction code generalizing seen with
  | nil => rw [List.nil_append, substitution, List.append_nil]
  | cons c rest ih =>
      rw [List.mem_cons, not_or] at hcode
      rw [List.cons_append, substitution, ih _ hcode.2, List.append_assoc, List.singleton_append]
      exact fun hc => hcode.1 hc.symm

/-- The item that a piece of a URL is written as. -/
def itemOf : UrlPiece → Item
  | .text s => .text s.toList
  | .param name _ => .substitution ("encodeURIComponent(" ++ name ++ ")").toList
  | .base hops => .substitution ("this" ++ Text.repeated "._super" hops ++ "._url").toList

/-- A piece without the type of its parameter. -/
def untyped : UrlPiece → Piece
  | .text s => .text s
  | .param name _ => .param name
  | .base hops => .base hops

theorem mem_of_mem_repeated {s : String} {n : Nat} {c : Char}
    (h : c ∈ (Text.repeated s n).toList) : c ∈ s.toList := by
  induction n with
  | zero => cases h
  | succ n ih =>
      rw [Text.repeated, String.toList_append] at h
      rcases List.mem_append.mp h with hfirst | hrest
      · exact hfirst
      · exact ih hrest

/-- A piece that is not text is written as a substitution whose code has no closing brace. -/
theorem exists_substitution {p : UrlPiece} (htame : Script.TamePiece p)
    (h : Script.pieceText? p = none) :
    ∃ code, '\x7d' ∉ code ∧ itemOf p = .substitution code ∧
      (Script.templatePiece p).toList = '$' :: '\x7b' :: (code ++ ['\x7d']) := by
  cases p with
  | text s => cases h
  | param name type =>
      have hopen : "$\x7bencodeURIComponent(".toList =
          '$' :: '\x7b' :: "encodeURIComponent(".toList := by decide
      have hclose : ")\x7d".toList = ")".toList ++ ['\x7d'] := by decide
      refine ⟨("encodeURIComponent(" ++ name ++ ")").toList, ?_, rfl, ?_⟩
      · simp only [String.toList_append, List.mem_append, not_or]
        refine ⟨⟨by decide, fun hmem => ?_⟩, by decide⟩
        exact absurd (htame _ hmem) (by decide)
      · change ("$\x7bencodeURIComponent(" ++ name ++ ")\x7d").toList = _
        simp only [String.toList_append, hopen, hclose, List.cons_append, List.append_assoc]
  | base hops =>
      have hopen : "$\x7bthis".toList = '$' :: '\x7b' :: "this".toList := by decide
      have hclose : "._url\x7d".toList = "._url".toList ++ ['\x7d'] := by decide
      refine ⟨("this" ++ Text.repeated "._super" hops ++ "._url").toList, ?_, rfl, ?_⟩
      · simp only [String.toList_append, List.mem_append, not_or]
        refine ⟨⟨by decide, fun hmem => ?_⟩, by decide⟩
        exact absurd (mem_of_mem_repeated hmem) (by decide)
      · change ("$\x7bthis" ++ Text.repeated "._super" hops ++ "._url\x7d").toList = _
        simp only [String.toList_append, hopen, hclose, List.cons_append, List.append_assoc]

/-! ## Pieces in a row -/

theorem eq_text_of_pieceText? {p : UrlPiece} {s : String} (h : Script.pieceText? p = some s) :
    p = .text s := by
  cases p with
  | text t => exact congrArg UrlPiece.text (Option.some.inj h)
  | param name type => cases h
  | base hops => cases h

/-- The pieces of a normal URL are read back one by one. -/
theorem items_pieces {pieces : List UrlPiece} (htame : ∀ p ∈ pieces, Script.TamePiece p)
    (hnormal : Normal (pieces.map Script.pieceText?)) (rest : List Char) :
    items (pieces.flatMap (fun p => (Script.templatePiece p).toList) ++ '\x60' :: rest) =
      some (pieces.map itemOf, rest) := by
  induction pieces with
  | nil => rfl
  | cons p others ih =>
      obtain ⟨hp, hothers⟩ := List.forall_mem_cons.mp htame
      rw [List.flatMap_cons, List.append_assoc, List.map_cons]
      cases htext : Script.pieceText? p with
      | none =>
          rw [List.map_cons, htext, normal_none_cons_iff] at hnormal
          obtain ⟨code, hcode, hitem, hwritten⟩ := exists_substitution hp htext
          rw [hwritten, List.cons_append, List.cons_append, items, List.append_assoc,
            List.singleton_append, substitution_append [] hcode, ih hothers hnormal, hitem]
          rfl
      | some s =>
          rw [List.map_cons, htext, normal_some_cons_iff] at hnormal
          obtain ⟨hs, hhead, hnormal⟩ := hnormal
          obtain rfl := eq_text_of_pieceText? htext
          -- what follows the text is the end or a substitution
          obtain ⟨hafter, hitems⟩ : (others.flatMap (fun p => (Script.templatePiece p).toList) ++
              '\x60' :: rest).head? ≠ some '\x7b' ∧
              ∀ item ∈ (others.map itemOf).head?, ∀ text, item ≠ .text text := by
            cases others with
            | nil => simp
            | cons next more =>
                obtain ⟨code, -, hitem, hwritten⟩ :=
                  exists_substitution (hothers next List.mem_cons_self) (hhead _ rfl)
                simp [hwritten, hitem]
          have hchars : s.toList ≠ [] := fun hnil => hs (String.toList_eq_nil_iff.mp hnil)
          change items ((String.ofList (Script.templateText s.toList)).toList ++ _) = _
          rw [String.toList_ofList, items_templateText s.toList hafter, ih hothers hnormal,
            Option.map_some, Prod.map_apply, foldr_push hchars hitems]
          rfl

/-! ## URLs -/

theorem mapM_pieceText?_eq_none {pieces : List UrlPiece} {p : UrlPiece} (hp : p ∈ pieces)
    (h : Script.pieceText? p = none) : pieces.mapM Script.pieceText? = none := by
  induction pieces with
  | nil => cases hp
  | cons q others ih =>
      rw [List.mapM_cons]
      cases htext : Script.pieceText? q with
      | none => rfl
      | some s =>
          have hother : p ∈ others := by
            rcases List.mem_cons.mp hp with rfl | hmem
            · rw [htext] at h
              cases h
            · exact hmem
          rw [ih hother]
          rfl

theorem mapM_pieceText?_map_text (texts : List String) :
    (texts.map UrlPiece.text).mapM Script.pieceText? = some texts := by
  induction texts with
  | nil => rfl
  | cons s rest ih =>
      rw [List.map_cons, List.mapM_cons, ih]
      rfl

/-- A URL that is all text is a string literal. -/
theorem parse_url (texts : List String) :
    Json.parse (Script.url (texts.map .text)).toList = .ok (.str (String.join texts)) := by
  rw [Script.url, mapM_pieceText?_map_text]
  exact Json.parse_asciiLiteral _

/-- Any other normal URL is a template literal with an item for each piece. -/
theorem literal?_url {pieces : List UrlPiece} (htame : ∀ p ∈ pieces, Script.TamePiece p)
    (hnormal : Normal (pieces.map Script.pieceText?)) {p : UrlPiece} (hp : p ∈ pieces)
    (htext : Script.pieceText? p = none) :
    literal? (Script.url pieces).toList = some (pieces.map itemOf) := by
  have hwritten : (Script.url pieces).toList = '\x60' ::
      (pieces.flatMap (fun p => (Script.templatePiece p).toList) ++ '\x60' :: []) := by
    rw [Script.url, mapM_pieceText?_eq_none hp htext]
    simp only [String.toList_append, String.toList_join, List.flatMap_map]
    rfl
  rw [hwritten, literal?, items_pieces htame hnormal]

/-! ## Pieces from items -/

private theorem intercalate_base (hops : Nat) :
    '.' :: ['.'].intercalate (List.replicate hops "_super".toList ++ ["_url".toList]) =
      (Text.repeated "._super" hops).toList ++ "._url".toList := by
  induction hops with
  | zero => simp [Text.repeated]
  | succ hops ih =>
      have hsuper : "._super".toList = '.' :: "_super".toList := by decide
      rw [Text.repeated, String.toList_append, List.append_assoc, ← ih, hsuper,
        List.replicate_succ, List.cons_append, List.intercalate_cons_of_ne_nil (by simp)]
      simp only [List.cons_append, List.append_assoc, List.nil_append]

/-- The members on the way to the base URL. -/
theorem splitOn_base (hops : Nat) :
    ("this" ++ Text.repeated "._super" hops ++ "._url").toList.splitOn '.' =
      "this".toList :: (List.replicate hops "_super".toList ++ ["_url".toList]) := by
  have hchars : ("this" ++ Text.repeated "._super" hops ++ "._url").toList = ['.'].intercalate
      ("this".toList :: (List.replicate hops "_super".toList ++ ["_url".toList])) := by
    rw [String.toList_append, String.toList_append, List.append_assoc, ← intercalate_base,
      List.intercalate_cons_of_ne_nil (by simp), List.append_assoc, List.singleton_append]
  rw [hchars, List.splitOn_intercalate]
  · simp only [List.mem_cons, List.mem_append, List.mem_replicate, List.not_mem_nil, or_false]
    rintro _ (rfl | ⟨-, rfl⟩ | rfl)
    · decide
    · decide
    · decide
  · simp

/-- The piece can be told from its item, but for the type. -/
theorem piece?_itemOf (p : UrlPiece) : (itemOf p).piece? = some (untyped p) := by
  cases p with
  | text s => exact congrArg (fun t => some (Piece.text t)) String.ofList_toList
  | param name type =>
      have hcall : ("encodeURIComponent(" ++ name ++ ")").toList.dropPrefix?
          "encodeURIComponent(".toList = some (name ++ ")").toList :=
        List.dropPrefix?_eq_some_iff.mpr
          ⟨_, by simp only [String.toList_append, List.append_assoc], beq_self_eq_true _⟩
      have hname : (name ++ ")").toList.dropSuffix? ")".toList = some name.toList :=
        List.dropSuffix?_eq_some_iff.mpr ⟨_, String.toList_append, beq_self_eq_true _⟩
      rw [itemOf, Item.piece?, hcall, Option.bind_some, hname]
      exact congrArg (fun t => some (Piece.param t)) String.ofList_toList
  | base hops =>
      have hcall : ("this" ++ Text.repeated "._super" hops ++ "._url").toList.dropPrefix?
          "encodeURIComponent(".toList = none := by
        rw [String.toList_append, String.toList_append]
        rfl
      have hhops : hops? ("this" ++ Text.repeated "._super" hops ++ "._url").toList =
          some hops := by
        rw [hops?, splitOn_base]
        simp
      rw [itemOf, Item.piece?, hcall, Option.bind_none, hhops]
      rfl

theorem mapM_piece?_map_itemOf (pieces : List UrlPiece) :
    (pieces.map itemOf).mapM Item.piece? = some (pieces.map untyped) := by
  induction pieces with
  | nil => rfl
  | cons p others ih =>
      rw [List.map_cons, List.mapM_cons, piece?_itemOf, ih]
      rfl

end Template
end Source

/-! ## Methods -/

/-- A URL is resolved to its normal form. -/
theorem Schema.normal_of_resolveUrl {lineage : List Scope} {raw : Value} {t : UrlTemplate}
    (h : resolveUrl lineage raw = .ok t) : Normal (t.parts.map UrlPart.text?) := by
  cases raw with
  | str s =>
      cases hparse : Expression.parse s with
      | error fault => simp [resolveUrl, hparse] at h
      | ok e =>
          simp only [resolveUrl, hparse] at h
          obtain ⟨parts, -, rfl⟩ := exceptMap_eq_ok_iff.mp h
          exact UrlTemplate.normal_normalParts parts
  | _ => cases h

/-- Text becomes text and nothing else does, so the pieces of a method are as normal as the parts of
its action. -/
theorem Assembly.BuildsMethod.map_pieceText? {style : Naming.Style} {depth : Nat} {a : Action}
    {f : Method} (h : BuildsMethod style depth a f) :
    f.call.url.map Source.Script.pieceText? = a.url.parts.map UrlPart.text? := by
  refine (map_eq_map_of_forall₂ h.url fun part p hpiece => ?_).symm
  cases part with
  | text s =>
      cases hpiece
      rfl
  | base default =>
      cases hpiece
      rfl
  | slot name type =>
      obtain ⟨argument, -, rfl⟩ := piece_slot_eq_ok_iff.mp hpiece
      rfl

open Schema Assembly Source in
/-- The expression for the URL of a method can be read back: a URL that is all text from a string
literal, any other one from a template literal, piece by piece. -/
theorem read_url_of_method {root : Entries} {asked : Option String} {client : Client}
    {language : Language} {config : Config} {m : Module} {c : ClassDecl} {f : Method}
    (hbind : (bindDocument (.map root) asked).result = .ok client)
    (hassemble : assemble language config client = .ok m) (hc : c ∈ m.classes)
    (hf : f ∈ c.methods) :
    (∀ texts, f.call.url = texts.map .text →
      Json.parse (Script.url f.call.url).toList = .ok (.str (String.join texts))) ∧
    ((∃ p ∈ f.call.url, ∀ s, p ≠ .text s) →
      Template.literal? (Script.url f.call.url).toList =
        some (f.call.url.map Template.itemOf) ∧
      (f.call.url.map Template.itemOf).mapM Template.Item.piece? =
        some (f.call.url.map Template.untyped)) := by
  obtain ⟨_, _, heq, hclient⟩ := bindDocument_eq_ok_iff.mp hbind
  cases heq
  have hm := assemble_eq_ok_iff.mp hassemble
  obtain ⟨⟨names, set⟩, hvisit, hclass⟩ := exists_left_of_forall₂ hm.classes hc
  obtain ⟨a, ha, hmethod⟩ := exists_left_of_forall₂ hclass.methods hf
  obtain ⟨-, hactions⟩ := names_of_visit hclient hvisit
  have htame := Script.tameMethod_of_buildsMethod hmethod (hactions a ha).1 (hactions a ha).2
  have hnormal : Normal (f.call.url.map Script.pieceText?) := by
    obtain ⟨_, _, _, _, _, _, -, hset, -, -⟩ := exists_reaches_of_visit hclient hvisit
    obtain ⟨_, _, -, -, -, hbinds⟩ := exists_mem_of_action hset.nested (hset.actions_eq ▸ ha)
    rw [hmethod.map_pieceText?]
    exact normal_of_resolveUrl hbinds.url
  constructor
  · intro texts htexts
    rw [htexts]
    exact Template.parse_url texts
  · rintro ⟨p, hp, hother⟩
    have htext : Script.pieceText? p = none := by
      cases hsome : Script.pieceText? p with
      | none => rfl
      | some s => exact absurd (Template.eq_text_of_pieceText? hsome) (hother s)
    exact ⟨Template.literal?_url htame.url hnormal hp htext, Template.mapM_piece?_map_itemOf _⟩

/-- Text with all that means something in a template literal, before a placeholder and after it, and
a URL that is all text. -/
def escapedEntries : Schema.Entries :=
  [(.str "~shop", .map
     [(.str "$url", .str "$\x7b!super\x7d/\\$\x7b\x60\\\\$<id>$"), (.str "get", .null),
      (.str "list", .map [(.str "$url", .str "/a\"\x60")])])]

open Schema Assembly Source in
theorem read_url_of_method_escaped : ∃ client m c f g,
    (bindDocument (.map escapedEntries) none).result = .ok client ∧
      assemble .javaScript {} client = .ok m ∧ c ∈ m.classes ∧ f ∈ c.methods ∧ g ∈ c.methods ∧
      f.call.url = [.base 1, .text "/$\x7b\x60\\$", .param "id" .string, .text "$"] ∧
      Template.literal? (Script.url f.call.url).toList =
        some (f.call.url.map Template.itemOf) ∧
      (f.call.url.map Template.itemOf).mapM Template.Item.piece? =
        some [.base 1, .text "/$\x7b\x60\\$", .param "id", .text "$"] ∧
      Json.parse (Script.url g.call.url).toList = .ok (.str "/a\"\x60") := by
  obtain ⟨client, hbind, hclient⟩ := exists_eq_ok_of_any
    (x := (bindDocument (.map escapedEntries) none).result)
    (p := fun client => (assemble .javaScript {} client).toOption.any fun m =>
      m.classes.any fun c =>
        (c.methods.any fun f => f.call.url =
          [.base 1, .text "/$\x7b\x60\\$", .param "id" .string, .text "$"]) &&
        c.methods.any fun g => g.call.url = [.text "/a\"\x60"]) (by decide +kernel)
  obtain ⟨m, hassemble, hm⟩ := exists_eq_ok_of_any hclient
  obtain ⟨c, hc, hclass⟩ := List.any_eq_true.mp hm
  obtain ⟨hf, hg⟩ := Bool.and_eq_true_iff.mp hclass
  obtain ⟨f, hf, hfurl⟩ := List.any_eq_true.mp hf
  obtain ⟨g, hg, hgurl⟩ := List.any_eq_true.mp hg
  have hfurl := of_decide_eq_true hfurl
  have hgurl := of_decide_eq_true hgurl
  obtain ⟨hliteral, hpieces⟩ := (read_url_of_method hbind hassemble hc hf).2
    ⟨.base 1, by simp [hfurl], by simp⟩
  refine ⟨client, m, c, f, g, hbind, hassemble, hc, hf, hg, hfurl, hliteral, ?_, ?_⟩
  · rw [hpieces, hfurl]
    rfl
  · exact (read_url_of_method hbind hassemble hc hg).1 ["/a\"\x60"] hgurl

end ClientForge
