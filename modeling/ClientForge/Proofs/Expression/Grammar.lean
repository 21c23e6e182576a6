import ClientForge.Expression
import ClientForge.Proofs.Basics
import ClientForge.Proofs.Text.Split
import ClientForge.Proofs.Url.Normal
/-!
# The grammar of expressions

A schema string is a sequence of lexemes: escapes, references, placeholders and plain characters.
`Splits` says how a text divides into them, and `Means` which item each of them stands for.  Reading
accepts exactly the texts that divide into lexemes with a meaning, and gives the items in order,
each run of characters as one literal (`parse_iff_splits`).  A text divides in one way only.

After `${` or `<` the first closing mark counts, whatever stands before it: bodies have no escapes
of their own.
-/

namespace ClientForge
namespace Expression

/-! ## Lexemes -/

/-- The smallest parts of an expression. -/
inductive Lexeme where
  | escape (c : Char)
  | reference (body : List Char)
  | placeholder (body : List Char)
  | plain (c : Char)
deriving DecidableEq, Repr

/-- How a text divides into lexemes. -/
inductive Splits : List Char → List Lexeme → Prop
  | nil : Splits [] []
  | escape {rest : List Char} {list : List Lexeme} (c : Char) (tail : Splits rest list) :
      Splits ('\\' :: c :: rest) (.escape c :: list)
  | reference {rest : List Char} {list : List Lexeme} (body : List Char) (first : '\x7d' ∉ body)
      (tail : Splits rest list) :
      Splits ('$' :: '\x7b' :: (body ++ '\x7d' :: rest)) (.reference body :: list)
  | placeholder {rest : List Char} {list : List Lexeme} (body : List Char) (first : '>' ∉ body)
      (tail : Splits rest list) : Splits ('<' :: (body ++ '>' :: rest)) (.placeholder body :: list)
  | plain {rest : List Char} {list : List Lexeme} (c : Char) (escape : c ≠ '\\') (mark : c ≠ '<')
      (brace : c = '$' → rest.head? ≠ some '\x7b') (tail : Splits rest list) :
      Splits (c :: rest) (.plain c :: list)

/-- The item that a lexeme stands for.  The tokens of a reference stand between dots: steps up, then
perhaps an attribute.  Tokens and names may have blanks around them. -/
inductive Means : Lexeme → Item → Prop
  | escape (c : Char) : Means (.escape c) (.char c)
  | plain (c : Char) : Means (.plain c) (.char c)
  | reference {body : List Char} {hops : Nat} {attr : Option String}
      (filled : ∃ c ∈ body, Text.isBlank c = false)
      (identifier : ∀ a ∈ attr, Text.isIdentifier a.toList = true)
      (tokens : List.Forall₂ Text.Padded
        (List.replicate hops superToken.toList ++ attr.toList.map String.toList)
        (body.splitOn '.')) :
      Means (.reference body) (.reference hops (attr.getD defaultAttribute))
  | untyped {body : List Char} {name : String}
      (identifier : Text.isIdentifier name.toList = true) (padded : Text.Padded name.toList body) :
      Means (.placeholder body) (.placeholder name {})
  | typed {before text : List Char} {name : String} {spec : TypeSpec}
      (identifier : Text.isIdentifier name.toList = true)
      (padded : Text.Padded name.toList before) (filled : ∃ c ∈ text, Text.isBlank c = false)
      (type : TypeSpec.parse (String.ofList text) = .ok spec) :
      Means (.placeholder (before ++ ':' :: text)) (.placeholder name spec)

/-- A text divides into lexemes in one way. -/
theorem Splits.unique {cs : List Char} {list list' : List Lexeme} (h : Splits cs list)
    (h' : Splits cs list') : list = list' := by
  induction h generalizing list' with
  | nil =>
      cases h'
      rfl
  | escape c tail ih =>
      cases h' with
      | escape _ tail' => rw [ih tail']
      | plain _ escape => exact absurd rfl escape
  | @reference rest list body first tail ih =>
      -- a dollar sign before a brace is never plain, so the other division has a reference here too
      generalize hcs : '$' :: '\x7b' :: (body ++ '\x7d' :: rest) = cs at h'
      cases h' with
      | nil => cases hcs
      | escape => cases hcs
      | placeholder => cases hcs
      | reference body' first' tail' =>
          obtain ⟨rfl, rfl⟩ :=
            Text.append_cons_inj first first' (List.cons.inj (List.cons.inj hcs).2).2
          rw [ih tail']
      | plain c _ _ brace =>
          obtain ⟨rfl, rfl⟩ := List.cons.inj hcs
          exact absurd rfl (brace rfl)
  | @placeholder rest list body first tail ih =>
      generalize hcs : '<' :: (body ++ '>' :: rest) = cs at h'
      cases h' with
      | nil => cases hcs
      | escape => cases hcs
      | reference => cases hcs
      | placeholder body' first' tail' =>
          obtain ⟨rfl, rfl⟩ := Text.append_cons_inj first first' (List.cons.inj hcs).2
          rw [ih tail']
      | plain c _ mark => exact absurd (List.cons.inj hcs).1.symm mark
  | plain c escape mark brace tail ih =>
      cases h' with
      | escape => exact absurd rfl escape
      | reference => exact absurd rfl (brace rfl)
      | placeholder => exact absurd rfl mark
      | plain _ _ _ _ tail' => rw [ih tail']

/-! ## Bodies -/

theorem unpadded_superToken : Text.Unpadded superToken.toList := by
  refine ⟨?_, ?_⟩
  · rintro c ⟨⟩
    rfl
  · rintro c ⟨⟩
    rfl

/-- Nothing follows an attribute. -/
theorem readTokens_some_eq_ok_iff {body a : String} {tokens : List (List Char)}
    {result : Nat × Option String} :
    readTokens body (some a) tokens = .ok result ↔ tokens = [] ∧ result = (0, some a) := by
  cases tokens with
  | nil => simp [readTokens, eq_comm]
  | cons token rest =>
      rw [readTokens]
      by_cases hword : String.ofList (Text.trim token) = ""
      · simp [hword]
      · simp [hword]

/-- What was read from tokens: steps up, then at most one attribute. -/
theorem tokens_of_readTokens {body : String} {tokens : List (List Char)} {hops : Nat}
    {attr : Option String} (h : readTokens body none tokens = .ok (hops, attr)) :
    (∀ a ∈ attr, Text.isIdentifier a.toList = true) ∧ List.Forall₂ Text.Padded
      (List.replicate hops superToken.toList ++ attr.toList.map String.toList) tokens := by
  induction tokens generalizing hops with
  | nil =>
      cases h
      exact ⟨by simp, List.Forall₂.nil⟩
  | cons token rest ih =>
      rw [readTokens] at h
      dsimp only at h
      split at h
      · cases h
      · split at h
        · rename_i hsuper
          obtain ⟨⟨hops, attr⟩, hrest, heq⟩ := exceptMap_eq_ok_iff.mp h
          cases heq
          obtain ⟨hattr, htokens⟩ := ih hrest
          have hword : Text.trim token = superToken.toList := by
            rw [← hsuper, String.toList_ofList]
          exact ⟨hattr, List.Forall₂.cons (Text.trim_eq_iff.mp hword).2 htokens⟩
        · split at h
          · rename_i hidentifier
            obtain ⟨rfl, heq⟩ := readTokens_some_eq_ok_iff.mp h
            cases heq
            refine ⟨by simpa using hidentifier, List.Forall₂.cons ?_ List.Forall₂.nil⟩
            rw [String.toList_ofList]
            exact (Text.trim_eq_iff.mp rfl).2
          · cases h

theorem readTokens_of_tokens (body : String) {tokens : List (List Char)} {hops : Nat}
    {attr : Option String} (hattr : ∀ a ∈ attr, Text.isIdentifier a.toList = true)
    (h : List.Forall₂ Text.Padded
      (List.replicate hops superToken.toList ++ attr.toList.map String.toList) tokens) :
    readTokens body none tokens = .ok (hops, attr) := by
  induction hops generalizing tokens with
  | zero =>
      cases attr with
      | none =>
          cases h
          rfl
      | some a =>
          have hidentifier := hattr a rfl
          obtain ⟨token, rest, hpadded, hrest, rfl⟩ := List.forall₂_cons_left_iff.mp h
          cases hrest
          have hword : String.ofList (Text.trim token) = a := by
            rw [Text.trim_of_isIdentifier hidentifier hpadded, String.ofList_toList]
          have hne : a ≠ "" := by
            rintro rfl
            cases hidentifier
          -- the word for a step is no identifier, so the attribute is not taken for one
          have hsuper : a ≠ superToken := by
            rintro rfl
            revert hidentifier
            decide
          simp [readTokens, hword, hne, hsuper, hidentifier]
  | succ hops ih =>
      obtain ⟨token, rest, hpadded, hrest, rfl⟩ := List.forall₂_cons_left_iff.mp h
      have hword : String.ofList (Text.trim token) = superToken := by
        rw [Text.trim_of_padded unpadded_superToken hpadded, String.ofList_toList]
      have hne : superToken ≠ "" := by decide
      simp [readTokens, hword, hne, ih hrest, Except.map]

/-- A body is read as a reference exactly if it means one. -/
theorem readReference_eq_ok_iff {body : List Char} {item : Item} :
    readReference body = .ok item ↔ Means (.reference body) item := by
  unfold readReference
  rw [Text.splitOn_eq]
  constructor
  · intro h
    split at h
    · cases h
    · rename_i hfilled
      obtain ⟨⟨hops, attr⟩, htokens, rfl⟩ := exceptMap_eq_ok_iff.mp h
      obtain ⟨hattr, htokens⟩ := tokens_of_readTokens htokens
      exact Means.reference (Text.not_all_isBlank_iff.mp hfilled) hattr htokens
  · intro h
    cases h with
    | reference filled identifier tokens =>
        rw [if_neg (Text.not_all_isBlank_iff.mpr filled), readTokens_of_tokens _ identifier tokens]
        rfl

/-- An identifier between blanks is a name. -/
theorem name_of_trim {cs : List Char} (h : Text.isIdentifier (Text.trim cs) = true) :
    Text.isIdentifier (String.ofList (Text.trim cs)).toList = true ∧
      Text.Padded (String.ofList (Text.trim cs)).toList cs := by
  rw [String.toList_ofList]
  exact ⟨h, Text.padded_trim cs⟩

/-- A body without a colon is read as a placeholder exactly if it is a name. -/
theorem readPlaceholder_untyped_iff {body : List Char} {item : Item} (hbody : ':' ∉ body) :
    readPlaceholder body = .ok item ↔ Means (.placeholder body) item := by
  have hcut := Text.cut_eq_none_iff.mpr ⟨rfl, hbody⟩
  simp only [readPlaceholder, hcut]
  constructor
  · intro h
    split at h
    · rename_i hname
      cases h
      obtain ⟨hidentifier, hpadded⟩ := name_of_trim hname
      exact Means.untyped hidentifier hpadded
    · cases h
  · intro h
    cases h with
    | untyped identifier padded =>
        rw [Text.trim_of_isIdentifier identifier padded, if_pos identifier, String.ofList_toList]
    | typed => simp at hbody

/-- What follows the first colon of a body has to be a type spec. -/
theorem readPlaceholder_typed_iff {before text : List Char} {item : Item} (hbefore : ':' ∉ before) :
    readPlaceholder (before ++ ':' :: text) = .ok item ↔
      Means (.placeholder (before ++ ':' :: text)) item := by
  simp only [readPlaceholder, Text.cut_append hbefore]
  constructor
  · intro h
    split at h
    · rename_i hname
      obtain ⟨hidentifier, hpadded⟩ := name_of_trim hname
      split at h
      · cases h
      · rename_i hfilled
        cases htype : TypeSpec.parse (String.ofList text) with
        | error fault => simp [htype] at h
        | ok spec =>
            simp only [htype, Except.ok.injEq] at h
            subst h
            exact Means.typed hidentifier hpadded (Text.not_all_isBlank_iff.mp hfilled) htype
    · cases h
  · intro h
    generalize hbody : before ++ ':' :: text = body at h
    cases h with
    | untyped identifier padded =>
        have hcolon := Text.colon_not_mem_of_padded identifier padded
        rw [← hbody] at hcolon
        simp at hcolon
    | typed identifier padded filled type =>
        -- there is no colon in a name, so this is the division at the first one
        obtain ⟨rfl, rfl⟩ :=
          Text.append_cons_inj hbefore (Text.colon_not_mem_of_padded identifier padded) hbody
        rw [Text.trim_of_isIdentifier identifier padded, if_pos identifier,
          if_neg (Text.not_all_isBlank_iff.mpr filled), type, String.ofList_toList]

/-- A body is read as a placeholder exactly if it means one. -/
theorem readPlaceholder_eq_ok_iff {body : List Char} {item : Item} :
    readPlaceholder body = .ok item ↔ Means (.placeholder body) item := by
  by_cases hbody : ':' ∈ body
  · obtain ⟨before, text, rfl, hbefore⟩ := List.eq_append_cons_of_mem hbody
    exact readPlaceholder_typed_iff hbefore
  · exact readPlaceholder_untyped_iff hbody

/-! ## Items -/

/-- The items of a text are the meanings of the lexemes that it divides into. -/
theorem exists_splits_of_items {position : Nat} {cs : List Char} {list : List Item}
    (h : items position cs = .ok list) :
    ∃ lexemes, Splits cs lexemes ∧ List.Forall₂ Means lexemes list := by
  fun_induction items position cs generalizing list with
  | case1 =>
      cases h
      exact ⟨[], Splits.nil, List.Forall₂.nil⟩
  | case2 => cases h
  | case3 position c rest ih =>
      obtain ⟨others, hothers, rfl⟩ := exceptMap_eq_ok_iff.mp h
      obtain ⟨lexemes, hsplits, hmeans⟩ := ih hothers
      exact ⟨_, Splits.escape c hsplits, List.Forall₂.cons (Means.escape c) hmeans⟩
  | case4 => cases h
  | case5 => cases h
  | case6 position rest body tail hcut item hitem ih =>
      obtain ⟨others, hothers, rfl⟩ := exceptMap_eq_ok_iff.mp h
      obtain ⟨lexemes, hsplits, hmeans⟩ := ih hothers
      obtain ⟨rfl, hbody⟩ := Text.cut_eq_some_iff.mp hcut
      exact ⟨_, Splits.reference body hbody hsplits,
        List.Forall₂.cons (readReference_eq_ok_iff.mp hitem) hmeans⟩
  | case7 => cases h
  | case8 => cases h
  | case9 position rest body tail hcut item hitem ih =>
      obtain ⟨others, hothers, rfl⟩ := exceptMap_eq_ok_iff.mp h
      obtain ⟨lexemes, hsplits, hmeans⟩ := ih hothers
      obtain ⟨rfl, hbody⟩ := Text.cut_eq_some_iff.mp hcut
      exact ⟨_, Splits.placeholder body hbody hsplits,
        List.Forall₂.cons (readPlaceholder_eq_ok_iff.mp hitem) hmeans⟩
  | case10 position c rest hescape hbrace hmark ih =>
      obtain ⟨others, hothers, rfl⟩ := exceptMap_eq_ok_iff.mp h
      obtain ⟨lexemes, hsplits, hmeans⟩ := ih hothers
      refine ⟨_, Splits.plain c hescape hmark ?_ hsplits,
        List.Forall₂.cons (Means.plain c) hmeans⟩
      intro hdollar hhead
      obtain ⟨tail, htail⟩ := List.head?_eq_some_iff.mp hhead
      exact hbrace tail hdollar htail

/-- What is read of a reference, before any rest. -/
theorem items_reference {body : List Char} (position : Nat) (rest : List Char)
    (first : '\x7d' ∉ body) :
    items position ('$' :: '\x7b' :: (body ++ '\x7d' :: rest)) =
      (readReference body).mapError (⟨·, position⟩) >>= fun item =>
        (items (position + body.length + 3) rest).map (item :: ·) := by
  rw [items]
  split
  · rename_i hcut
    rw [Text.cut_append first] at hcut
    cases hcut
  · rename_i hcut
    rw [Text.cut_append first] at hcut
    cases hcut
    cases readReference body with
    | error cause => rfl
    | ok item => rfl

/-- What is read of a placeholder, before any rest. -/
theorem items_placeholder {body : List Char} (position : Nat) (rest : List Char)
    (first : '>' ∉ body) :
    items position ('<' :: (body ++ '>' :: rest)) =
      (readPlaceholder body).mapError (⟨·, position⟩) >>= fun item =>
        (items (position + body.length + 2) rest).map (item :: ·) := by
  rw [items]
  split
  · rename_i hcut
    rw [Text.cut_append first] at hcut
    cases hcut
  · rename_i hcut
    rw [Text.cut_append first] at hcut
    cases hcut
    cases readPlaceholder body with
    | error cause => rfl
    | ok item => rfl

/-- Lexemes with a meaning are read as it, and the rest is read from where they end.  A brace after
them could make a reference of a dollar sign at their end. -/
theorem items_append {before rest : List Char} {lexemes : List Lexeme} {list : List Item}
    (position : Nat) (hsplits : Splits before lexemes) (hmeans : List.Forall₂ Means lexemes list)
    (hrest : rest.head? ≠ some '\x7b') :
    items position (before ++ rest) =
      (items (position + before.length) rest).map (list ++ ·) := by
  induction hsplits generalizing position list with
  | nil =>
      cases hmeans
      show items position rest = (items position rest).map id
      rw [Except.map_id]
      rfl
  | escape c tail ih =>
      obtain ⟨item, others, hitem, hothers, rfl⟩ := List.forall₂_cons_left_iff.mp hmeans
      cases hitem
      rw [List.cons_append, List.cons_append, items, ih _ hothers, exceptMap_exceptMap,
        List.length_cons, List.length_cons, Nat.add_assoc, Nat.add_comm 2]
      rfl
  | @reference middle lexemes body first tail ih =>
      obtain ⟨item, others, hitem, hothers, rfl⟩ := List.forall₂_cons_left_iff.mp hmeans
      have hlength : position + body.length + 3 + middle.length =
          position + ('$' :: '\x7b' :: (body ++ '\x7d' :: middle)).length := by
        simp only [List.length_cons, List.length_append]
        omega
      rw [← hlength, List.cons_append, List.cons_append, List.append_assoc, List.cons_append,
        items_reference position _ first, readReference_eq_ok_iff.mpr hitem, ih _ hothers]
      exact exceptMap_exceptMap _ _ _
  | @placeholder middle lexemes body first tail ih =>
      obtain ⟨item, others, hitem, hothers, rfl⟩ := List.forall₂_cons_left_iff.mp hmeans
      have hlength : position + body.length + 2 + middle.length =
          position + ('<' :: (body ++ '>' :: middle)).length := by
        simp only [List.length_cons, List.length_append]
        omega
      rw [← hlength, List.cons_append, List.append_assoc, List.cons_append,
        items_placeholder position _ first, readPlaceholder_eq_ok_iff.mpr hitem, ih _ hothers]
      exact exceptMap_exceptMap _ _ _
  | @plain middle lexemes c escape mark brace tail ih =>
      obtain ⟨item, others, hitem, hothers, rfl⟩ := List.forall₂_cons_left_iff.mp hmeans
      cases hitem
      rw [List.cons_append, items, ih _ hothers, exceptMap_exceptMap, List.length_cons,
        Nat.add_assoc, Nat.add_comm 1]
      · rfl
      · exact escape
      · intro more hdollar hmore
        cases middle with
        | nil =>
            rw [List.nil_append] at hmore
            exact hrest (congrArg List.head? hmore)
        | cons d middle =>
            rw [(List.cons.inj hmore).1] at brace
            exact brace hdollar rfl
      · exact mark

/-- Lexemes with a meaning are read as it. -/
theorem items_of_splits {cs : List Char} {lexemes : List Lexeme} {list : List Item}
    (position : Nat) (hsplits : Splits cs lexemes) (hmeans : List.Forall₂ Means lexemes list) :
    items position cs = .ok list := by
  have hempty : ([] : List Char).head? ≠ some '\x7b' := by simp
  have happend := items_append position hsplits hmeans hempty
  rw [List.append_nil, items] at happend
  rw [happend, Except.map, List.append_nil]

/-- The items of a text are the meanings of its lexemes. -/
theorem items_eq_ok_iff {position : Nat} {cs : List Char} {list : List Item} :
    items position cs = .ok list ↔
      ∃ lexemes, Splits cs lexemes ∧ List.Forall₂ Means lexemes list :=
  ⟨exists_splits_of_items, fun ⟨_, hsplits, hmeans⟩ => items_of_splits position hsplits hmeans⟩

/-! ## Literals -/

/-- The items that a segment is made of. -/
def itemsOf : Segment → List Item
  | .literal s => s.toList.map .char
  | .reference hops attr => [.reference hops attr]
  | .placeholder name spec => [.placeholder name spec]

/-- No two literals are neighbours, and a literal is empty only if there is nothing else. -/
def Merged (segments : List Segment) : Prop :=
  segments = [.literal ""] ∨ segments ≠ [] ∧ Normal (segments.map segmentText?)

theorem merge_char_of_literal {list : List Item} {s : String} {segments : List Segment} (c : Char)
    (h : merge list = .literal s :: segments) :
    merge (.char c :: list) = .literal (String.singleton c ++ s) :: segments := by
  rw [merge, h]

theorem merge_char_of_not_literal {list : List Item} (c : Char)
    (h : ∀ text ∈ ((merge list).map segmentText?).head?, text = none) :
    merge (.char c :: list) = .literal (String.singleton c) :: merge list := by
  rw [merge]
  split
  · rename_i s segments hmerge
    rw [hmerge] at h
    cases h _ rfl
  · rfl

/-- A list of segments begins with a literal, or with none. -/
theorem literal_or_not (segments : List Segment) :
    (∃ s rest, segments = .literal s :: rest) ∨
      ∀ text ∈ (segments.map segmentText?).head?, text = none := by
  cases segments with
  | nil => simp
  | cons segment rest =>
      cases segment with
      | literal s => exact Or.inl ⟨s, rest, rfl⟩
      | reference hops attr => simp [segmentText?]
      | placeholder name spec => simp [segmentText?]

/-- Merging keeps the items. -/
theorem flatMap_itemsOf_merge (list : List Item) : (merge list).flatMap itemsOf = list := by
  induction list with
  | nil => rfl
  | cons item rest ih =>
      cases item with
      | char c =>
          rcases literal_or_not (merge rest) with ⟨s, segments, hmerge⟩ | hmerge
          · rw [merge_char_of_literal c hmerge]
            rw [hmerge] at ih
            simp [itemsOf, ← ih]
          · rw [merge_char_of_not_literal c hmerge]
            simp [itemsOf, ih]
      | reference hops attr => simp [merge, itemsOf, ih]
      | placeholder name spec => simp [merge, itemsOf, ih]

/-- Merging leaves no two literals side by side and makes none that is empty. -/
theorem normal_merge (list : List Item) : Normal ((merge list).map segmentText?) := by
  induction list with
  | nil => exact normal_nil
  | cons item rest ih =>
      cases item with
      | char c =>
          rcases literal_or_not (merge rest) with ⟨s, segments, hmerge⟩ | hmerge
          · rw [hmerge] at ih
            obtain ⟨-, hhead, hrest⟩ := normal_some_cons_iff.mp ih
            rw [merge_char_of_literal c hmerge]
            exact normal_some_cons_iff.mpr ⟨by simp, hhead, hrest⟩
          · rw [merge_char_of_not_literal c hmerge]
            exact normal_some_cons_iff.mpr ⟨by simp, hmerge, ih⟩
      | reference hops attr => exact normal_none_cons_iff.mpr ih
      | placeholder name spec => exact normal_none_cons_iff.mpr ih

/-- Characters in a row are one literal, up to what is not text. -/
theorem merge_chars_append {cs : List Char} {list : List Item} (hcs : cs ≠ [])
    (hlist : ∀ text ∈ ((merge list).map segmentText?).head?, text = none) :
    merge (cs.map .char ++ list) = .literal (String.ofList cs) :: merge list := by
  induction cs with
  | nil => exact absurd rfl hcs
  | cons c rest ih =>
      cases rest with
      | nil => exact merge_char_of_not_literal c hlist
      | cons d more =>
          have hmore := ih (List.cons_ne_nil d more)
          rw [List.map_cons, List.cons_append, merge_char_of_literal c hmore,
            String.singleton_eq_ofList, ← String.ofList_append]
          rfl

theorem merge_flatMap_itemsOf {segments : List Segment}
    (h : Normal (segments.map segmentText?)) : merge (segments.flatMap itemsOf) = segments := by
  induction segments with
  | nil => rfl
  | cons segment rest ih =>
      rw [List.flatMap_cons]
      cases segment with
      | literal s =>
          obtain ⟨hs, hhead, hrest⟩ := normal_some_cons_iff.mp h
          have hmerge := ih hrest
          rw [itemsOf, merge_chars_append, hmerge, String.ofList_toList]
          · simpa using hs
          · rw [hmerge]
            exact hhead
      | reference hops attr => simp [itemsOf, merge, ih (normal_none_cons_iff.mp h)]
      | placeholder name spec => simp [itemsOf, merge, ih (normal_none_cons_iff.mp h)]

/-- The segments of items are the merged ones that are made of them. -/
theorem segmentsOf_eq_iff {list : List Item} {segments : List Segment} :
    segmentsOf list = segments ↔ Merged segments ∧ segments.flatMap itemsOf = list := by
  unfold segmentsOf
  constructor
  · rintro rfl
    split
    · rename_i hmerge
      have hlist := flatMap_itemsOf_merge list
      rw [hmerge] at hlist
      exact ⟨Or.inl rfl, hlist⟩
    · rename_i hmerge
      exact ⟨Or.inr ⟨fun hnil => hmerge hnil, normal_merge list⟩, flatMap_itemsOf_merge list⟩
  · rintro ⟨rfl | ⟨hne, hnormal⟩, rfl⟩
    · rfl
    · rw [merge_flatMap_itemsOf hnormal]
      split
      · exact absurd rfl hne
      · rfl

/-! ## Expressions -/

/-- Reading accepts exactly the texts that divide into lexemes with a meaning, and what is read is
that meaning in order, with each run of characters as one literal. -/
theorem parse_eq_ok_iff {text : String} {e : Expression} :
    parse text = .ok e ↔ e.source = text ∧ Merged e.segments ∧
      ∃ lexemes, Splits text.toList lexemes ∧
        List.Forall₂ Means lexemes (e.segments.flatMap itemsOf) := by
  unfold parse
  rw [exceptMap_eq_ok_iff]
  constructor
  · rintro ⟨list, hlist, rfl⟩
    obtain ⟨hmerged, hitems⟩ := segmentsOf_eq_iff.mp (rfl : segmentsOf list = segmentsOf list)
    refine ⟨rfl, hmerged, ?_⟩
    rw [hitems]
    exact items_eq_ok_iff.mp hlist
  · rintro ⟨hsource, hmerged, hlexemes⟩
    refine ⟨_, items_eq_ok_iff.mpr hlexemes, ?_⟩
    rw [segmentsOf_eq_iff.mpr ⟨hmerged, rfl⟩, ← hsource]

/-- The grammar of expressions: what is read from a text, and that no text can be read in two
ways. -/
theorem parse_iff_splits (text : String) :
    (∀ e, parse text = .ok e ↔ e.source = text ∧ Merged e.segments ∧
      ∃ lexemes, Splits text.toList lexemes ∧
        List.Forall₂ Means lexemes (e.segments.flatMap itemsOf)) ∧
    ∀ lexemes lexemes', Splits text.toList lexemes → Splits text.toList lexemes' →
      lexemes = lexemes' :=
  ⟨fun _ => parse_eq_ok_iff, fun _ _ h h' => h.unique h'⟩

/-- A text with all kinds of lexemes, and with blanks where they may stand. -/
def mixedText : String := "\\<$<id : number>$\x7b !super.b \x7d"

def mixedLexemes : List Lexeme :=
  [.escape '<', .plain '$', .placeholder "id : number".toList, .reference " !super.b ".toList]

def mixedSegments : List Segment :=
  [.literal "<$", .placeholder "id" { primitive := .number }, .reference 1 "b"]

theorem parse_iff_splits_mixed :
    parse mixedText = .ok ⟨mixedSegments, mixedText⟩ ∧
      ∀ lexemes, Splits mixedText.toList lexemes → lexemes = mixedLexemes := by
  have hsplits : Splits mixedText.toList mixedLexemes := by
    refine Splits.escape '<' (Splits.plain '$' (by decide) (by decide) (by decide) ?_)
    refine Splits.placeholder "id : number".toList (by decide) ?_
    exact Splits.reference " !super.b ".toList (by decide) Splits.nil
  have hmeans : List.Forall₂ Means mixedLexemes (mixedSegments.flatMap itemsOf) := by
    have hname : Text.Padded "id".toList "id ".toList :=
      ⟨[], [' '], rfl, List.forall_mem_nil _, List.forall_mem_singleton.mpr rfl⟩
    have hstep : Text.Padded superToken.toList " !super".toList :=
      ⟨[' '], [], rfl, List.forall_mem_singleton.mpr rfl, List.forall_mem_nil _⟩
    have hattr : Text.Padded "b".toList "b ".toList :=
      ⟨[], [' '], rfl, List.forall_mem_nil _, List.forall_mem_singleton.mpr rfl⟩
    have hslot : Means (.placeholder "id : number".toList)
        (.placeholder "id" { primitive := .number }) :=
      Means.typed (by decide) hname ⟨'n', by decide, by decide⟩ (by decide +kernel)
    have hreference : Means (.reference " !super.b ".toList) (.reference 1 "b") :=
      Means.reference ⟨'b', by decide, by decide⟩
        (by decide : ∀ a ∈ some "b", Text.isIdentifier a.toList = true)
        (.cons hstep (.cons hattr .nil))
    exact .cons (.escape '<') (.cons (.plain '$') (.cons hslot (.cons hreference .nil)))
  obtain ⟨hparse, hunique⟩ := parse_iff_splits mixedText
  refine ⟨(hparse _).mpr ⟨rfl, Or.inr ⟨List.cons_ne_nil _ _, ?_⟩, mixedLexemes, hsplits, hmeans⟩,
    fun lexemes h => hunique lexemes mixedLexemes h hsplits⟩
  exact ⟨by decide, by decide⟩

end Expression
end ClientForge
