import ClientForge.Proofs.Client.ClassTree
/-!
# What the URL of a method means

`Module.urlText` evaluates the URL of a method with the classes of its module at hand: a parameter
piece looks for the parameter with its identifier, and a base piece counts links to the parent
until it stands in the root class, or fails.  `Reading.direct` reads the same URL off the document,
where there are neither classes nor identifiers.  `exists_method_urlText_eq_direct` says that the
two agree for every action of every document that can be bound and assembled.
-/

namespace ClientForge

namespace Module

variable (m : Module) (c : ClassDecl) (f : Method) (base : String) (value : String → String)

/-- The text of a piece in a method of a class, given the base URL and the values of the
parameters by their names on the wire. -/
def pieceText : UrlPiece → Option (List Char)
  | .text s => some s.toList
  | .param name _ => (f.arguments.find? (·.name = name)).map fun a => (value a.wireName).toList
  | .base hops =>
      (m.ancestor? hops c).bind fun top => if top.isRoot then some base.toList else none

/-- The text of pieces in a row. -/
def piecesText : List UrlPiece → Option (List Char)
  | [] => some []
  | p :: rest => (m.pieceText c f base value p).bind fun s => (piecesText rest).map (s ++ ·)

/-- The URL that a method of a class requests. -/
def urlText : Option (List Char) :=
  m.piecesText c f base value f.call.url

end Module

namespace Assembly

open Naming

section Pieces

variable {m : Module} {c top : ClassDecl} {f : Method} {depth : Nat}

/-- A piece stands for what its part reads as. -/
theorem pieceText_of_piece (hnodup : (f.arguments.map Argument.name).Nodup)
    (hancestor : m.ancestor? depth c = some top) (htop : top.isRoot = true) (base : String)
    (value : String → String) {part : UrlPart} {p : UrlPiece}
    (h : piece depth f.arguments part = .ok p) :
    m.pieceText c f base value p = some ((Reading.ofValues base value).part part) := by
  cases part with
  | text s =>
      cases h
      rfl
  | slot name type =>
      cases hfind : f.arguments.find? (·.wireName = name) with
      | none => simp [piece, hfind] at h
      | some argument =>
          simp only [piece, hfind] at h
          cases h
          have hwire : argument.wireName = name := by
            have hfound := List.find?_some hfind
            exact of_decide_eq_true hfound
          -- the identifier leads back to the argument that was found by its name on the wire
          have hback := find?_eq_some_of_nodup hnodup (List.mem_of_find?_eq_some hfind)
          rw [Module.pieceText, hback, Option.map_some, hwire]
          rfl
  | base default =>
      cases h
      rw [Module.pieceText, hancestor, Option.bind_some, if_pos htop]
      rfl

/-- Pieces in a row stand for what their parts read as. -/
theorem piecesText_of_pieces (hnodup : (f.arguments.map Argument.name).Nodup)
    (hancestor : m.ancestor? depth c = some top) (htop : top.isRoot = true) (base : String)
    (value : String → String) {parts : List UrlPart} {url : List UrlPiece}
    (h : List.Forall₂ (fun part p => piece depth f.arguments part = .ok p) parts url) :
    m.piecesText c f base value url = some ((Reading.ofValues base value).parts parts) := by
  induction h with
  | nil => rfl
  | cons hpiece _ ih =>
      rw [Module.piecesText, pieceText_of_piece hnodup hancestor htop base value hpiece,
        Option.bind_some, ih, Option.map_some, Reading.parts_cons]

end Pieces

/-- The methods of a class are told apart by their names on the wire if the actions of its set
are. -/
theorem BuildsClass.nodup_wireNames {style : Style} {rootName : String} {names : List String}
    {ctor : Constructor} {set : ApiSet} {c : ClassDecl}
    (h : BuildsClass style rootName names ctor set c)
    (hnodup : (set.actions.map Action.name).Nodup) :
    (c.methods.map Method.wireName).Nodup := by
  rw [← map_eq_map_of_forall₂ h.methods fun _ _ hmethod => hmethod.wireName_eq.symm]
  exact hnodup

end Assembly

open Schema Assembly Naming in
/-- Every action of a document has exactly one method, in the class of the set around it, and the
URL of that method is what the document says, whatever the base URL and the values of the
placeholders are. -/
theorem exists_method_urlText_eq_direct {root : Entries} {asked : Option String} {client : Client}
    {language : Language} {config : Config} {m : Module} {keys : KeyPath} {key : String}
    {urls : List Value} {node : Value}
    (hbind : (bindDocument (.map root) asked).result = .ok client)
    (hassemble : assemble language config client = .ok m)
    (haction : ReachesAction root keys key urls node) :
    ∃ c f, m.classes.filter (·.path = KeyPath.dotted keys) = [c] ∧
      c.name = className client.className (keys.map memberName) ∧
      c.methods.filter (·.wireName = key) = [f] ∧
      ∀ base value, ∃ text, m.urlText c f base value = some text ∧
        (Reading.ofValues base value).direct urls = some text := by
  obtain ⟨_, _, heq, hclient⟩ := bindDocument_eq_ok_iff.mp hbind
  cases heq
  have hm := assemble_eq_ok_iff.mp hassemble
  obtain ⟨outer, hmem, hkey⟩ := haction
  obtain ⟨_, _, _, set, hset, hvisit⟩ := exists_visit_of_reaches hclient outer
  obtain ⟨a, ha, hbinds⟩ := exists_action_of_mem hset.nested hmem hkey
  rw [← hset.actions_eq] at ha
  obtain ⟨c, hc, hclass, top, hancestor, htop⟩ := hm.exists_class hvisit
  obtain ⟨f, hf, hmethod⟩ := exists_right_of_forall₂ hclass.methods ha
  rw [List.length_map] at hancestor hmethod
  refine ⟨c, f, ?_, hclass.name_eq, ?_, ?_⟩
  · have hpath : c.path = KeyPath.dotted keys := by
      rw [hclass.path_eq, hset.path_eq]
    rw [← hpath]
    exact filter_eq_singleton_of_nodup (hm.nodup_paths hclient) hc
  · have hwire : f.wireName = key := by
      rw [hmethod.wireName_eq, hbinds.name_eq]
    have hnodup := hset.actions_eq ▸ nodup_names_of_memberActions hset.nested
    rw [← hwire]
    exact filter_eq_singleton_of_nodup (hclass.nodup_wireNames hnodup) hf
  -- both sides read the URL that the action was bound with
  · intro base value
    exact ⟨_, piecesText_of_pieces hmethod.nodup_arguments hancestor htop base value hmethod.url,
      hset.direct_eq hbinds _⟩

open Schema Assembly in
/-- An action without a URL of its own, below a set whose placeholder is a reserved word. -/
theorem exists_method_urlText_eq_direct_reserved :
    ∃ client m,
      (bindDocument (.map [(.str "~shop", .map [(.str "$url", .str "$\x7b!super\x7d/<class>"),
        (.str "get", .null)])]) none).result = .ok client ∧
      assemble .python {} client = .ok m ∧
      ∃ c f, m.classes.filter (·.path = "~shop") = [c] ∧ c.name = "XSClientShop" ∧
        c.methods.filter (·.wireName = "get") = [f] ∧
        ∀ base value, ∃ text, m.urlText c f base value = some text ∧
          (Reading.ofValues base value).direct
            [defaultActionUrl, .str "$\x7b!super\x7d/<class>"] = some text := by
  let shop : Entries := [(.str "$url", .str "$\x7b!super\x7d/<class>"), (.str "get", .null)]
  let root : Entries := [(.str "~shop", .map shop)]
  have hset : SchemaName.setName? "~shop" = some "shop" := by decide
  have hget : ("get", Value.null) ∈ memberEntries shop :=
    mem_memberEntries_iff.mpr ⟨by simp [shop], by decide⟩
  have haction : SchemaName.setName? "get" = none := by decide
  have hshop : Reaches root ["~shop"] [.str "$\x7b!super\x7d/<class>"] shop :=
    Reaches.root.nested List.mem_cons_self hset
  obtain ⟨client, hbind, hclient⟩ : ∃ client, (bindDocument (.map root) none).result = .ok client ∧
      (assemble .python {} client).isOk = true ∧ client.className = "XSClient" := by
    have hok : ((bindDocument (.map root) none).result.toOption.any fun client =>
        (assemble .python {} client).isOk && client.className = "XSClient") = true := by
      decide +kernel
    cases hresult : (bindDocument (.map root) none).result with
    | error failure => simp [hresult, Except.toOption] at hok
    | ok client => exact ⟨client, rfl, by simpa [hresult, Except.toOption] using hok⟩
  cases hassemble : assemble .python {} client with
  | error failure => simp [hassemble, Except.isOk, Except.toBool] at hclient
  | ok m =>
      refine ⟨client, m, hbind, hassemble, ?_⟩
      have hmethod := exists_method_urlText_eq_direct hbind hassemble (.mk hshop hget haction)
      rw [hclient.2] at hmethod
      exact hmethod

end ClientForge
