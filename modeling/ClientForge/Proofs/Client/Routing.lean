import ClientForge.Proofs.Client.Agreement
import ClientForge.Proofs.Schema.Parameters
import ClientForge.Proofs.Schema.Reach
/-!
# Where parameters go

The parameters of a method come from three places of its action and leave through three places of
the request.  `Routed` says that the two fit: placeholders are substituted in the URL, the entries
of `$params` make up the query and those of `$data` the body, and nothing else does.
`exists_routed_of_method` shows it for every method that is assembled from a document.

A placeholder is looked up by its name on the wire, and a piece of the URL by its identifier.  Both
names are distinct within a method, so the two ways lead to the same parameter.
-/

namespace ClientForge

/-! ## Routes -/

/-- Whether a method sends an argument through the URL, the query or the body. -/
def Method.Sends (f : Method) (a : Argument) : Origin → Prop
  | .path => ∃ type, UrlPiece.param a.name type ∈ f.call.url
  | .query => a ∈ f.call.query
  | .body => a ∈ f.call.body

open Schema in
/-- The arguments of a method and where they go, for an action with the given slots in its expanded
URL and the given `$params` and `$data`. -/
structure Method.Routed (slots : List (String × Primitive)) (params data : Value) (f : Method) :
    Prop where
  /-- Slots by first appearance, then the entries of `$params` and of `$data`; the last two are the
  bags of the request. -/
  arguments : ∃ query body,
    f.arguments.map Argument.parameter = slots.eraseDups.map pathParameter ++ query ++ body ∧
    List.Forall₂ (Declares .query) (declaredEntries params) query ∧
    List.Forall₂ (Declares .body) (declaredEntries data) body ∧
    f.call.query.map Argument.parameter = query ∧ f.call.body.map Argument.parameter = body
  nodup : (f.arguments.map Argument.wireName).Nodup
  default_path : ∀ a ∈ f.arguments, a.origin = .path → a.default = none
  /-- What is substituted or put into a bag is an argument. -/
  url : ∀ name type, UrlPiece.param name type ∈ f.call.url →
    ∃ a ∈ f.arguments, a.origin = .path ∧ a.name = name ∧ a.type = type
  query : f.call.query.Sublist f.arguments
  body : f.call.body.Sublist f.arguments
  /-- An argument goes where it comes from, and nowhere else. -/
  sends : ∀ a ∈ f.arguments, ∀ origin, f.Sends a origin ↔ origin = a.origin

namespace Assembly

open Naming Schema

section Method

variable {style : Style} {depth : Nat} {enclosing : List Scope} {name : String} {path : KeyPath}
  {entries : Entries} {a : Action} {f : Method}

/-- The names of the arguments on the wire are those of the parameters. -/
theorem BuildsMethod.nodup_wireNames (h : BuildsMethod style depth a f)
    (hbinds : BindsAction enclosing name path entries a) :
    (f.arguments.map Argument.wireName).Nodup := by
  have hnames : f.arguments.map Argument.wireName = a.parameters.map Parameter.name := by
    rw [h.arguments_eq, List.map_map]
    rfl
  rw [hnames]
  exact hbinds.nodup_names

/-- An argument stands for one of the parameters. -/
theorem BuildsMethod.parameter_mem (h : BuildsMethod style depth a f) {argument : Argument}
    (hargument : argument ∈ f.arguments) : argument.parameter ∈ a.parameters := by
  rw [← map_parameter_argumentOf style a.parameters, ← h.arguments_eq]
  exact List.mem_map_of_mem hargument

/-- A parameter piece stands for an argument that fills a slot of the template. -/
theorem BuildsMethod.exists_slot_of_param (h : BuildsMethod style depth a f) {identifier : String}
    {type : Primitive} (hpiece : UrlPiece.param identifier type ∈ f.call.url) :
    ∃ argument ∈ f.arguments, argument.name = identifier ∧ argument.type = type ∧
      ∃ slotType, (argument.wireName, slotType) ∈ a.url.slots := by
  obtain ⟨part, hpart, hmake⟩ := exists_left_of_forall₂ h.url hpiece
  cases part with
  | text s => cases hmake
  | base default => cases hmake
  | slot wireName slotType =>
      obtain ⟨argument, hfind, heq⟩ := piece_slot_eq_ok_iff.mp hmake
      cases heq
      have hwire : argument.wireName = wireName := by
        have hfound := List.find?_some hfind
        exact of_decide_eq_true hfound
      refine ⟨argument, List.mem_of_find?_eq_some hfind, rfl, rfl, slotType, ?_⟩
      rw [hwire]
      exact List.mem_filterMap.mpr ⟨_, hpart, rfl⟩

/-- An argument that fills a slot of the template is substituted in the URL. -/
theorem BuildsMethod.param_mem_of_slot (h : BuildsMethod style depth a f)
    (hnodup : (f.arguments.map Argument.wireName).Nodup) {argument : Argument}
    (hargument : argument ∈ f.arguments) {slotType : Primitive}
    (hslot : (argument.wireName, slotType) ∈ a.url.slots) :
    UrlPiece.param argument.name argument.type ∈ f.call.url := by
  obtain ⟨part, hpart, hsome⟩ := List.mem_filterMap.mp hslot
  cases part with
  | text s => cases hsome
  | base default => cases hsome
  | slot wireName type =>
      cases hsome
      obtain ⟨p, hp, hmake⟩ := exists_right_of_forall₂ h.url hpart
      obtain ⟨found, hfind, rfl⟩ := piece_slot_eq_ok_iff.mp hmake
      rw [find?_eq_some_of_nodup hnodup hargument] at hfind
      cases hfind
      exact hp

/-- The arguments that fill slots are those from the path. -/
theorem BuildsMethod.exists_slot_iff (h : BuildsMethod style depth a f)
    (hbinds : BindsAction enclosing name path entries a) {argument : Argument}
    (hargument : argument ∈ f.arguments) :
    (∃ type, (argument.wireName, type) ∈ a.url.slots) ↔ argument.origin = .path := by
  have hmem := h.parameter_mem hargument
  constructor
  · rintro ⟨type, hslot⟩
    have hpath : pathParameter (argument.wireName, type) ∈ a.parameters := by
      rw [Action.parameters, List.append_assoc, collectPathParams_eq hbinds.pathParams]
      exact List.mem_append_left _ (List.mem_map_of_mem (List.mem_eraseDups.mpr hslot))
    -- the parameter of the slot has the same name, so it is the same parameter
    have heq : argument.parameter = pathParameter (argument.wireName, type) :=
      List.inj_on_of_nodup_map hbinds.nodup_names hmem hpath rfl
    exact congrArg Parameter.origin heq
  · intro horigin
    obtain ⟨⟨wireName, type⟩, hslot, heq⟩ := hbinds.exists_slot hmem horigin
    obtain rfl : argument.wireName = wireName := congrArg Parameter.name heq
    exact ⟨type, hslot⟩

/-- An argument is substituted in the URL exactly if it comes from the path. -/
theorem BuildsMethod.param_mem_iff (h : BuildsMethod style depth a f)
    (hbinds : BindsAction enclosing name path entries a) {argument : Argument}
    (hargument : argument ∈ f.arguments) :
    (∃ type, UrlPiece.param argument.name type ∈ f.call.url) ↔ argument.origin = .path := by
  rw [← h.exists_slot_iff hbinds hargument]
  constructor
  · rintro ⟨type, hpiece⟩
    obtain ⟨other, hother, hname, -, hslot⟩ := h.exists_slot_of_param hpiece
    obtain rfl : other = argument :=
      List.inj_on_of_nodup_map h.nodup_arguments hother hargument hname
    exact hslot
  · rintro ⟨type, hslot⟩
    exact ⟨_, h.param_mem_of_slot (h.nodup_wireNames hbinds) hargument hslot⟩

/-- A method that is built from a bound action sends every parameter where it belongs. -/
theorem BuildsMethod.routed (h : BuildsMethod style depth a f)
    (hbinds : BindsAction enclosing name path entries a) :
    f.Routed a.url.slots (Value.field "$params" entries) (Value.field "$data" entries) where
  arguments := by
    refine ⟨a.queryParams, a.bodyParams, ?_, forall₂_declares_of_readParams hbinds.queryParams,
      forall₂_declares_of_readParams hbinds.bodyParams, ?_, ?_⟩
    · rw [h.arguments_eq, map_parameter_argumentOf, Action.parameters,
        collectPathParams_eq hbinds.pathParams]
    · rw [h.query_eq, h.arguments_eq, map_parameter_filter, hbinds.filter_origin]
    · rw [h.body_eq, h.arguments_eq, map_parameter_filter, hbinds.filter_origin]
  nodup := h.nodup_wireNames hbinds
  default_path := by
    intro argument hargument horigin
    obtain ⟨slot, -, heq⟩ := hbinds.exists_slot (h.parameter_mem hargument) horigin
    exact congrArg Parameter.default heq
  url := by
    intro identifier type hpiece
    obtain ⟨argument, hargument, hname, htype, hslot⟩ := h.exists_slot_of_param hpiece
    exact ⟨argument, hargument, (h.exists_slot_iff hbinds hargument).mp hslot, hname, htype⟩
  query := h.query_eq ▸ List.filter_sublist
  body := h.body_eq ▸ List.filter_sublist
  sends := by
    intro argument hargument origin
    cases origin with
    | path => rw [Method.Sends, h.param_mem_iff hbinds hargument, eq_comm]
    | query => simp [Method.Sends, h.query_eq, hargument, eq_comm]
    | body => simp [Method.Sends, h.body_eq, hargument, eq_comm]

end Method

end Assembly

open Schema Assembly in
/-- Every method stands for an action of the document, in the class of the set around it, and sends
the parameters of that action: each one once, and where it belongs. -/
theorem exists_routed_of_method {root : Entries} {asked : Option String} {client : Client}
    {language : Language} {config : Config} {m : Module} {c : ClassDecl} {f : Method}
    (hbind : (bindDocument (.map root) asked).result = .ok client)
    (hassemble : assemble language config client = .ok m) (hc : c ∈ m.classes)
    (hf : f ∈ c.methods) :
    ∃ keys urls node slots, ReachesAction root keys f.wireName urls node ∧
      c.path = KeyPath.dotted keys ∧ Reading.ofSlots.direct urls = some slots ∧
      f.Routed slots (Value.field "$params" (actionEntries node))
        (Value.field "$data" (actionEntries node)) := by
  obtain ⟨_, _, heq, hclient⟩ := bindDocument_eq_ok_iff.mp hbind
  cases heq
  have hm := assemble_eq_ok_iff.mp hassemble
  obtain ⟨⟨names, set⟩, hvisit, hclass⟩ := exists_left_of_forall₂ hm.classes hc
  obtain ⟨a, ha, hmethod⟩ := exists_left_of_forall₂ hclass.methods hf
  obtain ⟨keys, urls, _, _, _, _, hreach, hset, -, -⟩ := exists_reaches_of_visit hclient hvisit
  obtain ⟨key, node, hentry, hkey, -, hbinds⟩ :=
    exists_mem_of_action hset.nested (hset.actions_eq ▸ ha)
  refine ⟨keys, actionUrl (actionEntries node) :: urls, node, a.url.slots, ?_, ?_, ?_,
    hmethod.routed hbinds⟩
  · rw [hmethod.wireName_eq, hbinds.name_eq]
    exact ReachesAction.mk hreach hentry hkey
  · rw [hclass.path_eq, hset.path_eq]
  · rw [hset.direct_eq hbinds, Reading.ofSlots_template]

/-- An action with a placeholder twice, once from the set around it, and with `$params` and
`$data`. -/
def busyEntries : Schema.Entries :=
  [(.str "~shop", .map
     [(.str "$url", .str "$\x7b!super\x7d/<class>"),
      (.str "put", .map
        [(.str "$url", .str "$\x7b!super\x7d/<id:number>/<class>"),
         (.str "$data", .map [(.str "Page", .str "boolean")]),
         (.str "$params", .map
           [(.str "page-size", .str "number|default:20"), (.str "q", .null)])])])]

open Schema Assembly in
theorem exists_routed_of_method_busy : ∃ client m c f,
    (bindDocument (.map busyEntries) none).result = .ok client ∧
      assemble .python {} client = .ok m ∧ c ∈ m.classes ∧ f ∈ c.methods ∧
      f.arguments.map Argument.name = ["class_", "id", "page_size", "q", "page"] ∧
      ∃ keys urls node slots, ReachesAction busyEntries keys f.wireName urls node ∧
        c.path = KeyPath.dotted keys ∧ Reading.ofSlots.direct urls = some slots ∧
        f.Routed slots (Value.field "$params" (actionEntries node))
          (Value.field "$data" (actionEntries node)) := by
  obtain ⟨client, hbind, hclient⟩ := exists_eq_ok_of_any
    (x := (bindDocument (.map busyEntries) none).result)
    (p := fun client => (assemble .python {} client).toOption.any fun m =>
      m.classes.any fun c => c.methods.any fun f =>
        f.arguments.map Argument.name = ["class_", "id", "page_size", "q", "page"])
    (by decide +kernel)
  obtain ⟨m, hassemble, hm⟩ := exists_eq_ok_of_any hclient
  obtain ⟨c, hc, hclass⟩ := List.any_eq_true.mp hm
  obtain ⟨f, hf, hnames⟩ := List.any_eq_true.mp hclass
  exact ⟨client, m, c, f, hbind, hassemble, hc, hf, of_decide_eq_true hnames,
    exists_routed_of_method hbind hassemble hc hf⟩

end ClientForge
