import ClientForge.Proofs.Client.Names
import ClientForge.Proofs.Source.Script
/-!
# Sources of bound clients

The names in the module of a bound client are tame: whatever becomes an identifier has a word or is
an identifier already, and a class name has nothing but identifier characters and perhaps a line
feed.  So the sources of bound clients pass the bracket check (`check_source`).
-/

namespace ClientForge
namespace Source
namespace Script

open Assembly Naming

theorem tame_identifier {style : Style} {name : String} (h : HasIdentifier name) :
    Tame (style.identifier name) :=
  fun _ hc => Or.inl (isIdentifierChar_of_mem_identifier h hc)

theorem tame_className {rootName : String} (h : SchemaName.isClassName rootName = true)
    (names : List String) : Tame (className rootName names) := by
  intro c hc
  rcases mem_or_isWordChar_of_mem_className hc with hc | hc
  · exact SchemaName.isIdentifierChar_or_eq_of_isClassName h hc
  · exact Or.inl (Text.isIdentifierChar_of_isWordChar hc)

theorem tameMethod_of_named {f : Method} (h : NamedMethod Tame f) : TameMethod f := by
  refine ⟨h.name, h.arguments, fun p hp => ?_, h.query, h.body⟩
  cases p with
  | text s => trivial
  | param name type => exact h.url name type hp
  | base hops => trivial

theorem tameMethod_of_buildsMethod {style : Style} {depth : Nat} {a : Action} {f : Method}
    (h : BuildsMethod style depth a f) (hname : HasIdentifier a.name)
    (hparameters : ∀ p ∈ a.parameters, HasIdentifier p.name) : TameMethod f :=
  tameMethod_of_named
    (namedMethod_of_buildsMethod (fun _ => tame_identifier) h hname hparameters)

theorem tameClass_of_named {c : ClassDecl} (h : NamedClass Tame c) : TameClass c :=
  ⟨h.name, h.arguments, h.parent, h.accessors, fun f hf => tameMethod_of_named (h.methods f hf)⟩

/-- The source of a bound client passes the bracket check in both dialects. -/
theorem check_source {asked : Option String} {root : Schema.Entries}
    {members : List Schema.Member} {client : Client} {language : Language} {config : Config}
    {m : Module} {dialect : Dialect} {code : String}
    (hclient : Schema.BindsClient asked root members client)
    (hm : Assembles language config client m) (hcomment : '\n' ∉ m.comment.toList)
    (hcode : source dialect m = .ok code) : Check.Brackets.check code = .ok () := by
  have hroot := (Schema.readClassName_eq_ok_iff.mp hclient.className).2
  have htame : ∀ c ∈ m.classes, TameClass c := fun c hc =>
    tameClass_of_named (namedClass_of_assembles hclient hm (fun _ => tame_identifier)
      (tame_className hroot) (by decide) c hc)
  have hne : m.classes ≠ [] := by
    obtain ⟨c, hc, -⟩ := exists_right_of_forall₂ hm.classes (ApiSet.mem_visits_self [] client.root)
    exact List.ne_nil_of_mem hc
  exact Check.Brackets.check_eq_ok (class_isInfix_source hne hcode)
    (turns_source htame hcomment hcode)

end Script
end Source
end ClientForge
