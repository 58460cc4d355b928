import PromptTemplate.Proofs.Dict
import PromptTemplate.Proofs.Splice

/-!
# What a referenced document starts with

The visible bindings are copied before the attributes of a reference are
evaluated. So the document that is referred to does not see what the
attributes assign, and starts with the bindings that are visible when its
text is asked for only if they assign nothing that stays visible
(`openReference_bindings`).
-/

namespace PromptTemplate

open Walk

/-- A referenced document starts with what was visible before the attributes of the reference were
evaluated, overridden by their values. That is what is visible when its text is asked for, `t`
being the state from there on, up to the names that the attributes give a value in between; there
are none if the attributes write nothing. -/
theorem openReference_bindings {host : Host} {depth : Nat} {prompts : List String}
    {source : String} {p : Placement} {scope : ScopeId} {tag : Tag} {isBlank : Bool}
    {s t : WalkState} {referral : Referral Compiler}
    (h : openReference (Site.within host depth prompts source) p scope tag isBlank s =
      (.ok referral, t)) :
    ∃ prompt extra u,
      (tag.attribute? "prompt").map Attribute.value = some (.literal prompt) ∧
      referral.entered = compileWithin host depth (prompts ++ [prompt]) ∧
      extraBindings (Site.within host depth prompts source) scope tag.attributes s =
        (.ok extra, u) ∧
      t.store.scopes = u.store.scopes ∧
      t.store.history = u.store.history ++ [.resolve prompt] ∧
      referral.bindings = Dict.putAll (s.store.scopes.snapshot scope) extra ∧
      ((∀ name, Dict.get? referral.bindings name =
          Dict.get? (Dict.putAll (t.store.scopes.snapshot scope) extra) name) ↔
        ∀ name, name ∉ Dict.keys extra →
          Dict.get? (s.store.scopes.snapshot scope) name =
            Dict.get? (t.store.scopes.snapshot scope) name) ∧
      ((∀ a ∈ tag.attributes, a.value.writes = false) →
        referral.bindings = Dict.putAll (t.store.scopes.snapshot scope) extra) := by
  obtain ⟨-, -, prompt, answer, extra, u, hprompt, -, henter, hextra, -, hbindings, rfl⟩ :=
    openReference_ok.mp h
  obtain ⟨-, -, hentered⟩ := enter_ok.mp henter
  refine ⟨prompt, extra, u, hprompt, hentered.symm, hextra, rfl, rfl, hbindings.symm, ?_, ?_⟩
  · rw [← hbindings]
    exact Dict.get?_putAll_eq_iff ..
  · intro hpure
    have hscopes := extraBindings_scopes (Site.within host depth prompts source) scope
      tag.attributes hpure s
    rw [hextra] at hscopes
    rw [← hbindings, ← hscopes]

/-- A reference whose attribute assigns a visible variable. -/
def assigningReference : Tag :=
  let span : Span := ⟨0, 0, 1, 1⟩
  ⟨span, .reference, "ref", [⟨"prompt", span, .literal "child"⟩,
    ⟨"x", span, .expression (.assignment span .assign (.identifier span "n")
      (.literal span (.string "new")))⟩]⟩

/-- The variable that the attribute assigned is new where the tag stands, and old in the document
that is referred to. -/
theorem openReference_bindings_assigned :
    let site := Site.within (standardHost (some [("child", .source "\x7bn\x7d")])) 1 [] ""
    let s : WalkState := ⟨⟨.ofBindings [("n", .string "old")], []⟩, .empty⟩
    ∃ referral t extra,
      openReference site .outermost ScopeTree.root assigningReference true s = (.ok referral, t) ∧
      referral.bindings = Dict.putAll (s.store.scopes.snapshot ScopeTree.root) extra ∧
      Dict.get? referral.bindings "n" = some (.string "old") ∧
      Dict.get? (t.store.scopes.snapshot ScopeTree.root) "n" = some (.string "new") := by
  intro site s
  have h : openReference site .outermost ScopeTree.root assigningReference true s = _ := rfl
  obtain ⟨_, extra, _, _, _, _, _, _, hbindings, _, _⟩ := openReference_bindings h
  exact ⟨_, _, extra, h, hbindings, rfl, rfl⟩

/-- The document does not start with what is visible when its text is asked for, overridden by the
values of the attributes. -/
theorem openReference_bindings_stale :
    ¬ ∀ (site : Site Compiler) (tag : Tag) (s t u : WalkState) (referral : Referral Compiler)
      (extra : Dict Value),
      openReference site .outermost ScopeTree.root tag true s = (.ok referral, t) →
      extraBindings site ScopeTree.root tag.attributes s = (.ok extra, u) →
      ∀ name, Dict.get? referral.bindings name =
        Dict.get? (Dict.putAll (t.store.scopes.snapshot ScopeTree.root) extra) name := by
  intro h
  have hstale := h (.within (standardHost (some [("child", .source "\x7bn\x7d")])) 1 [] "")
    assigningReference ⟨⟨.ofBindings [("n", .string "old")], []⟩, .empty⟩ _ _ _ _ rfl rfl "n"
  have hnew : some (Value.string "old") = some (.string "new") := hstale
  simp at hnew

end PromptTemplate
