import PromptTemplate.Host.Standard
import PromptTemplate.Proofs.Walk.Splice

/-!
# References are spliced in place

A document with a reference between its nodes compiles exactly if the nodes
in front of it, the referenced document and the nodes after it do, each on
its own (`Document.compile_splice`). Messages and questions to the host come
in the order of the text. The referenced document gets a copy of the visible
bindings, so what it assigns is gone with it, and its opening section is
dropped.
-/

namespace PromptTemplate

open Walk

/-- The value of the attribute is an expression with an assignment or an
update in it. -/
def AttributeValue.writes : AttributeValue → Bool
  | .flag | .literal _ => false
  | .expression e => e.writes

theorem attributeValue_scopes (site : Site γ) (scope : ScopeId) (value : AttributeValue)
    (hvalue : value.writes = false) (s : WalkState) :
    (attributeValue site scope value s).2.store.scopes = s.store.scopes := by
  cases value with
  | flag | literal text => rfl
  | expression e => exact eval_scopes _ e hvalue s.store

theorem extraBindings_scopes (site : Site γ) (scope : ScopeId) (attributes : List Attribute)
    (h : ∀ a ∈ attributes, a.value.writes = false) (s : WalkState) :
    (extraBindings site scope attributes s).2.store.scopes = s.store.scopes := by
  induction attributes generalizing s with
  | nil => rfl
  | cons first rest ih =>
    have ih := ih fun a ha => h a (List.mem_cons_of_mem _ ha)
    have hfirst := attributeValue_scopes site scope first.value (h first List.mem_cons_self)
    obtain ⟨name, span, value⟩ := first
    unfold extraBindings
    split
    · exact ih s
    · refine Action.relates_bind (R := fun s t : WalkState => t.store.scopes = s.store.scopes)
        (fun h h' => h'.trans h) (hfirst s) fun _ t _ => ?_
      exact Action.relates_bind (R := fun s t : WalkState => t.store.scopes = s.store.scopes)
        (fun h h' => h'.trans h) (ih t) fun _ _ _ => rfl

theorem extraBindings_extends {site : Site γ} {scope : ScopeId} {attributes : List Attribute}
    {s t : WalkState} {extra : Dict Value}
    (h : extraBindings site scope attributes s = (.ok extra, t)) :
    s.store.history <+: t.store.history := by
  have hcalls := ((StepClosed.calls site scope).extraBindings attributes s).isPrefix
  rwa [h] at hcalls

/-- A reference whose attributes write nothing leaves the scopes alone. -/
theorem openReference_outermost_ok {site : Site γ} {tag : Tag} {prompt : String}
    (hprompt : (tag.attribute? "prompt").map Attribute.value = some (.literal prompt))
    (hpure : ∀ a ∈ tag.attributes, a.value.writes = false) {scopes : ScopeTree}
    {history : History} {referral : Referral γ} {opened : Store} :
    openReference site .outermost ScopeTree.root tag true ⟨⟨scopes, history⟩, .empty⟩ =
        (.ok referral, ⟨opened, .empty⟩) ↔
      ∃ answer extra asked, site.host.resolve? = some answer ∧
        site.enter prompt = .ok referral.entered ∧
        extraBindings site ScopeTree.root tag.attributes ⟨⟨scopes, history⟩, .empty⟩ =
          (.ok extra, ⟨⟨scopes, history ++ asked⟩, .empty⟩) ∧
        answer (history ++ asked) prompt = .ok referral.source ∧
        Dict.putAll (scopes.snapshot ScopeTree.root) extra = referral.bindings ∧
        ⟨scopes, history ++ asked ++ [.resolve prompt]⟩ = opened := by
  rw [openReference_ok, hprompt]
  constructor
  · rintro ⟨-, -, name, answer, extra, ⟨⟨scopes', history'⟩, b⟩, hname, hanswer, henter, hextra,
      hsource, hbindings, hopened⟩
    obtain rfl : prompt = name := by simpa using hname
    have hscopes := extraBindings_scopes site ScopeTree.root tag.attributes hpure
      ⟨⟨scopes, history⟩, .empty⟩
    have hbuilder := ((ReadClosed.builder site ScopeTree.root).extraBindings
      tag.attributes).builder_eq hextra
    rw [hextra] at hscopes
    obtain ⟨asked, hasked⟩ := extraBindings_extends hextra
    simp only at hscopes hbuilder hasked
    subst hscopes hbuilder hasked
    simp only [WalkState.mk.injEq] at hopened
    exact ⟨answer, extra, asked, hanswer, henter, hextra, hsource, hbindings, hopened.1⟩
  · rintro ⟨answer, extra, asked, hanswer, henter, hextra, hsource, hbindings, rfl⟩
    exact ⟨rfl, rfl, prompt, answer, extra, _, rfl, hanswer, henter, hextra, hsource, hbindings,
      rfl⟩

/-- How a document compiles around a reference. What is asked of the host is
told apart by who asks: the nodes in front, the attributes of the reference,
the referenced document, and the nodes after it. -/
theorem Document.compile_splice {host : Host} {depth : Nat} {prompts : List String}
    {source : String} {document : Document} {config : Dict Json} {before after : List Node}
    {tag : Tag} {children : List Node} {prompt : String} {bindings : Dict Value}
    {history final : History} {conversation : Conversation}
    (hsplit : document.split = (config, before ++ .tag tag children :: after))
    (hkind : tag.kind = .reference)
    (hprompt : (tag.attribute? "prompt").map Attribute.value = some (.literal prompt))
    (hblank : children.all Node.isBlankText = true)
    (hpure : ∀ a ∈ tag.attributes, a.value.writes = false) :
    let site := Site.within host depth prompts source
    document.compile site bindings history = (.ok conversation, final) ↔
      ∃ (first last : List Message) (spliced : Conversation) (scopes left : ScopeTree)
        (extra : Dict Value) (answer : History → String → Except HostError String) (text : String)
        (asked₁ asked₂ asked₃ asked₄ : History),
        compileNodes site before ⟨.ofBindings bindings, history⟩ =
          (.ok first, ⟨scopes, history ++ asked₁⟩) ∧
        extraBindings site ScopeTree.root tag.attributes ⟨⟨scopes, history ++ asked₁⟩, .empty⟩ =
          (.ok extra, ⟨⟨scopes, history ++ asked₁ ++ asked₂⟩, .empty⟩) ∧
        prompt ∉ prompts ∧ prompts.length < depth ∧
        host.resolve? = some answer ∧ answer (history ++ asked₁ ++ asked₂) prompt = .ok text ∧
        compileWithin host depth (prompts ++ [prompt]) text
            (Dict.putAll (scopes.snapshot ScopeTree.root) extra)
            (history ++ asked₁ ++ asked₂ ++ [.resolve prompt]) =
          (.ok spliced, history ++ asked₁ ++ asked₂ ++ [.resolve prompt] ++ asked₃) ∧
        compileNodes site after
            ⟨scopes, history ++ asked₁ ++ asked₂ ++ [.resolve prompt] ++ asked₃⟩ =
          (.ok last, ⟨left, final⟩) ∧
        final = history ++ asked₁ ++ asked₂ ++ [.resolve prompt] ++ asked₃ ++ asked₄ ∧
        conversation = ⟨config, first ++ spliced.messages ++ last⟩ := by
  intro site
  have hsound : ∀ prompt compile, site.enter prompt = .ok compile → compile.Sound :=
    enterPrompt_induction (fun _ => compileDocument_sound) _ _
  have hextends : ∀ prompt compile, site.enter prompt = .ok compile → compile.Extends :=
    enterPrompt_history host _ _
  simp only [Document.compile_ok, hsplit, compileNodes_reference_ok hsound hkind, hblank]
  constructor
  · rintro ⟨left, ⟨first, ⟨scopes, _⟩, referral, opened, spliced, _, last, hbefore, hopen,
      hcompile, hafter, hmessages⟩, hconfig, rfl⟩
    obtain ⟨answer, extra, asked₂, hanswer, henter, hextra, htext, hbindings, rfl⟩ :=
      (openReference_outermost_ok hprompt hpure).mp hopen
    obtain ⟨hfresh, hroom, hentered⟩ := enter_ok.mp henter
    -- Each part only adds to the history, and what it adds is named here.
    have h₁ := compileNodes_history hextends before ⟨.ofBindings bindings, history⟩
    rw [hbefore] at h₁
    obtain ⟨asked₁, rfl⟩ := h₁
    have h₃ := hextends prompt _ henter referral.source referral.bindings
      (history ++ asked₁ ++ asked₂ ++ [.resolve prompt])
    rw [hcompile] at h₃
    obtain ⟨asked₃, rfl⟩ := h₃
    have h₄ := compileNodes_history hextends after
      ⟨scopes, history ++ asked₁ ++ asked₂ ++ [.resolve prompt] ++ asked₃⟩
    rw [hafter] at h₄
    obtain ⟨asked₄, hfinal⟩ := h₄
    obtain ⟨_, _⟩ := conversation
    subst hconfig hmessages
    rw [← hentered] at hcompile
    rw [← hbindings] at hcompile
    exact ⟨first, last, spliced, scopes, left.scopes, extra, answer, referral.source, asked₁,
      asked₂, asked₃, asked₄, hbefore, hextra, hfresh, hroom, hanswer, htext, hcompile, hafter,
      hfinal.symm, rfl⟩
  · rintro ⟨first, last, spliced, scopes, left, extra, answer, text, asked₁, asked₂, asked₃,
      asked₄, hbefore, hextra, hfresh, hroom, hanswer, htext, hcompile, hafter, hfinal, rfl⟩
    have henter : site.enter prompt = .ok (compileWithin host depth (prompts ++ [prompt])) :=
      enter_ok.mpr ⟨hfresh, hroom, rfl⟩
    have hopen : openReference site .outermost ScopeTree.root tag true
        ⟨⟨scopes, history ++ asked₁⟩, .empty⟩ =
          (.ok ⟨compileWithin host depth (prompts ++ [prompt]), text,
            Dict.putAll (scopes.snapshot ScopeTree.root) extra⟩, ⟨_, .empty⟩) :=
      (openReference_outermost_ok hprompt hpure).mpr
        ⟨answer, extra, asked₂, hanswer, henter, hextra, htext, rfl, rfl⟩
    exact ⟨⟨left, final⟩, ⟨first, _, _, _, spliced, _, last, hbefore, hopen, hcompile, hafter, rfl⟩,
      rfl, rfl⟩

/-- What the referenced document assigns is not seen by the node after it. -/
theorem Document.compile_splice_shadowed :
    let span : Span := ⟨0, 0, 1, 1⟩
    let host := standardHost (some [("aside", .source "\x7bx = \"in\"\x7d<user>\x7bx\x7d</user>")])
    let site := Site.within host 1 [] ""
    let tag : Tag := ⟨span, .reference, "ref", [⟨"prompt", span, .literal "aside"⟩]⟩
    let before := [Node.mustache span (.assignment span .assign (.identifier span "x")
      (.literal span (.string "out")))]
    let after := [Node.mustache span (.identifier span "x")]
    ∃ conversation first spliced last scopes left asked asked' final,
      Document.compile ⟨before ++ .tag tag [] :: after⟩ site [] [] = (.ok conversation, final) ∧
      compileNodes site before ⟨.ofBindings [], []⟩ = (.ok first, ⟨scopes, asked⟩) ∧
      compileNodes site after ⟨scopes, asked'⟩ = (.ok last, ⟨left, final⟩) ∧
      conversation.messages = first ++ spliced ++ last ∧
      conversation.messages.map Message.role = [.user, .system] := by
  intro span host site tag before after
  have hroles : (Document.compile ⟨before ++ .tag tag [] :: after⟩ site [] []).1.toOption.map
      (·.messages.map Message.role) = some [.user, .system] := by
    unfold before after tag site host span
    decide +kernel
  have hsplit : Document.split ⟨before ++ .tag tag [] :: after⟩ =
      ([], before ++ .tag tag [] :: after) := rfl
  have hprompt : (tag.attribute? "prompt").map Attribute.value = some (.literal "aside") := rfl
  have hpure : ∀ a ∈ tag.attributes, a.value.writes = false := by
    simp [tag, AttributeValue.writes]
  cases h : Document.compile ⟨before ++ .tag tag [] :: after⟩ site [] [] with
  | mk result final =>
    rw [h] at hroles
    cases result with
    | error => cases hroles
    | ok conversation =>
      obtain ⟨first, last, spliced, scopes, left, _, _, _, _, _, _, _, hbefore, -, -, -, -, -,
          -, hafter, -, rfl⟩ := (Document.compile_splice hsplit rfl hprompt rfl hpure).mp h
      exact ⟨_, first, spliced.messages, last, scopes, left, _, _, final, rfl, hbefore, hafter,
        rfl, Option.some.inj hroles⟩

end PromptTemplate
