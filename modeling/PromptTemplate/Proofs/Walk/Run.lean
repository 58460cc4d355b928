import PromptTemplate.Compile
import PromptTemplate.Proofs.Action

/-!
# Running walks

What the operations of a walk do to its state, and when they succeed.
-/

namespace PromptTemplate.Walk

@[simp] theorem run_fail (cause : Cause) (span : Span) (s : WalkState) :
    (fail cause span : Walk α) s = (.error ⟨cause, span⟩, s) := rfl

@[simp] theorem run_build (change : Builder → Builder) (s : WalkState) :
    build change s = (.ok (), { s with builder := change s.builder }) := rfl

@[simp] theorem run_takeText (s : WalkState) :
    takeText s = (.ok s.builder.text, { s with builder := { s.builder with text := "" } }) := rfl

@[simp] theorem run_changeScopes (change : ScopeTree → ScopeTree) (s : WalkState) :
    changeScopes change s =
      (.ok (), { s with store := { s.store with scopes := change s.store.scopes } }) := rfl

@[simp] theorem located_of_ok (span : Span) (a : α) : located span (.ok a) = pure a := rfl

@[simp] theorem located_of_error (span : Span) (cause : Cause) :
    (located span (.error cause) : Walk α) = fail cause span := rfl

theorem located_ok {span : Span} {x : Except Cause α} {s t : WalkState} {a : α} :
    located span x s = (.ok a, t) ↔ x = .ok a ∧ s = t := by
  cases x with
  | ok b =>
    rw [located, Action.pure_ok]
    simp
  | error cause => simp [located]

theorem build_ok {change : Builder → Builder} {s t : WalkState} {u : Unit} :
    build change s = (.ok u, t) ↔ { s with builder := change s.builder } = t := by
  simp

theorem takeText_ok {s t : WalkState} {text : String} :
    takeText s = (.ok text, t) ↔
      s.builder.text = text ∧ { s with builder := { s.builder with text := "" } } = t := by
  simp

theorem fail_ok {cause : Cause} {span : Span} {s t : WalkState} {a : α} :
    fail cause span s = (.ok a, t) ↔ False := by
  simp

theorem evaluate_ok {site : Site γ} {scope : ScopeId} {e : Expr} {s t : WalkState} {value : Value} :
    evaluate site scope e s = (.ok value, t) ↔
      ∃ store, eval ⟨site.source, site.host, scope⟩ e s.store = (.ok value, store) ∧
        { s with store } = t := by
  unfold evaluate
  cases eval ⟨site.source, site.host, scope⟩ e s.store with
  | mk result store => cases result <;> simp [and_assoc]

theorem run_inFrame (parent : ScopeId) (body : ScopeId → Walk Unit) (s : WalkState) :
    inFrame parent body s =
      let entered := s.store.scopes.enter parent
      let after := body entered.1 { s with store := { s.store with scopes := entered.2 } }
      (after.1, { after.2 with store := { after.2.store with
        scopes := after.2.store.scopes.exit entered.1 } }) := rfl

theorem inFrame_ok {parent : ScopeId} {body : ScopeId → Walk Unit} {s t : WalkState} {u : Unit} :
    inFrame parent body s = (.ok u, t) ↔
      ∃ after, body (s.store.scopes.enter parent).1
          { s with store := { s.store with scopes := (s.store.scopes.enter parent).2 } } =
            (.ok u, after) ∧
        { after with store := { after.store with
          scopes := after.store.scopes.exit (s.store.scopes.enter parent).1 } } = t := by
  rw [run_inFrame]
  dsimp only
  generalize body _ _ = outcome
  obtain ⟨result, after⟩ := outcome
  cases result <;> simp

theorem run_compileNested (compile : Compile Conversation) (s : WalkState) :
    compileNested compile s =
      (.ok (compile s.store.history).1,
        { s with store := { s.store with history := (compile s.store.history).2 } }) := rfl

end PromptTemplate.Walk

namespace PromptTemplate

theorem run_declare (scope : ScopeId) (ident : Ident) (value : Value) (s : WalkState) :
    declare scope ident value s =
      match s.store.scopes.declare? scope ident.name value with
      | some scopes => (.ok (), { s with store := { s.store with scopes } })
      | none => (.error ⟨.alreadyDeclared ident.name, ident.span⟩, s) := by
  simp only [declare, Action.run_bind, Action.run_get]
  cases s.store.scopes.declare? scope ident.name value <;> rfl

theorem run_resolve (answer : History → String → Except HostError String) (span : Span)
    (prompt : String) (s : WalkState) :
    resolve answer span prompt s =
      (match answer s.store.history prompt with
        | .ok source => .ok source
        | .error error => .error ⟨.referenceFailed error, span⟩,
      { s with store := { s.store with
        history := s.store.history ++ [Request.resolve prompt] } }) := by
  simp only [resolve, Action.run_bind, Action.run_get, Action.run_set]
  cases answer s.store.history prompt <;> rfl

theorem walkAll_append (site : Site Compiler) (p : Placement) (scope : ScopeId)
    (before after : List Node) :
    walkAll site p scope (before ++ after) =
      (do walkAll site p scope before; walkAll site p scope after) := by
  induction before with
  | nil => simp [walkAll]
  | cons node rest ih => simp [walkAll, ih, bind_assoc]

theorem compileNodes_ok {site : Site Compiler} {nodes : List Node} {s t : Store}
    {messages : List Message} :
    compileNodes site nodes s = (.ok messages, t) ↔
      ∃ b, walkAll site .outermost ScopeTree.root nodes ⟨s, .empty⟩ = (.ok (), ⟨t, b⟩) ∧
        b.finish = messages := by
  simp only [compileNodes]
  cases walkAll site .outermost ScopeTree.root nodes ⟨s, .empty⟩ with
  | mk result after =>
    obtain ⟨store, b⟩ := after
    cases result with
    | error => simp [Except.map]
    | ok => simp [Except.map, and_comm, and_assoc]

theorem Document.compile_ok {document : Document} {site : Site Compiler} {bindings : Dict Value}
    {history after : History} {conversation : Conversation} :
    document.compile site bindings history = (.ok conversation, after) ↔
      ∃ t : Store, compileNodes site document.split.2 ⟨.ofBindings bindings, history⟩ =
          (.ok conversation.messages, t) ∧
        document.split.1 = conversation.config ∧ t.history = after := by
  simp only [Document.compile]
  cases compileNodes site document.split.2 ⟨.ofBindings bindings, history⟩ with
  | mk result t =>
    obtain ⟨config, messages⟩ := conversation
    cases result with
    | error => simp [Except.map]
    | ok => simp [Except.map, and_comm, and_assoc, and_left_comm]

theorem compileDocument_ok {host : Host} {enter : String → Except Cause Compiler}
    {source : String} {bindings : Dict Value} {history after : History}
    {conversation : Conversation} :
    compileDocument host enter source bindings history = (.ok conversation, after) ↔
      ∃ document, parseDocument source = .ok document ∧
        document.compile ⟨source, host, enter⟩ bindings history = (.ok conversation, after) := by
  unfold compileDocument
  cases parseDocument source <;> simp

theorem run_compile (context : Context) (source : String) :
    compile context source =
      match parseDocument source with
      | .error error => (.error error, [])
      | .ok document =>
        document.compile
          ⟨source, context.host, enterPrompt context.host context.depth []⟩
          context.bindings [] := rfl

/-! ## When a reference succeeds

A reference succeeds if it passes its checks, its prompt may be entered, its
attributes have values, and the host knows the prompt; what it then refers
to is fixed by these. -/

open Walk

variable {γ : Type}

theorem promptName_ok {tag : Tag} {s t : WalkState} {prompt : String} :
    promptName tag s = (.ok prompt, t) ↔
      (tag.attribute? "prompt").map Attribute.value = some (.literal prompt) ∧ s = t := by
  unfold promptName
  cases (tag.attribute? "prompt").map Attribute.value with
  | none => simp
  | some value => cases value <;> simp [Action.run_pure]

theorem resolve_ok {answer : History → String → Except HostError String} {span : Span}
    {prompt source : String} {s t : WalkState} :
    resolve answer span prompt s = (.ok source, t) ↔
      answer s.store.history prompt = .ok source ∧
        { s with store := { s.store with
          history := s.store.history ++ [Request.resolve prompt] } } = t := by
  rw [run_resolve]
  cases answer s.store.history prompt <;> simp

theorem openReference_ok {site : Site γ} {p : Placement} {scope : ScopeId} {tag : Tag}
    {isBlank : Bool} {s t : WalkState} {referral : Referral γ} :
    openReference site p scope tag isBlank s = (.ok referral, t) ↔
      p.admitsReference = .ok () ∧ isBlank = true ∧ ∃ prompt answer extra u,
        (tag.attribute? "prompt").map Attribute.value = some (.literal prompt) ∧
        site.host.resolve? = some answer ∧
        site.enter prompt = .ok referral.entered ∧
        extraBindings site scope tag.attributes s = (.ok extra, u) ∧
        answer u.store.history prompt = .ok referral.source ∧
        Dict.putAll (s.store.scopes.snapshot scope) extra = referral.bindings ∧
        { u with store := { u.store with
          history := u.store.history ++ [Request.resolve prompt] } } = t := by
  simp only [openReference, Action.bind_ok, located_ok, promptName_ok]
  constructor
  · rintro ⟨_, _, ⟨hp, rfl⟩, prompt, _, ⟨hprompt, rfl⟩, _, _, ⟨hblank, rfl⟩, h⟩
    cases hanswer : site.host.resolve? with
    | none => simp [hanswer] at h
    | some answer =>
      simp only [hanswer, Action.bind_ok, located_ok, resolve_ok, Action.run_get,
        Outcome.ok_eq_ok, Action.pure_ok] at h
      obtain ⟨entered, _, ⟨henter, rfl⟩, _, _, ⟨rfl, rfl⟩, extra, u, hextra, source, _,
        ⟨hsource, rfl⟩, rfl, rfl⟩ := h
      have hblank : isBlank = true := by cases isBlank <;> simp at hblank ⊢
      exact ⟨hp, hblank, prompt, answer, extra, u, hprompt, rfl, henter, hextra, hsource, rfl, rfl⟩
  · rintro ⟨hp, rfl, prompt, answer, extra, u, hprompt, hanswer, henter, hextra, hsource, hb, rfl⟩
    refine ⟨(), s, ⟨hp, rfl⟩, prompt, s, ⟨hprompt, rfl⟩, (), s, ⟨rfl, rfl⟩, ?_⟩
    simp only [hanswer, Action.bind_ok, located_ok, resolve_ok, Action.run_get,
      Outcome.ok_eq_ok, Action.pure_ok]
    exact ⟨referral.entered, s, ⟨henter, rfl⟩, s, s, ⟨rfl, rfl⟩, extra, u, hextra,
      referral.source, _, ⟨hsource, rfl⟩, by rw [hb], rfl⟩

/-- The messages of the prompt are taken over, and nothing else of it but
what it asked the host. -/
theorem walkReference_ok {site : Site Compiler} {p : Placement} {scope : ScopeId} {tag : Tag}
    {isBlank : Bool} {s t : WalkState} {u : Unit} :
    walkReference site p scope tag isBlank s = (.ok u, t) ↔
      ∃ referral opened conversation history,
        openReference site p scope tag isBlank s = (.ok referral, opened) ∧
        referral.entered referral.source referral.bindings opened.store.history =
          (.ok conversation, history) ∧
        { opened with
          store := { opened.store with history }
          builder := opened.builder.extend conversation.messages } = t := by
  simp only [walkReference, Action.bind_ok, run_compileNested, Outcome.ok_eq_ok]
  constructor
  · rintro ⟨referral, opened, hopen, result, _, ⟨hresult, rfl⟩, h⟩
    subst hresult
    cases hcompile : referral.entered referral.source referral.bindings opened.store.history with
    | mk result history =>
      rw [hcompile] at h
      cases result with
      | error => simp at h
      | ok conversation =>
        exact ⟨referral, opened, conversation, history, hopen, hcompile, by simpa using h⟩
  · rintro ⟨referral, opened, conversation, history, hopen, hcompile, rfl⟩
    refine ⟨referral, opened, hopen, _, _, ⟨rfl, rfl⟩, ?_⟩
    simp [hcompile]

/-- A document that is compiled while `prompts` are being resolved. -/
def Site.within (host : Host) (depth : Nat) (prompts : List String) (source : String) :
    Site Compiler :=
  ⟨source, host, enterPrompt host (depth - prompts.length) prompts⟩

/-- A prompt may be entered if it is not being resolved already and there is
room for one more. -/
theorem enter_ok {host : Host} {depth : Nat} {prompts : List String} {prompt : String}
    {source : String} {compile : Compiler} :
    (Site.within host depth prompts source).enter prompt = .ok compile ↔
      prompt ∉ prompts ∧ prompts.length < depth ∧
        compileWithin host depth (prompts ++ [prompt]) = compile := by
  unfold compileWithin Site.within
  dsimp only
  rw [List.length_append, List.length_singleton, Nat.sub_add_eq]
  cases hroom : depth - prompts.length with
  | zero =>
    have hfull : ¬prompts.length < depth := by omega
    simp [enterPrompt, hfull]
  | succ room =>
    have hfree : prompts.length < depth := by omega
    by_cases hmem : prompt ∈ prompts <;> simp [enterPrompt, hmem, hfree]

end PromptTemplate
