import PromptTemplate.Host.Standard
import PromptTemplate.Proofs.Reference.Routes
import PromptTemplate.Proofs.Walk.Run

/-!
# Compiling plain references

A compile over a library of text and plain references does what its
references make of it (`compileWithin_explains`). It succeeds exactly if the
prompts that can be reached exist, form no cycle and are not nested too deep
(`compile_static`).
-/

namespace PromptTemplate

open Walk Library

variable {library : Library} {host : Host} {depth : Nat} {prompts : List String}

/-- What may be entered, and what is wrong with the rest. -/
theorem enter_cases (hroom : prompts.length ≤ depth) (source prompt : String) :
    (Site.within host depth prompts source).enter prompt =
      if prompt ∈ prompts then .error (.referenceCycle prompt)
      else if depth ≤ prompts.length then .error (.referenceTooDeep depth)
      else .ok (compileWithin host depth (prompts ++ [prompt])) := by
  unfold compileWithin Site.within
  rw [List.length_append, List.length_singleton, Nat.sub_add_eq]
  cases h : depth - prompts.length with
  | zero =>
    have hfull : prompts.length = depth := by omega
    by_cases hmem : prompt ∈ prompts <;> simp [enterPrompt, hmem, hfull]
  | succ room =>
    have hfree : ¬depth ≤ prompts.length := by omega
    by_cases hmem : prompt ∈ prompts <;> simp [enterPrompt, hmem, hfree]

theorem Node.mention?_eq_some {node : Node} {m : Mention} (h : node.mention? = some m) :
    ∃ name span, node = .tag ⟨m.span, .reference, name, [⟨"prompt", span, .literal m.prompt⟩]⟩ [] := by
  unfold mention? at h
  split at h
  · split at h
    · rename_i hname
      cases h
      exact ⟨_, _, by rw [hname]⟩
    · cases h
  · cases h

/-- Opening a reference that has a prompt and no bindings of its own. -/
theorem openReference_plain {site : Site γ} {answer : History → String → Except HostError String}
    {tag : Tag} {span : Span} {prompt : String}
    (hattributes : tag.attributes = [⟨"prompt", span, .literal prompt⟩])
    (hanswer : site.host.resolve? = some answer) (scope : ScopeId) (s : WalkState) :
    openReference site .outermost scope tag true s =
      match site.enter prompt with
      | .error cause => (.error ⟨cause, tag.span⟩, s)
      | .ok entered =>
        let asked := { s with store := { s.store with
          history := s.store.history ++ [Request.resolve prompt] } }
        match answer s.store.history prompt with
        | .error error => (.error ⟨.referenceFailed error, tag.span⟩, asked)
        | .ok text => (.ok ⟨entered, text, s.store.scopes.snapshot scope⟩, asked) := by
  have hname : promptName tag = pure prompt := by
    simp [promptName, Tag.attribute?, Attribute.find?, hattributes]
  have hextra : extraBindings site scope tag.attributes = pure [] := by
    simp [hattributes, extraBindings]
  have hplace : Placement.outermost.admitsReference = .ok () := rfl
  simp only [openReference, hname, hextra, hanswer, hplace, if_true, located_of_ok, pure_bind]
  cases site.enter prompt with
  | error cause => rfl
  | ok entered =>
    simp only [located_of_ok, Action.run_bind, Action.run_pure, Action.run_get, run_resolve]
    cases answer s.store.history prompt <;> rfl

section
variable {node : Node} {m : Mention} {nodes : List Node} {cause : Cause}
  (hhost : host.resolve? = some library.answer) (hroom : prompts.length ≤ depth)
include hhost hroom

/-- A plain reference with which something is wrong fails. -/
theorem walk_mention_offence (hm : node.mention? = some m)
    (h : library.offence? depth prompts m.prompt = some cause) (source : String) (scope : ScopeId)
    (s : WalkState) :
    (walk (Site.within host depth prompts source) .outermost scope node s).1 =
      .error ⟨cause, m.span⟩ := by
  obtain ⟨name, span, rfl⟩ := Node.mention?_eq_some hm
  let site := Site.within host depth prompts source
  let tag : Tag := ⟨m.span, .reference, name, [⟨"prompt", span, .literal m.prompt⟩]⟩
  have hopen : openReference site .outermost scope tag true s = _ :=
    openReference_plain rfl hhost scope s
  rw [enter_cases hroom] at hopen
  have hfails : ∃ t, openReference site .outermost scope tag true s = (.error ⟨cause, m.span⟩, t) := by
    rcases offence?_eq_some.mp h with ⟨hmem, rfl⟩ | ⟨hfresh, hfull, rfl⟩ |
      ⟨hfresh, hfree, hmissing, rfl⟩
    · rw [if_pos hmem] at hopen
      exact ⟨_, hopen⟩
    · rw [if_neg hfresh, if_pos hfull] at hopen
      exact ⟨_, hopen⟩
    · have hanswer : library.answer s.store.history m.prompt = .error (library.missing m.prompt) := by
        simp [Library.answer, hmissing]
      rw [if_neg hfresh, if_neg (Nat.not_le_of_lt hfree)] at hopen
      simp only [hanswer] at hopen
      exact ⟨_, hopen⟩
  obtain ⟨t, ht⟩ := hfails
  show (walkReference site .outermost scope tag true s).1 = _
  rw [walkReference, Action.run_bind, ht]

omit hroom in
/-- A plain reference that is fine fails as its prompt does. -/
theorem walk_mention_fine (hm : node.mention? = some m)
    (hfine : library.offence? depth prompts m.prompt = none) (source : String) (scope : ScopeId)
    (s : WalkState) :
    ∃ text bindings history, library.source? m.prompt = some text ∧
      (walk (Site.within host depth prompts source) .outermost scope node s).1 =
        match (compileWithin host depth (prompts ++ [m.prompt]) text bindings history).1 with
        | .ok _ => .ok ()
        | .error error => .error ⟨causeOfReference error, m.span⟩ := by
  obtain ⟨name, span, rfl⟩ := Node.mention?_eq_some hm
  obtain ⟨hfresh, hfree, hsource⟩ := offence?_eq_none.mp hfine
  obtain ⟨text, htext⟩ := Option.isSome_iff_exists.mp hsource
  have henter : (Site.within host depth prompts source).enter m.prompt =
      .ok (compileWithin host depth (prompts ++ [m.prompt])) :=
    enter_ok.mpr ⟨hfresh, hfree, rfl⟩
  have hanswer : library.answer s.store.history m.prompt = .ok text := by
    simp [Library.answer, htext]
  let site := Site.within host depth prompts source
  let tag : Tag := ⟨m.span, .reference, name, [⟨"prompt", span, .literal m.prompt⟩]⟩
  have hopen : openReference site .outermost scope tag true s = _ :=
    openReference_plain rfl hhost scope s
  rw [henter] at hopen
  simp only [hanswer] at hopen
  refine ⟨text, s.store.scopes.snapshot scope, s.store.history ++ [.resolve m.prompt], htext, ?_⟩
  show (walkReference site .outermost scope tag true s).1 = _
  rw [walkReference, Action.run_bind, hopen]
  dsimp only
  rw [Action.run_bind, run_compileNested]
  dsimp only
  cases (compileWithin host depth (prompts ++ [m.prompt]) text (s.store.scopes.snapshot scope)
    (s.store.history ++ [.resolve m.prompt])).1 <;> rfl

/-- Nodes do what their references do, if the prompts do. -/
theorem walkAll_explains
    (hnested : ∀ prompt text bindings history, prompts.length < depth →
      library.source? prompt = some text →
      library.Explains depth (prompts ++ [prompt]) (library.mentions prompt)
        (compileWithin host depth (prompts ++ [prompt]) text bindings history).1)
    (hnodes : ∀ node ∈ nodes, node.isText ∨ node.mention?.isSome) (source : String)
    (scope : ScopeId) (s : WalkState) :
    library.Explains depth prompts (nodes.filterMap Node.mention?)
      (walkAll (Site.within host depth prompts source) .outermost scope nodes s).1 := by
  induction nodes generalizing s with
  | nil => exact explains_nil ()
  | cons node rest ih =>
    have ih := ih fun node h => hnodes node (List.mem_cons_of_mem _ h)
    rw [walkAll, Action.run_bind]
    cases hm : node.mention? with
    | none =>
      have htext : node.isText := by simpa [hm] using hnodes node List.mem_cons_self
      cases node with
      | text span value => exact ih _
      | _ => cases htext
    | some m =>
      rw [List.filterMap_cons_some hm]
      cases hwalk : walk (Site.within host depth prompts source) .outermost scope node s with
      | mk result t =>
      cases hoffence : library.offence? depth prompts m.prompt with
      | some cause =>
        have hresult := walk_mention_offence hhost hroom hm hoffence source scope s
        rw [hwalk] at hresult
        subst hresult
        exact explains_offence hoffence
      | none =>
        obtain ⟨text, bindings, history, htext, hresult⟩ := walk_mention_fine hhost hm hoffence source scope s
        have hprompt := hnested m.prompt text bindings history (offence?_eq_none.mp hoffence).2.1 htext
        rw [hwalk] at hresult
        cases hcompile : (compileWithin host depth (prompts ++ [m.prompt]) text bindings history).1 with
        | ok conversation =>
          rw [hcompile] at hresult hprompt
          subst hresult
          exact explains_cons hoffence hprompt (ih t)
        | error error =>
          rw [hcompile] at hresult hprompt
          subst hresult
          exact explains_inside hoffence hprompt

end

/-- Such a document has no opening section. -/
theorem Document.split_of_static {document : Document}
    (h : ∀ node ∈ document.nodes, node.isText ∨ node.mention?.isSome) :
    document.split = ([], document.nodes) := by
  unfold split
  split
  · rename_i hnodes
    simp [hnodes, Node.isText, Node.mention?] at h
  · rfl

theorem Library.Explains.map {mentions : List Mention} {result : Except CompileError α}
    (h : library.Explains depth prompts mentions result) (f : α → β) :
    library.Explains depth prompts mentions (result.map f) := by
  cases result <;> exact h

/-- A compile does what the references make of it. -/
theorem compileWithin_explains (hhost : host.resolve? = some library.answer)
    (hlibrary : library.IsStatic) (hroom : prompts.length ≤ depth) {source : String}
    (hsource : IsStatic source) (bindings : Dict Value) (history : History) :
    library.Explains depth prompts (mentionsOf source)
      (compileWithin host depth prompts source bindings history).1 := by
  induction hlevels : depth - prompts.length using Nat.strong_induction_on
    generalizing prompts source bindings history with
  | _ levels ih =>
    subst hlevels
    obtain ⟨document, hparse, hnodes⟩ := hsource
    have hnested : ∀ prompt text bindings history, prompts.length < depth →
        library.source? prompt = some text →
        library.Explains depth (prompts ++ [prompt]) (library.mentions prompt)
          (compileWithin host depth (prompts ++ [prompt]) text bindings history).1 := by
      intro prompt text bindings history hfree htext
      have hlength : (prompts ++ [prompt]).length = prompts.length + 1 := by simp
      have h := ih (depth - (prompts ++ [prompt]).length) (by omega) (by omega)
        (hlibrary prompt text htext) bindings history rfl
      rwa [mentions, htext]
    have hwalk := walkAll_explains hhost hroom hnested hnodes source ScopeTree.root
      ⟨⟨.ofBindings bindings, history⟩, .empty⟩
    simp only [mentionsOf, hparse, compileWithin, compileDocument, Document.compile, compileNodes,
      Document.split_of_static hnodes]
    exact (hwalk.map _).map _

/-- Over a library of text and plain references a compile succeeds exactly if
the prompts that can be reached exist, none of them can be reached from
itself, and no path has more references than may be nested. Otherwise its
error is that of the first reference, in the order of the text, that is wrong
where it stands. -/
theorem compile_static (hhost : host.resolve? = some library.answer) (hlibrary : library.IsStatic)
    {root : String} (hroot : IsStatic root) (depth : Nat) (bindings : Dict Value) :
    let result := (compile ⟨bindings, host, depth⟩ root).1
    ((∃ conversation, result = .ok conversation) ↔
      (∀ q, library.Reachable (mentionsOf root) q → (library.source? q).isSome) ∧
      (∀ q, library.Reachable (mentionsOf root) q → ¬Relation.TransGen library.Refers q q) ∧
      ∀ prompts, library.IsPath (mentionsOf root) prompts → prompts.length ≤ depth) ∧
    ∀ error, result = .error error → ∃ route above last cause,
      library.IsOffence depth [] (mentionsOf root) route above last cause ∧
      (∀ earlier < route, ∀ above last cause,
        ¬library.IsOffence depth [] (mentionsOf root) earlier above last cause) ∧
      error = errorAt cause last above ∧ error.code = cause.code := by
  intro result
  have hexplains : library.Explains depth [] (mentionsOf root) result :=
    compileWithin_explains hhost hlibrary (Nat.zero_le _) hroot bindings []
  rw [← no_offence_iff]
  cases hresult : result with
  | ok conversation =>
    rw [hresult] at hexplains
    exact ⟨iff_of_true ⟨conversation, rfl⟩ hexplains, fun _ h => by cases h⟩
  | error error =>
    rw [hresult] at hexplains
    obtain ⟨route, above, last, cause, hoffence, hfirst, rfl⟩ := hexplains
    refine ⟨iff_of_false (by simp) fun h => h route above last cause hoffence, ?_⟩
    rintro _ ⟨⟩
    exact ⟨route, above, last, cause, hoffence, hfirst, rfl, code_errorAt hoffence.offends last above⟩

/-- A cycle in the second prompt comes before a prompt that does not exist. -/
theorem compile_static_cycle :
    let library : Library := ⟨fun prompt =>
      if prompt = "a" then some "<ref prompt=\"b\"/>"
      else if prompt = "b" then some "text <ref prompt=\"a\"/>" else none,
      fun prompt => ⟨"PromptNotFound", prompt⟩⟩
    let host : Host := { standardHost none with resolve? := some library.answer }
    let root := "<ref prompt=\"b\"/> <ref prompt=\"missing\"/>"
    library.IsStatic ∧ IsStatic root ∧ ∃ error route above last cause,
      (compile ⟨[], host, 2⟩ root).1 = .error error ∧
      library.IsOffence 2 [] (mentionsOf root) route above last cause ∧
      error.code = "reference-cycle" ∧ error.code = cause.code := by
  intro library host root
  have hlibrary : library.IsStatic := by
    intro prompt source hsource
    dsimp only [library] at hsource
    split at hsource
    · cases hsource
      decide +kernel
    · split at hsource
      · cases hsource
        decide +kernel
      · cases hsource
  have hroot : IsStatic root := by decide +kernel
  have hcode : (match (compile ⟨[], host, 2⟩ root).1 with
      | .ok _ => "" | .error error => error.code) = "reference-cycle" := by decide +kernel
  cases h : (compile ⟨[], host, 2⟩ root).1 with
  | ok conversation =>
    rw [h] at hcode
    exact absurd (show "" = "reference-cycle" from hcode) (by decide)
  | error error =>
    rw [h] at hcode
    obtain ⟨route, above, last, cause, hoffence, -, -, hcause⟩ :=
      (compile_static rfl hlibrary hroot 2 []).2 error h
    exact ⟨hlibrary, hroot, error, route, above, last, cause, rfl, hoffence, hcode, hcause⟩

end PromptTemplate
