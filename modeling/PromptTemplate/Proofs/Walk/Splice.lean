import PromptTemplate.Proofs.Conversation.Builder
import PromptTemplate.Proofs.Conversation.WellFormed
import PromptTemplate.Proofs.Walk.History

/-!
# References between nodes

The messages of a reference that stands between nodes are put between
theirs. Nothing else of the referenced document is seen by the nodes after
it: they start from the scopes that the nodes in front left.
-/

namespace PromptTemplate

open Walk

-- ---------------------------------------------------------------------------
-- Walking behind finished messages
-- ---------------------------------------------------------------------------

/-- The state with finished messages in front of the builder's own. -/
def WalkState.behind (earlier : List Message) (s : WalkState) : WalkState :=
  { s with builder := s.builder.behind earlier }

/-- Does the same behind finished messages. -/
def IgnoresEarlier (earlier : List Message) (m : Walk α) : Prop :=
  ∀ s : WalkState, m (s.behind earlier) = ((m s).1, (m s).2.behind earlier)

variable {earlier : List Message}

theorem IgnoresEarlier.bind {m : Walk α} {f : α → Walk β} (hm : IgnoresEarlier earlier m)
    (hf : ∀ a, IgnoresEarlier earlier (f a)) : IgnoresEarlier earlier (m >>= f) :=
  Action.bind_commutes hm hf

theorem IgnoresEarlier.build {change : Builder → Builder} (h : Builder.Change change) :
    IgnoresEarlier earlier (build change) := by
  intro s
  rw [run_build, run_build]
  suffices hb : change (s.builder.behind earlier) = (change s.builder).behind earlier by
    simp only [WalkState.behind, hb]
  cases h with
  | pushText => rfl
  | flushText => exact Builder.flushText_behind
  | pushBlock block => exact Builder.pushBlock_behind block
  | beginMessage role toolId => exact Builder.beginMessage_behind role toolId
  | endMessage => exact Builder.endMessage_behind
  | extend messages => exact Builder.extend_behind messages

theorem IgnoresBuilder.ignoresEarlier {m : Walk α} (hm : IgnoresBuilder m) :
    IgnoresEarlier earlier m := by
  intro s
  have hbuilder := hm.builder_run s
  simp only [WalkState.behind]
  rw [hm s, hbuilder]

theorem StepClosed.ignoresEarlier (site : Site γ) (scope : ScopeId) (earlier : List Message) :
    StepClosed site scope fun m => IgnoresEarlier earlier m where
  pure _ _ := rfl
  bind := IgnoresEarlier.bind
  fail _ _ _ := rfl
  evaluate _ _ := rfl
  build := .build
  takeText _ := rfl

theorem declare_ignoresEarlier (scope : ScopeId) (ident : Ident) (value : Value) :
    IgnoresEarlier earlier (declare scope ident value) :=
  (declare_ignoresBuilder scope ident value).ignoresEarlier

theorem inFrame_ignoresEarlier (parent : ScopeId) (body : ScopeId → Walk Unit)
    (hbody : ∀ scope, IgnoresEarlier earlier (body scope)) :
    IgnoresEarlier earlier (inFrame parent body) := by
  intro s
  have h := hbody (s.store.scopes.enter parent).1
    { s with store := { s.store with scopes := (s.store.scopes.enter parent).2 } }
  rw [run_inFrame, run_inFrame]
  dsimp only [WalkState.behind] at h ⊢
  rw [h]

theorem walkReference_ignoresEarlier (site : Site Compiler) (p : Placement) (scope : ScopeId)
    (tag : Tag) (isBlank : Bool) :
    IgnoresEarlier earlier (walkReference site p scope tag isBlank) := by
  have hS := StepClosed.ignoresEarlier site scope earlier
  unfold walkReference
  refine .bind (openReference_ignoresBuilder site p scope tag isBlank).ignoresEarlier ?_
  refine fun referral => .bind (fun s => rfl) fun result => ?_
  cases result with
  | ok conversation => exact .build (.extend _)
  | error error => exact hS.fail _ _

theorem walkAll_ignoresEarlier (site : Site Compiler) (p : Placement) (scope : ScopeId)
    (nodes : List Node) : IgnoresEarlier earlier (walkAll site p scope nodes) :=
  walkAll_closed (StepClosed.walkClosed (fun scope => StepClosed.ignoresEarlier site scope earlier)
    declare_ignoresEarlier inFrame_ignoresEarlier (walkReference_ignoresEarlier site)) p scope nodes

theorem walkAll_behind_ok {site : Site Compiler} {p : Placement} {scope : ScopeId}
    {nodes : List Node} {s t : Store} {b c : Builder} {u : Unit} :
    walkAll site p scope nodes ⟨s, b.behind earlier⟩ = (.ok u, ⟨t, c⟩) ↔
      ∃ c', walkAll site p scope nodes ⟨s, b⟩ = (.ok u, ⟨t, c'⟩) ∧ c'.behind earlier = c := by
  have h : IgnoresEarlier earlier (walkAll site p scope nodes) :=
    walkAll_ignoresEarlier site p scope nodes
  have h := h ⟨s, b⟩
  simp only [WalkState.behind] at h
  rw [h]
  generalize walkAll site p scope nodes ⟨s, b⟩ = outcome
  obtain ⟨result, store, builder⟩ := outcome
  cases result with
  | error => simp
  | ok => simp [and_assoc]

-- ---------------------------------------------------------------------------
-- Nodes around a reference
-- ---------------------------------------------------------------------------

/-- No message is open after a walk outside tags. -/
theorem current_of_walkAll {site : Site Compiler}
    (hsite : ∀ prompt compile, site.enter prompt = .ok compile → compile.Sound) {nodes : List Node}
    {s t : Store} {b : Builder}
    (h : walkAll site .outermost ScopeTree.root nodes ⟨s, .empty⟩ = (.ok (), ⟨t, b⟩)) :
    b.current = none := by
  have hfits := walkAll_closed (.keepsFit hsite) .outermost _ nodes _ _ () h .empty
  have hcurrent := hfits.current
  generalize b.current = current at hcurrent
  cases hcurrent
  rfl

theorem openReference_empty_ok {site : Site γ} {p : Placement} {scope : ScopeId} {tag : Tag}
    {isBlank : Bool} {s t : Store} {b c : Builder} {referral : Referral γ} :
    openReference site p scope tag isBlank ⟨s, b⟩ = (.ok referral, ⟨t, c⟩) ↔
      b = c ∧ openReference site p scope tag isBlank ⟨s, .empty⟩ = (.ok referral, ⟨t, .empty⟩) := by
  have hb := openReference_ignoresBuilder site p scope tag isBlank ⟨s, .empty⟩ b
  have hempty := (openReference_ignoresBuilder site p scope tag isBlank).builder_run ⟨s, .empty⟩
  dsimp only at hb hempty
  rw [hb]
  generalize openReference site p scope tag isBlank ⟨s, .empty⟩ = outcome at hempty
  obtain ⟨result, after⟩ := outcome
  obtain ⟨store, builder⟩ := after
  dsimp only at hempty
  subst hempty
  cases result with
  | error => simp
  | ok => simp [and_assoc, and_comm]

theorem compileNodes_reference_ok {site : Site Compiler}
    (hsite : ∀ prompt compile, site.enter prompt = .ok compile → compile.Sound)
    {before after : List Node} {tag : Tag} {children : List Node} (hkind : tag.kind = .reference)
    {s t : Store} {messages : List Message} :
    compileNodes site (before ++ .tag tag children :: after) s = (.ok messages, t) ↔
      ∃ first left referral opened spliced history last,
        compileNodes site before s = (.ok first, left) ∧
        openReference site .outermost ScopeTree.root tag (children.all Node.isBlankText)
          ⟨left, .empty⟩ = (.ok referral, ⟨opened, .empty⟩) ∧
        referral.entered referral.source referral.bindings opened.history =
          (.ok spliced, history) ∧
        compileNodes site after { opened with history } = (.ok last, t) ∧
        first ++ spliced.messages ++ last = messages := by
  simp only [compileNodes_ok, walkAll_append, walkAll, walk, hkind, Action.bind_ok,
    walkReference_ok]
  constructor
  · rintro ⟨b, ⟨_, ⟨left, b₁⟩, hbefore, _, _, ⟨referral, ⟨opened, c⟩, spliced, history, hopen,
      hcompile, rfl⟩, hafter⟩, rfl⟩
    obtain ⟨rfl, hopened⟩ := openReference_empty_ok.mp hopen
    dsimp only at hafter
    -- As no message is open, those of the reference are just put behind the
    -- finished ones, and the walk goes on as from the start behind them.
    rw [Builder.extend_of_current (current_of_walkAll hsite hbefore)] at hafter
    obtain ⟨b₂, hlast, rfl⟩ := walkAll_behind_ok.mp hafter
    refine ⟨b₁.finish, left, referral, opened, spliced, history, b₂.finish,
      ⟨b₁, hbefore, rfl⟩, hopened, hcompile, ⟨b₂, hlast, rfl⟩, ?_⟩
    rw [Builder.finish_behind]
  · rintro ⟨first, left, referral, opened, spliced, history, last, ⟨b₁, hbefore, rfl⟩, hopen,
      hcompile, ⟨b₂, hafter, rfl⟩, rfl⟩
    refine ⟨b₂.behind (b₁.finish ++ spliced.messages), ⟨(), ⟨left, b₁⟩, hbefore, (), _,
      ⟨referral, ⟨opened, b₁⟩, spliced, history, ?_, hcompile, rfl⟩, ?_⟩, ?_⟩
    · exact openReference_empty_ok.mpr ⟨rfl, hopen⟩
    · dsimp only
      rw [Builder.extend_of_current (current_of_walkAll hsite hbefore)]
      exact walkAll_behind_ok.mpr ⟨b₂, hafter, rfl⟩
    · rw [Builder.finish_behind]

end PromptTemplate
