import PromptTemplate.Proofs.Eval.Effects
import PromptTemplate.Proofs.Walk.Closed
import PromptTemplate.Proofs.Walk.Run

/-!
# What walks ask the host

Every step of a walk but the opening of a reference asks for calls only
(`StepClosed.calls`); a reference asks for one prompt, after it was entered
(`openReference_history`). Nothing is taken back, in referenced documents
neither (`compileWithin_history`).
-/

namespace PromptTemplate

variable {γ : Type}

/-- What calls keep and what is reflexive and transitive, the steps keep. -/
theorem StepClosed.of_history (site : Site γ) (scope : ScopeId) {R : History → History → Prop}
    (hcalls : ∀ {a b}, History.Calls a b → R a b)
    (htrans : ∀ {a b c}, R a b → R b c → R a c) :
    StepClosed site scope fun m => ∀ s : WalkState, R s.store.history (m s).2.store.history where
  pure _ _ := hcalls (.refl _)
  bind hm hf s := Action.relates_bind
    (R := fun s t : WalkState => R s.store.history t.store.history) htrans (hm s)
    fun a t _ => hf a t
  fail _ _ _ := hcalls (.refl _)
  evaluate e s := hcalls (eval_calls _ e s.store)
  build _ _ := hcalls (.refl _)
  takeText _ := hcalls (.refl _)

theorem StepClosed.calls (site : Site γ) (scope : ScopeId) :
    StepClosed site scope fun m => ∀ s : WalkState,
      History.Calls s.store.history (m s).2.store.history :=
  .of_history site scope id .trans

theorem History.Calls.isPrefix (h : History.Calls a b) : a <+: b := by
  obtain ⟨log, -, rfl⟩ := h
  exact List.prefix_append a log

theorem history_declare (scope : ScopeId) (ident : Ident) (value : Value) (s : WalkState) :
    (declare scope ident value s).2.store.history = s.store.history := by
  rw [run_declare]
  split <;> rfl

theorem DeclareClosed.calls (scope : ScopeId) : DeclareClosed scope fun m => ∀ s : WalkState,
    History.Calls s.store.history (m s).2.store.history where
  pure _ _ := .refl _
  bind hm hf s := Action.relates_bind
    (R := fun s t : WalkState => History.Calls s.store.history t.store.history) .trans (hm s)
    fun a t _ => hf a t
  declare ident value s := by
    rw [history_declare]
    exact .refl _

/-- Asks for calls, and after them perhaps for one prompt that was entered. -/
def Refers (site : Site γ) (m : Walk α) : Prop :=
  ∀ s : WalkState, History.Calls s.store.history (m s).2.store.history ∨
    ∃ prompt entered asked, site.enter prompt = .ok entered ∧
      History.Calls s.store.history asked ∧
      (m s).2.store.history = asked ++ [Request.resolve prompt]

theorem Refers.of_calls {site : Site γ} {m : Walk α}
    (h : ∀ s : WalkState, History.Calls s.store.history (m s).2.store.history) : Refers site m :=
  fun s => .inl (h s)

theorem Refers.map {site : Site γ} {m : Walk α} {f : α → β} (h : Refers site m) :
    Refers site (do let a ← m; return f a) := by
  intro s
  have hs := h s
  rw [Action.run_bind]
  cases he : m s with
  | mk result t =>
    rw [he] at hs
    cases result <;> exact hs

theorem Refers.bind {site : Site γ} {m : Walk α} {f : α → Walk β}
    (hm : ∀ s : WalkState, History.Calls s.store.history (m s).2.store.history)
    (hf : ∀ a, Refers site (f a)) : Refers site (m >>= f) := by
  intro s
  have h := hm s
  rw [Action.run_bind]
  cases he : m s with
  | mk result t =>
    rw [he] at h
    cases result with
    | error => exact .inl h
    | ok a =>
      rcases hf a t with hc | ⟨prompt, entered, asked, henter, hc, ha⟩
      · exact .inl (h.trans hc)
      · exact .inr ⟨prompt, entered, asked, henter, h.trans hc, ha⟩

theorem openReference_refers (site : Site γ) (p : Placement) (scope : ScopeId) (tag : Tag)
    (isBlank : Bool) : Refers site (openReference site p scope tag isBlank) := by
  have hS := StepClosed.calls site scope
  unfold openReference
  refine .bind (hS.located _ _) fun _ => .bind (hS.promptName tag) fun prompt => ?_
  refine .bind (hS.located _ _) fun _ => ?_
  cases site.host.resolve? with
  | none => exact fun _ => .inl (.refl _)
  | some answer =>
    cases henter : site.enter prompt with
    | error cause => exact fun _ => .inl (.refl _)
    | ok entered =>
      refine .bind (fun _ => .refl _) fun _ => .bind (fun _ => .refl _) fun state => ?_
      refine .bind (hS.extraBindings _) fun extra => ?_
      intro s
      refine .inr ⟨prompt, entered, s.store.history, henter, .refl _, ?_⟩
      rw [Action.run_bind, run_resolve]
      cases answer s.store.history prompt <;> rfl

theorem Refers.isPrefix {site : Site γ} {m : Walk α} (h : Refers site m) (s : WalkState) :
    s.store.history <+: (m s).2.store.history := by
  rcases h s with hc | ⟨prompt, entered, asked, -, hc, ha⟩
  · exact hc.isPrefix
  · rw [ha]
    exact hc.isPrefix.trans (List.prefix_append _ _)

/-! ## Whole walks -/

/-- Compiling takes nothing back from the history. -/
def Compiler.Extends (compile : Compiler) : Prop :=
  ∀ source bindings history, history <+: (compile source bindings history).2

variable {site : Site Compiler}

theorem walkReference_history
    (hsite : ∀ prompt compile, site.enter prompt = .ok compile → compile.Extends)
    (p : Placement) (scope : ScopeId) (tag : Tag) (isBlank : Bool) (s : WalkState) :
    s.store.history <+: (walkReference site p scope tag isBlank s).2.store.history := by
  refine Action.relates_bind (R := fun s t : WalkState => s.store.history <+: t.store.history)
    .trans ((openReference_refers site p scope tag isBlank).isPrefix s)
    fun referral opened hopen => ?_
  obtain ⟨-, -, prompt, _, _, _, -, -, henter, -⟩ := openReference_ok.mp hopen
  have hnested := hsite prompt _ henter referral.source referral.bindings opened.store.history
  refine Action.relates_bind (R := fun s t : WalkState => s.store.history <+: t.store.history)
    .trans hnested fun result t _ => ?_
  cases result <;> exact List.prefix_refl _

/-- Walks keep the history if the documents that they may refer to do. -/
theorem WalkClosed.history
    (hsite : ∀ prompt compile, site.enter prompt = .ok compile → compile.Extends) :
    WalkClosed site fun _ _ _ m => ∀ s : WalkState, s.store.history <+: (m s).2.store.history := by
  refine StepClosed.walkClosed
    (fun scope => .of_history site scope (R := (· <+: ·)) History.Calls.isPrefix .trans) ?_ ?_
    (walkReference_history hsite)
  · intro scope ident value s
    simp only [history_declare, List.prefix_refl]
  · intro parent body hbody s
    have h := hbody (s.store.scopes.enter parent).1
      { s with store := { s.store with scopes := (s.store.scopes.enter parent).2 } }
    exact h

theorem compileNodes_history
    (hsite : ∀ prompt compile, site.enter prompt = .ok compile → compile.Extends)
    (nodes : List Node) (store : Store) :
    store.history <+: (compileNodes site nodes store).2.history :=
  walkAll_closed (.history hsite) _ _ nodes ⟨store, .empty⟩

theorem compileDocument_history (host : Host) (enter : String → Except Cause Compiler)
    (henter : ∀ prompt compile, enter prompt = .ok compile → compile.Extends) :
    (compileDocument host enter).Extends := by
  intro source bindings history
  unfold compileDocument
  cases parseDocument source with
  | error => exact List.prefix_refl _
  | ok document =>
    have hsite : ∀ prompt compile, (Site.mk source host enter).enter prompt = .ok compile →
        compile.Extends := henter
    exact compileNodes_history hsite document.split.2 ⟨.ofBindings bindings, history⟩

theorem enterPrompt_history (host : Host) (room : Nat) (prompts : List String) (prompt : String)
    (compile : Compiler) (h : enterPrompt host room prompts prompt = .ok compile) :
    compile.Extends :=
  enterPrompt_induction (compileDocument_history host) room prompts prompt compile h

theorem compileWithin_history (host : Host) (depth : Nat) (prompts : List String) :
    (compileWithin host depth prompts).Extends :=
  compileWithin_induction (compileDocument_history host) depth prompts

end PromptTemplate
