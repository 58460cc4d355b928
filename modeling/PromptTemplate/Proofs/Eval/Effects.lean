import PromptTemplate.Proofs.Action
import PromptTemplate.Proofs.Eval.Closed

/-!
# What evaluation leaves behind

Evaluation asks the host for nothing but calls, which it adds to the end of
the history (`eval_calls`), and an expression without assignments and
updates leaves the scopes as they were (`eval_scopes`).
-/

namespace PromptTemplate

def Request.isCall : Request → Bool
  | .call .. => true
  | .resolve _ => false

/-- From one history to the other the host was asked for calls only. -/
def History.Calls (before after : History) : Prop :=
  ∃ log : History, (∀ request ∈ log, request.isCall) ∧ after = before ++ log

theorem History.Calls.refl (history : History) : history.Calls history :=
  ⟨[], by simp, by simp⟩

theorem History.Calls.trans (h : History.Calls a b) (h' : History.Calls b c) :
    History.Calls a c := by
  obtain ⟨log, hlog, rfl⟩ := h
  obtain ⟨log', hlog', rfl⟩ := h'
  refine ⟨log ++ log', ?_, by simp⟩
  intro request hm
  rcases List.mem_append.mp hm with hm | hm
  · exact hlog request hm
  · exact hlog' request hm

theorem Scene.store_lookup (scene : Scene) (span : Span) (name : String) (s : Store) :
    (scene.lookup span name s).2 = s := by
  simp only [Scene.lookup, Action.run_bind, Action.run_get]
  cases s.scopes.lookup? scene.scope name <;> rfl

theorem Eval.store_call (host : Host) (span : Span) (function : Handle) (arguments : List Value)
    (s : Store) :
    (Eval.call host span function arguments s).2 =
      { s with history := s.history ++ [Request.call function arguments] } := by
  simp only [Eval.call, Action.run_bind, Action.run_get, Action.run_set]
  cases host.call s.history function arguments <;> rfl

theorem Eval.run_changeScopes (span : Span)
    (change : ScopeTree → Except Cause (Value × ScopeTree)) (s : Store) :
    Eval.changeScopes span change s = match change s.scopes with
      | .ok (result, scopes) => (.ok result, { s with scopes })
      | .error cause => (.error ⟨cause, span⟩, s) := by
  simp only [Eval.changeScopes, Action.run_bind, Action.run_get]
  cases change s.scopes <;> rfl

theorem Eval.history_changeScopes (span : Span)
    (change : ScopeTree → Except Cause (Value × ScopeTree)) (s : Store) :
    (Eval.changeScopes span change s).2.history = s.history := by
  rw [Eval.run_changeScopes]
  split <;> rfl

/-- Writing changes the scopes as `change` says, or not at all. -/
theorem Eval.scopes_changeScopes (span : Span)
    (change : ScopeTree → Except Cause (Value × ScopeTree)) (s : Store) :
    (∃ value scopes, change s.scopes = .ok (value, scopes) ∧
      Eval.changeScopes span change s = (.ok value, { s with scopes })) ∨
    (∃ cause, Eval.changeScopes span change s = (.error ⟨cause, span⟩, s)) := by
  rw [Eval.run_changeScopes]
  cases h : change s.scopes with
  | error cause => exact .inr ⟨cause, rfl⟩
  | ok outcome => exact .inl ⟨outcome.1, outcome.2, rfl, rfl⟩

/-- A reflexive and transitive relation holds between the stores before and
after if calls keep to it. -/
theorem EvalClosed.of_preorder {R : Store → Store → Prop} (hrefl : ∀ s, R s s)
    (htrans : ∀ {a b c}, R a b → R b c → R a c)
    (hcall : ∀ s function arguments,
      R s { s with history := s.history ++ [Request.call function arguments] }) :
    EvalClosed scene fun m => ∀ s, R s (m s).2 where
  pure _ s := hrefl s
  bind_yields hm hf s := Action.relates_bind (R := R) htrans (hm s) fun a t h => hf a ⟨s, t, h⟩ t
  fail _ _ s := hrefl s
  lookup span name s := by
    rw [scene.store_lookup]
    exact hrefl s
  call span function arguments s := by
    rw [Eval.store_call]
    exact hcall s function arguments

/-- Evaluation asks the host for calls only, and takes nothing back. -/
theorem eval_calls (scene : Scene) (e : Expr) (s : Store) :
    s.history.Calls (eval scene e s).2.history := by
  have hP : EvalClosed scene fun m => ∀ s : Store, s.history.Calls (m s).2.history := by
    refine .of_preorder (R := fun s t => History.Calls s.history t.history)
      (fun _ => .refl _) .trans ?_
    intro s function arguments
    exact ⟨[.call function arguments], by simp [Request.isCall], rfl⟩
  refine eval_closed hP e (fun _ _ span _ _ _ _ s => ?_) s
  rw [Eval.history_changeScopes]
  exact .refl _

/-- What the writes to the targets in an expression keep, its evaluation keeps. -/
theorem eval_scopes_of_targets {scene : Scene} {R : ScopeTree → ScopeTree → Prop}
    (hrefl : ∀ t, R t t) (htrans : ∀ {t u v}, R t u → R u v → R t v) (e : Expr)
    (hwrite : ∀ target ∈ e.targets, ∀ name path,
      Action.Yields (evalPath scene target.place) (name, path) → ∀ {t u change result},
      t.write scene.scope name path target.isPlain change = .ok (result, u) → R t u)
    (s : Store) : R s.scopes (eval scene e s).2.scopes := by
  have hP : EvalClosed scene fun m => ∀ s : Store, R s.scopes (m s).2.scopes :=
    .of_preorder (R := fun s t => R s.scopes t.scopes) (fun _ => hrefl _) htrans
      fun _ _ _ => hrefl _
  refine eval_closed hP e (fun target htarget span name path change hpath s => ?_) s
  rcases Eval.scopes_changeScopes span
    (fun scopes => scopes.write scene.scope name path target.isPlain change) s with
    ⟨value, scopes, hscopes, h⟩ | ⟨cause, h⟩
  · rw [h]
    exact hwrite target htarget name path hpath hscopes
  · rw [h]
    exact hrefl _

/-- What is not written stays. -/
theorem eval_scopes (scene : Scene) (e : Expr) (he : e.writes = false) (s : Store) :
    (eval scene e s).2.scopes = s.scopes := by
  refine eval_scopes_of_targets (R := fun t u => u = t) (fun _ => rfl) ?_ e ?_ s
  · intro t u v htu huv
    exact huv.trans htu
  · intro target htarget
    rw [e.targets_eq_nil.mpr he] at htarget
    cases htarget

end PromptTemplate
