import PromptTemplate.Proofs.Machine
import PromptTemplate.Proofs.Walk.Run

/-!
# The machine compiles

Whatever the walk through some nodes gives, the machine gets to by steps
(`Runs`), and where the walk fails the machine comes back from the document
with the same error. As the number of prompts that may still be entered goes
down with each that is, the machine gets to the end of every document
(`begin_steps`), and halts with what compiling gives (`start_steps`).
-/

namespace PromptTemplate

open Walk

-- ---------------------------------------------------------------------------
-- Sites
-- ---------------------------------------------------------------------------

/-- The same site, with another view of what is entered. -/
def Site.map (f : γ → δ) (site : Site γ) : Site δ :=
  ⟨site.source, site.host, fun prompt => (site.enter prompt).map f⟩

variable {f : γ → δ} {site : Site γ}

theorem extraBindings_map (scope : ScopeId) (attributes : List Attribute) :
    extraBindings (site.map f) scope attributes = extraBindings site scope attributes := by
  induction attributes with
  | nil => rfl
  | cons first rest ih =>
    obtain ⟨name, span, value⟩ := first
    simp only [extraBindings, ih]
    cases value <;> rfl

theorem openMessage_map (p : Placement) (scope : ScopeId) (tag : Tag) (role : Option Role) :
    openMessage (site.map f) p scope tag role = openMessage site p scope tag role := rfl

theorem openToolCall_map (p : Placement) (scope : ScopeId) (tag : Tag) (isBlank : Bool) :
    openToolCall (site.map f) p scope tag isBlank = openToolCall site p scope tag isBlank := rfl

theorem openReference_map (p : Placement) (scope : ScopeId) (tag : Tag) (isBlank : Bool) :
    openReference (site.map f) p scope tag isBlank = (do
      let referral ← openReference site p scope tag isBlank
      return ⟨f referral.entered, referral.source, referral.bindings⟩) := by
  simp only [openReference, extraBindings_map, bind_assoc]
  dsimp only [Site.map]
  refine bind_congr fun _ => bind_congr fun prompt => bind_congr fun _ => ?_
  cases site.host.resolve? with
  | none => rfl
  | some answer =>
    cases site.enter prompt with
    | error cause => rfl
    | ok entered => simp [Except.map, located]

-- ---------------------------------------------------------------------------
-- Running tasks
-- ---------------------------------------------------------------------------

namespace Machine

/-- Where the machine is when a walk gave this outcome. -/
def settle (waiting : List Waiting) (active : Activation) :
    Except CompileError Unit × WalkState → Machine
  | (.ok _, state) => .running active state waiting
  | (.error error, state) => resume waiting (.error error) state.store.history

section
variable (context : Context) (waiting : List Waiting) (source : String)

/-- From one outcome of a task the machine gets to where the other one, of a
walk, leads. -/
def Follows (p : Placement) (move : Outcome WalkState Move) (q : Placement)
    (outcome : Outcome WalkState Unit) : Prop :=
  ∀ config rest, Steps context (advance waiting ⟨source, config, p, rest⟩ move)
    (settle waiting ⟨source, config, q, rest⟩ outcome)

/-- The machine performs the tasks as the walk says, and is then at the
placement `q`. -/
def Runs (tasks : List Task) (p q : Placement) (m : Walk Unit) : Prop :=
  ∀ state config rest, Steps context (.running ⟨source, config, p, tasks ++ rest⟩ state waiting)
    (settle waiting ⟨source, config, q, rest⟩ (m state))

end

section
variable {context : Context} {waiting : List Waiting} {source : String} {p q r : Placement}

theorem Follows.bind {m : Walk α} {k : α → Walk Move} {f : α → Walk Unit} {s : WalkState}
    (h : ∀ a t, m s = (.ok a, t) → Follows context waiting source p (k a t) q (f a t)) :
    Follows context waiting source p ((m >>= k) s) q ((m >>= f) s) := by
  rw [Action.run_bind, Action.run_bind]
  cases hm : m s with
  | mk result t =>
    cases result with
    | ok a => exact h a t hm
    | error error => exact fun _ _ => .refl

theorem Follows.go {tasks : List Task} {m : Walk Unit} {s : WalkState}
    (h : Runs context waiting source tasks q r m) :
    Follows context waiting source p ((pure (.go tasks q) : Walk Move) s) r (m s) :=
  fun config rest => h s config rest

theorem Runs.nil : Runs context waiting source [] p p (pure ()) :=
  fun _ _ _ => .refl

theorem Runs.append {xs ys : List Task} {m n : Walk Unit}
    (hxs : Runs context waiting source xs p q m) (hys : Runs context waiting source ys q r n) :
    Runs context waiting source (xs ++ ys) p r (do m; n) := by
  intro state config rest
  have hx := hxs state config (ys ++ rest)
  rw [List.append_assoc, Action.run_bind]
  cases hm : m state with
  | mk result t =>
    rw [hm] at hx
    cases result with
    | ok => exact hx.trans (hys t config rest)
    | error error => exact hx

theorem Follows.done {m : Walk Unit} {s : WalkState} :
    Follows context waiting source p ((do m; return .go [] q : Walk Move) s) q (m s) := by
  intro config rest
  rw [Action.run_bind]
  cases m s with
  | mk result t => cases result <;> exact .refl

/-- One step performs the first task. -/
theorem Runs.task {task : Task} {m : Walk Unit}
    (h : ∀ s, Follows context waiting source p
      (task.perform (Machine.site context waiting source) p s) q (m s)) :
    Runs context waiting source [task] p q m := by
  intro state config rest
  exact .head rfl (h state config rest)

/-- A frame may as well be entered and left by steps of their own. -/
theorem settle_inFrame (waiting : List Waiting) (active : Activation) (parent : ScopeId)
    (body : ScopeId → Walk Unit) (m : Walk Unit) (s : WalkState) :
    settle waiting active ((do inFrame parent body; m) s) =
      settle waiting active ((do
        let inner ← enterFrame parent
        body inner
        changeScopes (·.exit inner)
        m) s) := by
  simp only [Action.run_bind, run_inFrame, enterFrame, run_changeScopes]
  cases body (s.store.scopes.enter parent).1
    { s with store := { s.store with scopes := (s.store.scopes.enter parent).2 } } with
  | mk result t => cases result <;> rfl

theorem Runs.leave {scope : ScopeId} {tasks : List Task} {m : Walk Unit}
    (h : Runs context waiting source tasks p q m) :
    Runs context waiting source (.leave scope :: tasks) p q
      (do changeScopes (·.exit scope); m) := by
  have hleave : Runs context waiting source [.leave scope] p p (changeScopes (·.exit scope)) :=
    .task fun _ => .done
  exact hleave.append h

theorem Runs.block {scope : ScopeId} {body : List Node} {m : ScopeId → Walk Unit}
    (h : ∀ inner, Runs context waiting source (Task.nodes inner body) p p (m inner)) :
    Runs context waiting source [.block scope body] p p (inFrame scope m) := by
  refine .task fun s config rest => ?_
  rw [← bind_pure_unit (x := inFrame scope m), settle_inFrame]
  have hinside : ∀ inner, Runs context waiting source (Task.nodes inner body ++ [.leave inner]) p p
      (do m inner; changeScopes (·.exit inner); pure ()) :=
    fun inner => (h inner).append (.leave .nil)
  exact Follows.bind (fun inner t _ => .go (hinside inner)) config rest

theorem Runs.items {scope : ScopeId} {item : Pattern}
    {index : Option Ident} {body : List Node} {m : ScopeId → Walk Unit}
    (h : ∀ inner, Runs context waiting source (Task.nodes inner body) p p (m inner))
    (count : Nat) (values : List Value) :
    Runs context waiting source [.items scope item index body count values] p p
      (iterate (fun value count => inFrame scope fun inner => do
        bindIteration inner item index value count
        m inner) count values) := by
  induction values generalizing count with
  | nil => exact .task fun _ => .go .nil
  | cons value values ih =>
    refine .task fun s config rest => ?_
    -- The walk leaves the frame even where it fails; the machine, which then
    -- comes back from the document, does not get to.
    rw [iterate, settle_inFrame]
    simp only [bind_assoc]
    have hrest : ∀ inner, Runs context waiting source
        [.leave inner, .items scope item index body (count + 1) values] p p _ :=
      fun inner => (ih (count + 1)).leave
    have hinside := fun inner => (h inner).append (hrest inner)
    exact Follows.bind (fun inner t _ => .bind fun _ u _ => .go (hinside inner)) config rest

theorem Runs.close {opened : OpenTag} {outside : Placement} :
    Runs context waiting source [.close opened outside] p outside opened.close :=
  .task fun _ => .done

/-- The tag that was opened is closed after what is inside it. -/
theorem Follows.opened {scope : ScopeId} {tag : Tag} {children : List Node} {kind : OpenKind}
    {m : Walk Unit} {s : WalkState}
    (h : Runs context waiting source (Task.nodes scope children) (kind.inside p)
      (kind.inside p) m) :
    Follows context waiting source p
      ((pure (.go (Task.nodes scope children ++ [.close ⟨tag, kind⟩ p]) (kind.inside p)) :
        Walk Move) s) p ((do m; OpenTag.close ⟨tag, kind⟩) s) :=
  .go (h.append .close)

end

-- ---------------------------------------------------------------------------
-- Nodes
-- ---------------------------------------------------------------------------

/-- The machine compiles what the documents under `waiting` may refer to as
`enter` says. -/
def Enters (context : Context) (waiting : List Waiting) (enter : String → Compiler) : Prop :=
  ∀ (w : Waiting) (source : String) (bindings : Dict Value) (history : History),
    enterNext context.depth (resolving waiting) w.prompt = .ok w.prompt →
      Steps context (begin (w :: waiting) source bindings history)
        (resume (w :: waiting) (enter w.prompt source bindings history).1
          (enter w.prompt source bindings history).2)

section
variable {context : Context} {waiting : List Waiting} {source : String}
  {enter : String → Compiler}

theorem runs_reference (henter : Enters context waiting enter) (p : Placement) (scope : ScopeId)
    (tag : Tag) (children : List Node) (hkind : tag.kind = .reference) :
    Runs context waiting source [.node scope (.tag tag children)] p p
      (walkReference ((Machine.site context waiting source).map enter) p scope tag
        (children.all Node.isBlankText)) := by
  refine .task fun s => ?_
  simp only [Task.perform, performNode, performTag, hkind, walkReference, openReference_map,
    bind_assoc, pure_bind]
  refine .bind fun referral t hopen config rest => ?_
  obtain ⟨-, -, prompt, _, _, _, -, -, hentered, -⟩ := openReference_ok.mp hopen
  obtain ⟨hfresh, hroom, rfl⟩ := enterNext_ok.mp hentered
  have hnested := henter ⟨tag.span, referral.entered, ⟨source, config, p, rest⟩, t⟩
    referral.source referral.bindings t.store.history hentered
  rw [Action.run_bind, run_compileNested]
  dsimp only at hnested ⊢
  generalize enter referral.entered referral.source referral.bindings t.store.history = outcome
    at hnested ⊢
  obtain ⟨result, history⟩ := outcome
  cases result <;> exact hnested

mutual

theorem runs_walk (henter : Enters context waiting enter) (p : Placement) (scope : ScopeId) :
    (node : Node) →
    Runs context waiting source [.node scope node] p p
      (walk ((Machine.site context waiting source).map enter) p scope node)
  | .config span entries => by
    simp only [walk]
    exact .task fun _ _ _ => .refl
  | .text _ value => by
    simp only [walk]
    exact .task fun _ => .done
  | .mustache _ e => by
    simp only [walk]
    refine .task fun s => .bind fun value t _ => ?_
    cases e.isSideEffect
    · exact .done
    · exact .go .nil
  | .ifBlock _ condition consequent alternates => by
    simp only [walk]
    refine .task fun s => .bind fun value t _ => ?_
    cases value.isTruthy
    · exact .go (runs_walkAlternates henter p scope alternates)
    · exact .go (.block fun inner => runs_walkAll henter p inner consequent)
  | .eachBlock _ iterable item index body fallback => by
    simp only [walk]
    refine .task fun s => .bind fun value t _ => ?_
    cases value.loopItems with
    | nil => exact .go (runs_walkFallback henter p scope fallback)
    | cons first rest =>
      exact .go (.items (fun inner => runs_walkAll henter p inner body) 0 (first :: rest))
  | .tag tag children => by
    simp only [walk]
    cases hkind : tag.kind with
    | message role =>
      refine .task fun s => ?_
      simp only [Task.perform, performNode, performTag, hkind, walkMessage, openMessage_map]
      exact .bind fun role t _ => .opened (runs_walkAll henter _ scope children)
    | content kind =>
      refine .task fun s => ?_
      simp only [Task.perform, performNode, performTag, hkind, walkContent]
      exact .bind fun kind t _ => .opened (runs_walkAll henter _ scope children)
    | toolCall =>
      refine .task fun s => ?_
      simp only [Task.perform, performNode, performTag, hkind, walkToolCall, openToolCall_map]
      refine .bind fun call t _ => ?_
      cases call.arguments with
      | some arguments => exact .done
      | none => exact .opened (runs_walkAll henter _ scope children)
    | reference => exact runs_reference henter p scope tag children hkind
    | generic =>
      refine .task fun s config rest => ?_
      simp only [Task.perform, performNode, performTag, hkind]
      exact .refl

theorem runs_walkAll (henter : Enters context waiting enter) (p : Placement) (scope : ScopeId) :
    (nodes : List Node) →
    Runs context waiting source (Task.nodes scope nodes) p p
      (walkAll ((Machine.site context waiting source).map enter) p scope nodes)
  | [] => by
    simp only [walkAll]
    exact .nil
  | node :: rest => by
    simp only [walkAll]
    exact (runs_walk henter p scope node).append (runs_walkAll henter p scope rest)

theorem runs_walkAlternates (henter : Enters context waiting enter) (p : Placement)
    (scope : ScopeId) :
    (alternates : List Alternate) →
    Runs context waiting source [.alternates scope alternates] p p
      (walkAlternates ((Machine.site context waiting source).map enter) p scope alternates)
  | [] => by
    simp only [walkAlternates]
    exact .task fun _ => .go .nil
  | .elseIf condition body :: rest => by
    simp only [walkAlternates]
    refine .task fun s => .bind fun value t _ => ?_
    cases value.isTruthy
    · exact .go (runs_walkAlternates henter p scope rest)
    · exact .go (.block fun inner => runs_walkAll henter p inner body)
  | .otherwise body :: rest => by
    simp only [walkAlternates]
    exact .task fun _ => .go (.block fun inner => runs_walkAll henter p inner body)

theorem runs_walkFallback (henter : Enters context waiting enter) (p : Placement)
    (scope : ScopeId) :
    (fallback : Option (List Node)) →
    Runs context waiting source (fallback.toList.map (.block scope)) p p
      (walkFallback ((Machine.site context waiting source).map enter) p scope fallback)
  | none => by
    simp only [walkFallback]
    exact .nil
  | some body => by
    simp only [walkFallback]
    exact .block fun inner => runs_walkAll henter p inner body

end

end

-- ---------------------------------------------------------------------------
-- Documents
-- ---------------------------------------------------------------------------

/-- What is left after a machine has walked through a document. -/
theorem begin_steps_of_enters {context : Context} {waiting : List Waiting}
    {enter : String → Compiler} (henter : Enters context waiting enter) (source : String)
    (bindings : Dict Value) (history : History) :
    let outcome := compileDocument context.host
      ((Machine.site context waiting source).map enter).enter source bindings history
    Steps context (begin waiting source bindings history)
      (resume waiting outcome.1 outcome.2) := by
  unfold begin compileDocument
  cases parseDocument source with
  | error error => exact .refl
  | ok document =>
    have hruns : Runs context waiting source _ .outermost .outermost _ :=
      runs_walkAll henter .outermost ScopeTree.root document.split.2
    have hsteps := hruns ⟨⟨.ofBindings bindings, history⟩, .empty⟩ document.split.1 []
    have hsite : (Machine.site context waiting source).map enter =
      ⟨source, context.host, ((Machine.site context waiting source).map enter).enter⟩ := rfl
    rw [List.append_nil, hsite] at hsteps
    simp only [Document.compile, compileNodes]
    generalize walkAll _ _ _ _ _ = outcome at hsteps ⊢
    obtain ⟨result, state⟩ := outcome
    cases result with
    | error error => exact hsteps
    | ok => exact hsteps.tail rfl

/-- Counting the prompts and counting the room they leave comes to the same. -/
theorem enterNext_map {host : Host} {depth : Nat} {prompts : List String}
    (hroom : prompts.length ≤ depth) (prompt : String) :
    (enterNext depth prompts prompt).map (fun p => compileWithin host depth (prompts ++ [p])) =
      enterPrompt host (depth - prompts.length) prompts prompt := by
  unfold compileWithin enterNext
  simp only [List.length_append, List.length_singleton, Nat.sub_add_eq]
  cases hfree : depth - prompts.length with
  | zero =>
    have hfull : depth = prompts.length := by omega
    by_cases hmem : prompt ∈ prompts <;> simp [enterPrompt, Except.map, hmem, hfull]
  | succ free =>
    have hfull : ¬depth ≤ prompts.length := by omega
    by_cases hmem : prompt ∈ prompts <;> simp [enterPrompt, Except.map, hmem, hfull]

/-- The machine gets through every document that may be entered. -/
theorem begin_steps {context : Context} (waiting : List Waiting)
    (hroom : (resolving waiting).length ≤ context.depth) (source : String)
    (bindings : Dict Value) (history : History) :
    let outcome := compileWithin context.host context.depth (resolving waiting) source bindings
      history
    Steps context (begin waiting source bindings history)
      (resume waiting outcome.1 outcome.2) := by
  -- By induction on the room: what may be entered takes one of what is left.
  have henter : Enters context waiting fun prompt =>
      compileWithin context.host context.depth (resolving waiting ++ [prompt]) := by
    intro w source bindings history hw
    obtain ⟨-, hfree, -⟩ := enterNext_ok.mp hw
    have hnested := begin_steps (w :: waiting)
      (by rw [resolving_cons, List.length_append]; exact hfree) source bindings history
    rwa [resolving_cons] at hnested
  have hsteps := begin_steps_of_enters henter source bindings history
  have hsite : ((Machine.site context waiting source).map fun prompt =>
      compileWithin context.host context.depth (resolving waiting ++ [prompt])).enter =
        enterPrompt context.host (context.depth - (resolving waiting).length)
          (resolving waiting) :=
    funext (enterNext_map hroom)
  rw [hsite] at hsteps
  exact hsteps
termination_by context.depth - (resolving waiting).length
decreasing_by
  rw [resolving_cons, List.length_append, List.length_singleton]
  omega

theorem start_steps (context : Context) (source : String) :
    Steps context (start context source)
      (.halted (compile context source).1 (compile context source).2) :=
  begin_steps [] (Nat.zero_le _) source context.bindings []

end Machine

end PromptTemplate
