import Mathlib.Logic.Relation
import PromptTemplate.Compile

/-!
# The walk as a machine

Compiling, taken apart into steps. A machine holds the document that is
being walked, as a list of tasks, and the documents that wait for it because
they refer to it. A step performs one task, goes into a referenced document,
or comes back from one. No step looks ahead and nothing bounds their number.
-/

namespace PromptTemplate

open Walk

-- ---------------------------------------------------------------------------
-- Tasks
-- ---------------------------------------------------------------------------

/-- What is needed of an open tag to close it. -/
inductive OpenKind where
  | message (role : Role)
  | content (kind : ContentKind)
  | toolCall (id name : String)

structure OpenTag where
  tag : Tag
  kind : OpenKind

/-- The placement of what is inside a tag, from that of the tag. -/
def OpenKind.inside : OpenKind → Placement → Placement
  | message role, p => p.insideMessage role
  | content _, p => p.insideContent
  | toolCall _ _, p => p.insideToolCall

def OpenTag.close : OpenTag → Walk Unit
  | ⟨_, .message _⟩ => build Builder.endMessage
  | ⟨_, .content kind⟩ => closeContent kind
  | ⟨tag, .toolCall id name⟩ => closeToolCall tag.span id name

inductive Task where
  | node (scope : ScopeId) (node : Node)
  /-- Nodes in a new frame. -/
  | block (scope : ScopeId) (body : List Node)
  | alternates (scope : ScopeId) (alternates : List Alternate)
  /-- The rest of a loop, from the item of number `count` on. -/
  | items (scope : ScopeId) (item : Pattern) (index : Option Ident) (body : List Node)
      (count : Nat) (values : List Value)
  | leave (scope : ScopeId)
  /-- Goes back to the placement outside the tag. -/
  | close (opened : OpenTag) (outside : Placement)

/-- The tasks for nodes in one frame. -/
def Task.nodes (scope : ScopeId) (nodes : List Node) : List Task := nodes.map (.node scope)

/-- What comes of a task: tasks that take its place and the placement for
them, or a prompt to compile first. -/
inductive Move where
  | go (tasks : List Task) (p : Placement)
  | refer (span : Span) (referral : Referral String)

def enterFrame (parent : ScopeId) : Walk ScopeId := fun state =>
  let (scope, scopes) := state.store.scopes.enter parent
  (.ok scope, { state with store := { state.store with scopes } })

def performTag (site : Site String) (p : Placement) (scope : ScopeId) (tag : Tag)
    (children : List Node) : Walk Move :=
  let within (kind : OpenKind) : Move :=
    .go (Task.nodes scope children ++ [.close ⟨tag, kind⟩ p]) (kind.inside p)
  match tag.kind with
  | .message role => do
    let role ← openMessage site p scope tag role
    return within (.message role)
  | .content kind => do
    let kind ← openContent p tag kind
    return within (.content kind)
  | .toolCall => do
    let call ← openToolCall site p scope tag (children.all Node.isBlankText)
    match call.arguments with
    | some arguments => do
      build (·.pushBlock (.toolCall call.id call.name arguments))
      return .go [] p
    | none => return within (.toolCall call.id call.name)
  | .reference => do
    let referral ← openReference site p scope tag (children.all Node.isBlankText)
    return .refer tag.span referral
  | .generic => fail (.unknownTag tag.name) tag.span

def performNode (site : Site String) (p : Placement) (scope : ScopeId) : Node → Walk Move
  | .config span entries => fail (.unsupportedNode (Node.config span entries).typeName) span
  | .text _ value => do
    build (·.pushText value)
    return .go [] p
  | .mustache _ e => do
    let value ← evaluate site scope e
    if !e.isSideEffect then do
      build (·.pushText value.render)
      return .go [] p
    else return .go [] p
  | .ifBlock _ condition consequent alternates => do
    if (← evaluate site scope condition).isTruthy then return .go [.block scope consequent] p
    else return .go [.alternates scope alternates] p
  | .eachBlock _ iterable item index body fallback => do
    match (← evaluate site scope iterable).loopItems with
    | [] => return .go (fallback.toList.map (.block scope)) p
    | values => return .go [.items scope item index body 0 values] p
  | .tag tag children => performTag site p scope tag children

def Task.perform (site : Site String) (p : Placement) : Task → Walk Move
  | .node scope n => performNode site p scope n
  | .block scope body => do
    let inner ← enterFrame scope
    return .go (Task.nodes inner body ++ [.leave inner]) p
  | .alternates _ [] => return .go [] p
  | .alternates scope (.elseIf condition body :: rest) => do
    if (← evaluate site scope condition).isTruthy then return .go [.block scope body] p
    else return .go [.alternates scope rest] p
  | .alternates scope (.otherwise body :: _) => return .go [.block scope body] p
  | .items _ _ _ _ _ [] => return .go [] p
  | .items scope item index body count (value :: rest) => do
    let inner ← enterFrame scope
    bindIteration inner item index value count
    return .go (Task.nodes inner body ++
      [.leave inner, .items scope item index body (count + 1) rest]) p
  | .leave scope => do
    changeScopes (·.exit scope)
    return .go [] p
  | .close opened outside => do
    opened.close
    return .go [] outside

-- ---------------------------------------------------------------------------
-- Machines
-- ---------------------------------------------------------------------------

/-- A document that is being walked. -/
structure Activation where
  source : String
  config : Dict Json
  placement : Placement
  tasks : List Task

/-- A document that waits for the prompt that it refers to, with the state to
go on in, but for what was asked of the host meanwhile. -/
structure Waiting where
  span : Span
  prompt : String
  active : Activation
  state : WalkState

/-- The innermost waiting document comes first. -/
inductive Machine where
  | running (active : Activation) (state : WalkState) (waiting : List Waiting)
  | halted (result : Except CompileError Conversation) (history : History)

/-- The prompts that are being resolved, outermost first. -/
def resolving (waiting : List Waiting) : List String := (waiting.map Waiting.prompt).reverse

theorem resolving_cons (w : Waiting) (waiting : List Waiting) :
    resolving (w :: waiting) = resolving waiting ++ [w.prompt] := by
  simp [resolving]

/-- A prompt may be entered unless it is being resolved or too many are. -/
def enterNext (depth : Nat) (prompts : List String) (prompt : String) : Except Cause String :=
  if prompt ∈ prompts then .error (.referenceCycle prompt)
  else if depth ≤ prompts.length then .error (.referenceTooDeep depth)
  else .ok prompt

theorem enterNext_ok {depth : Nat} {prompts : List String} {prompt entered : String} :
    enterNext depth prompts prompt = .ok entered ↔
      prompt ∉ prompts ∧ prompts.length < depth ∧ prompt = entered := by
  unfold enterNext
  by_cases hmem : prompt ∈ prompts
  · simp [hmem]
  · by_cases hfull : depth ≤ prompts.length
    · simp [hmem, hfull, Nat.not_lt.mpr hfull]
    · simp [hmem, hfull, Nat.not_le.mp hfull]

namespace Machine

def history : Machine → History
  | running _ state _ => state.store.history
  | halted _ history => history

def waiting : Machine → List Waiting
  | running _ _ waiting => waiting
  | halted _ _ => []

/-- What the document under the waiting ones sees. -/
def site (context : Context) (waiting : List Waiting) (source : String) : Site String :=
  ⟨source, context.host, enterNext context.depth (resolving waiting)⟩

/-- Comes back from a document. -/
def resume : List Waiting → Except CompileError Conversation → History → Machine
  | [], result, history => .halted result history
  | w :: waiting, .ok conversation, history =>
    .running w.active
      { w.state with
        store := { w.state.store with history }
        builder := w.state.builder.extend conversation.messages } waiting
  | w :: waiting, .error error, history =>
    resume waiting (.error ⟨causeOfReference error, w.span⟩) history

/-- Goes into a document. -/
def begin (waiting : List Waiting) (source : String) (bindings : Dict Value) (history : History) :
    Machine :=
  match parseDocument source with
  | .error error => resume waiting (.error error) history
  | .ok document =>
    let (config, nodes) := document.split
    .running ⟨source, config, .outermost, Task.nodes ScopeTree.root nodes⟩
      ⟨⟨.ofBindings bindings, history⟩, .empty⟩ waiting

/-- Goes on after a task. -/
def advance (waiting : List Waiting) (active : Activation) :
    Except CompileError Move × WalkState → Machine
  | (.ok (.go tasks p), state) =>
    .running { active with tasks := tasks ++ active.tasks, placement := p } state waiting
  | (.ok (.refer span referral), state) =>
    begin (⟨span, referral.entered, active, state⟩ :: waiting) referral.source referral.bindings
      state.store.history
  | (.error error, state) => resume waiting (.error error) state.store.history

def step (context : Context) : Machine → Option Machine
  | .running ⟨_, config, _, []⟩ state waiting =>
    some (resume waiting (.ok ⟨config, state.builder.finish⟩) state.store.history)
  | .running ⟨source, config, p, task :: rest⟩ state waiting =>
    some (advance waiting ⟨source, config, p, rest⟩
      (task.perform (site context waiting source) p state))
  | .halted _ _ => none

def start (context : Context) (source : String) : Machine := begin [] source context.bindings []

def Step (context : Context) (before after : Machine) : Prop := before.step context = some after

abbrev Steps (context : Context) : Machine → Machine → Prop :=
  Relation.ReflTransGen (Step context)

-- ---------------------------------------------------------------------------
-- Runs
-- ---------------------------------------------------------------------------

/-- What a step does: it comes back from a document without tasks, or
performs the first task of one. -/
theorem step_cases {context : Context} {m m' : Machine} (h : Step context m m') :
    (∃ source config p state waiting,
      m = .running ⟨source, config, p, []⟩ state waiting ∧
        m' = resume waiting (.ok ⟨config, state.builder.finish⟩) state.store.history) ∨
    (∃ source config p task rest state waiting,
      m = .running ⟨source, config, p, task :: rest⟩ state waiting ∧
        m' = advance waiting ⟨source, config, p, rest⟩
          (task.perform (site context waiting source) p state)) := by
  cases m with
  | halted => cases h
  | running active state waiting =>
    obtain ⟨source, config, p, tasks⟩ := active
    cases tasks with
    | nil => exact .inl ⟨source, config, p, state, waiting, rfl, (Option.some.inj h).symm⟩
    | cons task rest =>
      exact .inr ⟨source, config, p, task, rest, state, waiting, rfl, (Option.some.inj h).symm⟩

theorem step_rightUnique (context : Context) : Relator.RightUnique (Step context) :=
  fun _ _ _ h h' => Option.some.inj (h.symm.trans h')

/-- All that is reached on the way to the end of a run gets there. -/
theorem steps_to_end {context : Context} {first m last : Machine} (hm : Steps context first m)
    (hlast : Steps context first last) (hend : last.step context = none) :
    Steps context m last := by
  rcases Relation.ReflTransGen.total_of_right_unique (step_rightUnique context) hm hlast with h | h
  · exact h
  · cases h.cases_head with
    | inl heq => exact heq ▸ .refl
    | inr hstep =>
      obtain ⟨next, hnext, -⟩ := hstep
      exact absurd (hend.symm.trans hnext) (by simp)

/-- A run that comes to an end has no other run beside it that does not. -/
theorem acc_of_steps {context : Context} {m last : Machine} (h : Steps context m last)
    (hend : last.step context = none) : Acc (fun after before => Step context before after) m := by
  induction h using Relation.ReflTransGen.head_induction_on with
  | refl => exact ⟨last, fun after hafter => absurd (hend.symm.trans hafter) (by simp)⟩
  | head hstep _ ih => exact ⟨_, fun after hafter => step_rightUnique context hstep hafter ▸ ih⟩

theorem history_resume (waiting : List Waiting) (result : Except CompileError Conversation)
    (history : History) : (resume waiting result history).history = history := by
  induction waiting generalizing result with
  | nil => rfl
  | cons w waiting ih =>
    cases result with
    | ok => rfl
    | error => exact ih _

/-- Coming back takes documents from the front of those that wait. -/
theorem waiting_resume (waiting : List Waiting) (result : Except CompileError Conversation)
    (history : History) : (resume waiting result history).waiting <:+ waiting := by
  induction waiting generalizing result with
  | nil => exact List.suffix_refl _
  | cons w waiting ih =>
    cases result with
    | ok => exact List.suffix_cons w waiting
    | error => exact (ih _).trans (List.suffix_cons w waiting)

theorem waiting_begin (waiting : List Waiting) (source : String) (bindings : Dict Value)
    (history : History) : (begin waiting source bindings history).waiting <:+ waiting := by
  unfold begin
  split
  · exact waiting_resume ..
  · exact List.suffix_refl _

theorem history_begin (waiting : List Waiting) (source : String) (bindings : Dict Value)
    (history : History) : (begin waiting source bindings history).history = history := by
  unfold begin
  split
  · exact history_resume ..
  · rfl

theorem history_advance (waiting : List Waiting) (active : Activation)
    (outcome : Except CompileError Move × WalkState) :
    (advance waiting active outcome).history = outcome.2.store.history := by
  obtain ⟨result, state⟩ := outcome
  cases result with
  | error => exact history_resume ..
  | ok move =>
    cases move with
    | go => rfl
    | refer => exact history_begin ..

end Machine

end PromptTemplate
