import PromptTemplate.Proofs.Eval.Checked
import PromptTemplate.Proofs.Scope.Hygiene

/-!
# Compiling over frames that are there

Compiling again, definition by definition, with the checks of the evaluation,
and more of them where blocks enter and leave frames, loops declare names and
references take what they see. No check ever stops a compile
(`compile_agrees`): a block has its number from the frames that there are, and
all frames that begin inside it have ended when it uses the number again.
-/

namespace PromptTemplate

open Walk

instance : HasScopes WalkState := ⟨fun s => s.store.scopes⟩

-- ---------------------------------------------------------------------------
-- Checked compiles
-- ---------------------------------------------------------------------------

abbrev CheckedCompiler := (source : String) → (bindings : Dict Value) →
  Checked History Conversation

namespace Checked

def evaluate {γ : Type} (site : Site γ) (scope : ScopeId) (e : Expr) : Checked WalkState Value :=
  fun state =>
    (eval ⟨site.source, site.host, scope⟩ e state.store).map fun (result, store) =>
      (result, { state with store })

/-- The frame that begins is still there when it ends. -/
def inFrame (parent : ScopeId) (body : ScopeId → Checked WalkState Unit) : Checked WalkState Unit :=
  fun state =>
    if state.store.scopes.admits parent then
      let (scope, scopes) := state.store.scopes.enter parent
      (body scope { state with store := { state.store with scopes } }).bind fun (result, after) =>
        if after.store.scopes.admits scope then
          some (result, { after with
            store := { after.store with scopes := after.store.scopes.exit scope } })
        else none
    else none

def compileNested (compile : Checked History Conversation) :
    Checked WalkState (Except CompileError Conversation) := fun state =>
  (compile state.store.history).map fun (result, history) =>
    (.ok result, { state with store := { state.store with history } })

def declare (scope : ScopeId) (ident : Ident) (value : Value) : Checked WalkState Unit :=
  onFrame scope (PromptTemplate.declare scope ident value)

mutual

def bindPattern (scope : ScopeId) (value : Value) : Pattern → Checked WalkState Unit
  | .ident ident => declare scope ident value
  | .object entries => bindFields scope value entries
  | .array items => bindItems scope value 0 items

def bindFields (scope : ScopeId) (value : Value) : List (Ident × Pattern) → Checked WalkState Unit
  | [] => return
  | (key, pattern) :: rest => do
    bindPattern scope (value.fieldOrNull key.name) pattern
    bindFields scope value rest

def bindItems (scope : ScopeId) (value : Value) (index : Nat) :
    List Pattern → Checked WalkState Unit
  | [] => return
  | pattern :: rest => do
    bindPattern scope (value.itemOrNull index) pattern
    bindItems scope value (index + 1) rest

end

def bindIteration (scope : ScopeId) (pattern : Pattern) (index : Option Ident) (item : Value)
    (count : Nat) : Checked WalkState Unit := do
  bindPattern scope item pattern
  match index with
  | some ident => declare scope ident (Value.countToNumber count)
  | none => return

def iterate (body : Value → Nat → Checked WalkState Unit) :
    (count : Nat) → List Value → Checked WalkState Unit
  | _, [] => return
  | count, item :: rest => do
    body item count
    iterate body (count + 1) rest

section
variable {γ : Type} (site : Site γ) (p : Placement) (scope : ScopeId) (tag : Tag)

def attributeValue : AttributeValue → Checked WalkState Value
  | .flag => return .bool true
  | .literal text => return .string text
  | .expression value => evaluate site scope value

def attribute? (name : String) : Checked WalkState (Option Value) := do
  match tag.attribute? name with
  | some found => return some (← attributeValue site scope found.value)
  | none => return none

def textAttribute? (name : String) : Checked WalkState (Option String) := do
  match ← attribute? site scope tag name with
  | none => return none
  | some .null => return none
  | some value => return some value.render

def messageRole : Option Role → Checked WalkState Role
  | some role => return role
  | none => do
    match ← textAttribute? site scope tag "role" with
    | none => free (Walk.fail .messageWithoutRole tag.span)
    | some name =>
      match Role.ofName? name with
      | some role => return role
      | none => free (Walk.fail (.invalidMessageRole name) tag.span)

def toolId (role : Role) : Checked WalkState (Option String) := do
  if role = .tool then
    match ← textAttribute? site scope tag "id" with
    | some id => return some id
    | none => free (Walk.fail .toolMessageWithoutId tag.span)
  else return none

def openMessage (role : Option Role) : Checked WalkState Role := do
  free (located tag.span p.admitsMessage)
  let role ← messageRole site scope tag role
  let id ← toolId site scope tag role
  free (build (·.beginMessage role id))
  return role

def walkMessage (role : Option Role) (inside : Placement → Checked WalkState Unit) :
    Checked WalkState Unit := do
  let role ← openMessage site p scope tag role
  inside (p.insideMessage role)
  free (build Builder.endMessage)

def walkContent (kind : Option ContentKind) (inside : Placement → Checked WalkState Unit) :
    Checked WalkState Unit := do
  let kind ← free (openContent p tag kind)
  inside p.insideContent
  free (closeContent kind)

def openToolCall (isBlank : Bool) : Checked WalkState ToolCall := do
  free (located tag.span p.admitsToolCall)
  let some id ← textAttribute? site scope tag "id"
    | free (Walk.fail .toolCallWithoutId tag.span)
  let some name ← textAttribute? site scope tag "name"
    | free (Walk.fail .toolCallWithoutName tag.span)
  free (build Builder.flushText)
  match ← attribute? site scope tag "arguments" with
  | none => return ⟨id, name, none⟩
  | some value =>
    if isBlank then
      return ⟨id, name, some (← free (located tag.span (argumentsOfValue value)))⟩
    else free (Walk.fail .invalidToolCallArguments tag.span)

def walkToolCall (isBlank : Bool) (inside : Placement → Checked WalkState Unit) :
    Checked WalkState Unit := do
  let call ← openToolCall site p scope tag isBlank
  match call.arguments with
  | some arguments => free (build (·.pushBlock (.toolCall call.id call.name arguments)))
  | none =>
    inside p.insideToolCall
    free (closeToolCall tag.span call.id call.name)

def extraBindings : List Attribute → Checked WalkState (Dict Value)
  | [] => return []
  | ⟨name, _, value⟩ :: rest => do
    if name = "prompt" then extraBindings rest
    else
      let value ← attributeValue site scope value
      return (name, value) :: (← extraBindings rest)

def openReference (isBlank : Bool) : Checked WalkState (Referral γ) := do
  free (located tag.span p.admitsReference)
  let prompt ← free (promptName tag)
  free (located tag.span (if isBlank then .ok () else .error .referenceWithContent))
  let some answer := site.host.resolve? | free (Walk.fail .noResolver tag.span)
  let entered ← free (located tag.span (site.enter prompt))
  let visible := (← onFrame scope get).store.scopes.snapshot scope
  let extra ← extraBindings site scope tag.attributes
  let source ← free (resolve answer tag.span prompt)
  return ⟨entered, source, Dict.putAll visible extra⟩

end

def walkReference (site : Site CheckedCompiler) (p : Placement) (scope : ScopeId) (tag : Tag)
    (isBlank : Bool) : Checked WalkState Unit := do
  let referral ← openReference site p scope tag isBlank
  match ← compileNested (referral.entered referral.source referral.bindings) with
  | .ok conversation => free (build (·.extend conversation.messages))
  | .error error => free (Walk.fail (causeOfReference error) tag.span)

mutual

def walk (site : Site CheckedCompiler) (p : Placement) (scope : ScopeId) :
    Node → Checked WalkState Unit
  | .config span entries =>
    free (Walk.fail (.unsupportedNode (Node.config span entries).typeName) span)
  | .text _ value => free (build (·.pushText value))
  | .mustache _ e => do
    let value ← evaluate site scope e
    if !e.isSideEffect then free (build (·.pushText value.render))
  | .ifBlock _ condition consequent alternates => do
    if (← evaluate site scope condition).isTruthy then
      inFrame scope fun inner => walkAll site p inner consequent
    else walkAlternates site p scope alternates
  | .eachBlock _ iterable item index body fallback => do
    match (← evaluate site scope iterable).loopItems with
    | [] => walkFallback site p scope fallback
    | items =>
      iterate (fun value count => inFrame scope fun inner => do
        bindIteration inner item index value count
        walkAll site p inner body) 0 items
  | .tag tag children =>
    match tag.kind with
    | .message role =>
      walkMessage site p scope tag role fun p => walkAll site p scope children
    | .content kind => walkContent p tag kind fun p => walkAll site p scope children
    | .toolCall =>
      walkToolCall site p scope tag (children.all Node.isBlankText) fun p =>
        walkAll site p scope children
    | .reference => walkReference site p scope tag (children.all Node.isBlankText)
    | .generic => free (Walk.fail (.unknownTag tag.name) tag.span)

def walkAll (site : Site CheckedCompiler) (p : Placement) (scope : ScopeId) :
    List Node → Checked WalkState Unit
  | [] => return
  | node :: rest => do
    walk site p scope node
    walkAll site p scope rest

def walkAlternates (site : Site CheckedCompiler) (p : Placement) (scope : ScopeId) :
    List Alternate → Checked WalkState Unit
  | [] => return
  | .elseIf condition body :: rest => do
    if (← evaluate site scope condition).isTruthy then
      inFrame scope fun inner => walkAll site p inner body
    else walkAlternates site p scope rest
  | .otherwise body :: _ => inFrame scope fun inner => walkAll site p inner body

def walkFallback (site : Site CheckedCompiler) (p : Placement) (scope : ScopeId) :
    Option (List Node) → Checked WalkState Unit
  | none => return
  | some body => inFrame scope fun inner => walkAll site p inner body

end

def compileNodes (site : Site CheckedCompiler) (nodes : List Node) : Checked Store (List Message) :=
  fun store =>
    (walkAll site .outermost ScopeTree.root nodes ⟨store, .empty⟩).map fun (result, after) =>
      (result.map fun _ => after.builder.finish, after.store)

def compileParsed (document : Document) (site : Site CheckedCompiler) (bindings : Dict Value) :
    Checked History Conversation := fun history =>
  let (config, nodes) := document.split
  (compileNodes site nodes ⟨.ofBindings bindings, history⟩).map fun (result, after) =>
    (result.map fun messages => ⟨config, messages⟩, after.history)

def compileDocument (host : Host) (enter : String → Except Cause CheckedCompiler) :
    CheckedCompiler := fun source bindings history =>
  match parseDocument source with
  | .error error => some (.error error, history)
  | .ok document => compileParsed document ⟨source, host, enter⟩ bindings history

def enterPrompt (host : Host) :
    (room : Nat) → (prompts : List String) → (prompt : String) → Except Cause CheckedCompiler
  | 0, prompts, prompt =>
    .error (if prompt ∈ prompts then .referenceCycle prompt else .referenceTooDeep prompts.length)
  | room + 1, prompts, prompt =>
    if prompt ∈ prompts then .error (.referenceCycle prompt)
    else .ok (compileDocument host (enterPrompt host room (prompts ++ [prompt])))

/-- Compiles a prompt, unless a check fails: then there is no outcome. -/
def compile (context : Context) (source : String) :
    Option (Except CompileError Conversation × History) :=
  compileDocument context.host (enterPrompt context.host context.depth []) source
    context.bindings []

end Checked

-- ---------------------------------------------------------------------------
-- No check fails
-- ---------------------------------------------------------------------------

/-- A compiler that no check stops, and the one that it does the same as. -/
def CheckedCompiler.Agrees (checked : CheckedCompiler) (compiler : Compiler) : Prop :=
  ∀ source bindings history,
    checked source bindings history = some (compiler source bindings history)

/-- A prompt is entered by both, or for the same cause by neither. -/
inductive EnteredAlike : Except Cause CheckedCompiler → Except Cause Compiler → Prop
  | ok {checked : CheckedCompiler} {compiler : Compiler} :
      checked.Agrees compiler → EnteredAlike (.ok checked) (.ok compiler)
  | error (cause : Cause) : EnteredAlike (.error cause) (.error cause)

/-- Sites of one document, with checks and without. -/
structure Site.Agrees (checked : Site CheckedCompiler) (site : Site Compiler) : Prop where
  source : checked.source = site.source
  host : checked.host = site.host
  enter : ∀ prompt, EnteredAlike (checked.enter prompt) (site.enter prompt)

variable {checked : Site CheckedCompiler} {site : Site Compiler} {n scope : Nat}

theorem StepClosed.leavesStanding {γ : Type} (site : Site γ) (hscope : scope < n) :
    StepClosed site scope (LeavesStanding n) where
  pure _ := .of_scopes fun _ => rfl
  bind := .bind
  fail _ _ := .of_scopes fun _ => rfl
  evaluate e s hs := by
    have heval : Agrees n _ (eval ⟨site.source, site.host, scope⟩ e) := eval_agrees hscope e
    exact heval.leaves s.store hs
  build _ := .of_scopes fun _ => rfl
  takeText := .of_scopes fun _ => rfl

namespace Walk

theorem evaluate_agrees (h : checked.Agrees site) (hscope : scope < n) (e : Expr) :
    Agrees n (Checked.evaluate checked scope e) (evaluate site scope e) where
  same s hs := by
    rw [Checked.evaluate, h.source, h.host, (eval_agrees hscope e).same s.store hs]
    rfl
  leaves := (StepClosed.leavesStanding site hscope).evaluate e

theorem inFrame_agrees {parent : ScopeId} (hparent : parent < n)
    {checked : ScopeId → Checked WalkState Unit} {body : ScopeId → Walk Unit}
    (hbody : Agrees (n + 1) (checked n) (body n)) :
    Agrees n (Checked.inFrame parent checked) (inFrame parent body) := by
  -- The frame that begins has the number `n`, and is the last one again when the body has ended.
  have hended (s : WalkState) (hs : ScopeTree.Stands n s.store.scopes) :=
    hbody.leaves { s with store := { s.store with scopes := (s.store.scopes.enter parent).2 } }
      (hs.enter hparent)
  constructor
  · intro s (hs : ScopeTree.Stands n s.store.scopes)
    have hsame := hbody.same
      { s with store := { s.store with scopes := (s.store.scopes.enter parent).2 } }
      (hs.enter hparent)
    have hlast := (hended s hs).admits (Nat.lt_succ_self n)
    obtain rfl := hs.length
    rw [Checked.inFrame, if_pos (hs.admits hparent)]
    dsimp only [ScopeTree.enter] at hsame hlast ⊢
    rw [hsame]
    exact if_pos hlast
  · intro s (hs : ScopeTree.Stands n s.store.scopes)
    have hexit := (hended s hs).exit (Nat.ne_zero_of_lt hparent)
    obtain rfl := hs.length
    exact hexit

/-- A compile that a reference makes has frames of its own. -/
theorem compileNested_agrees {checked : Checked History Conversation}
    {compile : Compile Conversation} (h : ∀ history, checked history = some (compile history)) :
    Agrees n (Checked.compileNested checked) (compileNested compile) where
  same s _ := by
    rw [Checked.compileNested, h]
    rfl
  leaves := .of_scopes fun _ => rfl

end Walk

theorem declare_agrees (hscope : scope < n) (ident : Ident) (value : Value) :
    Agrees n (Checked.declare scope ident value) (declare scope ident value) := by
  refine .onFrame hscope fun s hs => ?_
  rw [run_declare]
  cases hdeclare : s.store.scopes.declare? scope ident.name value with
  | some scopes => exact ScopeTree.Stands.declare hs hdeclare
  | none => exact hs

-- ---------------------------------------------------------------------------
-- Loops
-- ---------------------------------------------------------------------------

mutual

theorem bindPattern_agrees (hscope : scope < n) (value : Value) : (pattern : Pattern) →
    Agrees n (Checked.bindPattern scope value pattern) (bindPattern scope value pattern)
  | .ident ident => by
    simp only [Checked.bindPattern, bindPattern]
    exact declare_agrees hscope ident value
  | .object entries => by
    simp only [Checked.bindPattern, bindPattern]
    exact bindFields_agrees hscope value entries
  | .array items => by
    simp only [Checked.bindPattern, bindPattern]
    exact bindItems_agrees hscope value 0 items

theorem bindFields_agrees (hscope : scope < n) (value : Value) :
    (entries : List (Ident × Pattern)) →
    Agrees n (Checked.bindFields scope value entries) (bindFields scope value entries)
  | [] => by
    simp only [Checked.bindFields, bindFields]
    exact .pure _
  | (key, pattern) :: rest => by
    simp only [Checked.bindFields, bindFields]
    exact (bindPattern_agrees hscope _ pattern).bind fun _ => bindFields_agrees hscope value rest

theorem bindItems_agrees (hscope : scope < n) (value : Value) (index : Nat) :
    (items : List Pattern) →
    Agrees n (Checked.bindItems scope value index items) (bindItems scope value index items)
  | [] => by
    simp only [Checked.bindItems, bindItems]
    exact .pure _
  | pattern :: rest => by
    simp only [Checked.bindItems, bindItems]
    exact (bindPattern_agrees hscope _ pattern).bind fun _ => bindItems_agrees hscope value _ rest

end

theorem bindIteration_agrees (hscope : scope < n) (pattern : Pattern) (index : Option Ident)
    (item : Value) (count : Nat) :
    Agrees n (Checked.bindIteration scope pattern index item count)
      (bindIteration scope pattern index item count) := by
  refine (bindPattern_agrees hscope item pattern).bind fun _ => ?_
  cases index with
  | some ident => exact declare_agrees hscope ident _
  | none => exact .pure _

theorem iterate_agrees {checked : Value → Nat → Checked WalkState Unit}
    {body : Value → Nat → Walk Unit}
    (hbody : ∀ item count, Agrees n (checked item count) (body item count)) (count : Nat)
    (items : List Value) :
    Agrees n (Checked.iterate checked count items) (iterate body count items) := by
  induction items generalizing count with
  | nil => exact .pure _
  | cons item rest ih => exact (hbody item count).bind fun _ => ih _

-- ---------------------------------------------------------------------------
-- Tags
-- ---------------------------------------------------------------------------

section
variable (h : checked.Agrees site) (hscope : scope < n) (p : Placement) (tag : Tag)
include h hscope

theorem attributeValue_agrees (value : AttributeValue) :
    Agrees n (Checked.attributeValue checked scope value) (attributeValue site scope value) := by
  cases value with
  | flag => exact .pure _
  | literal text => exact .pure _
  | expression e => exact evaluate_agrees h hscope e

theorem attribute?_agrees (name : String) :
    Agrees n (Checked.attribute? checked scope tag name) (attribute? site scope tag name) := by
  unfold Checked.attribute? attribute?
  cases tag.attribute? name with
  | none => exact .pure _
  | some found => exact (attributeValue_agrees h hscope found.value).bind fun _ => .pure _

theorem textAttribute?_agrees (name : String) :
    Agrees n (Checked.textAttribute? checked scope tag name)
      (textAttribute? site scope tag name) := by
  refine (attribute?_agrees h hscope tag name).bind fun value => ?_
  cases value with
  | none => exact .pure _
  | some value => cases value <;> exact .pure _

theorem extraBindings_agrees (attributes : List Attribute) :
    Agrees n (Checked.extraBindings checked scope attributes)
      (extraBindings site scope attributes) := by
  induction attributes with
  | nil => exact .pure _
  | cons first rest ih =>
    obtain ⟨name, span, value⟩ := first
    simp only [Checked.extraBindings, extraBindings]
    split
    · exact ih
    · exact (attributeValue_agrees h hscope value).bind fun _ => ih.bind fun _ => .pure _

theorem messageRole_agrees (role : Option Role) :
    Agrees n (Checked.messageRole checked scope tag role) (messageRole site scope tag role) := by
  have hfree := StepClosed.leavesStanding site hscope
  cases role with
  | some role => exact .pure role
  | none =>
    refine (textAttribute?_agrees h hscope tag "role").bind fun name => ?_
    cases name with
    | none => exact .free (hfree.fail _ _)
    | some name =>
      dsimp only
      cases Role.ofName? name with
      | some role => exact .pure role
      | none => exact .free (hfree.fail _ _)

theorem toolId_agrees (role : Role) :
    Agrees n (Checked.toolId checked scope tag role) (toolId site scope tag role) := by
  have hfree := StepClosed.leavesStanding site hscope
  unfold Checked.toolId toolId
  split
  · refine (textAttribute?_agrees h hscope tag "id").bind fun id => ?_
    cases id with
    | some id => exact .pure _
    | none => exact .free (hfree.fail _ _)
  · exact .pure _

theorem walkMessage_agrees (role : Option Role) {inside : Placement → Checked WalkState Unit}
    {inside' : Placement → Walk Unit} (hinside : ∀ p, Agrees n (inside p) (inside' p)) :
    Agrees n (Checked.walkMessage checked p scope tag role inside)
      (walkMessage site p scope tag role inside') := by
  have hfree := StepClosed.leavesStanding site hscope
  refine .bind ?_ fun role => (hinside _).bind fun _ => .free (hfree.build .endMessage)
  refine (Agrees.free (hfree.located _ _)).bind fun _ => ?_
  refine (messageRole_agrees h hscope tag role).bind fun role => ?_
  refine (toolId_agrees h hscope tag role).bind fun id => ?_
  exact (Agrees.free (hfree.build (.beginMessage role id))).bind fun _ => .pure _

theorem openToolCall_agrees (isBlank : Bool) :
    Agrees n (Checked.openToolCall checked p scope tag isBlank)
      (openToolCall site p scope tag isBlank) := by
  have hfree := StepClosed.leavesStanding site hscope
  refine (Agrees.free (hfree.located _ _)).bind fun _ => ?_
  refine (textAttribute?_agrees h hscope tag "id").bind fun id => ?_
  cases id with
  | none => exact .free (hfree.fail _ _)
  | some id =>
    refine (textAttribute?_agrees h hscope tag "name").bind fun name => ?_
    cases name with
    | none => exact .free (hfree.fail _ _)
    | some name =>
      refine (Agrees.free (hfree.build .flushText)).bind fun _ => ?_
      refine (attribute?_agrees h hscope tag "arguments").bind fun value => ?_
      cases value with
      | none => exact .pure _
      | some value =>
        dsimp only
        split
        · exact (Agrees.free (hfree.located _ _)).bind fun _ => .pure _
        · exact .free (hfree.fail _ _)

theorem walkToolCall_agrees (isBlank : Bool) {inside : Placement → Checked WalkState Unit}
    {inside' : Placement → Walk Unit} (hinside : ∀ p, Agrees n (inside p) (inside' p)) :
    Agrees n (Checked.walkToolCall checked p scope tag isBlank inside)
      (walkToolCall site p scope tag isBlank inside') := by
  have hfree := StepClosed.leavesStanding site hscope
  refine (openToolCall_agrees h hscope p tag isBlank).bind fun call => ?_
  cases call.arguments with
  | some arguments => exact .free (hfree.build (.pushBlock _))
  | none => exact (hinside _).bind fun _ => .free (hfree.closeToolCall _ _ _)

omit h in
theorem walkContent_agrees (site : Site Compiler) (kind : Option ContentKind)
    {inside : Placement → Checked WalkState Unit} {inside' : Placement → Walk Unit}
    (hinside : ∀ p, Agrees n (inside p) (inside' p)) :
    Agrees n (Checked.walkContent p tag kind inside) (walkContent p tag kind inside') := by
  have hfree := StepClosed.leavesStanding site hscope
  refine .bind (.free (hfree.openContent p tag kind)) fun kind => ?_
  exact (hinside _).bind fun _ => .free (hfree.closeContent kind)

omit h hscope in
theorem resolve_agrees (answer : History → String → Except HostError String) (span : Span)
    (prompt : String) :
    Agrees n (Checked.free (resolve answer span prompt)) (resolve answer span prompt) := by
  refine .free (.of_scopes fun s => ?_)
  rw [run_resolve]
  rfl

/-- The prompt is entered by both or by neither, so both go on alike. -/
theorem walkReference_agrees (isBlank : Bool) :
    Agrees n (Checked.walkReference checked p scope tag isBlank)
      (walkReference site p scope tag isBlank) := by
  have hfree := StepClosed.leavesStanding site hscope
  simp only [Checked.walkReference, Checked.openReference, walkReference, openReference, bind_assoc,
    h.host]
  refine (Agrees.free (hfree.located _ _)).bind fun _ => ?_
  refine (Agrees.free (hfree.promptName tag)).bind fun prompt => ?_
  refine (Agrees.free (hfree.located _ _)).bind fun _ => ?_
  cases site.host.resolve? with
  | none => exact .free (hfree.fail _ _)
  | some answer =>
    -- What entering gives is of another type with checks, so the rest is compared without it.
    have henter := h.enter prompt
    revert henter
    generalize checked.enter prompt = entered, site.enter prompt = entered'
    rintro (@⟨compiler, compiler', hcompiler⟩ | cause)
    · have hget : Agrees n (Checked.onFrame scope get) (get : Walk WalkState) :=
        .onFrame hscope (.of_scopes fun _ => rfl)
      simp only [located_of_ok, Checked.free_pure, bind_assoc, pure_bind]
      refine hget.bind fun state => ?_
      refine (extraBindings_agrees h hscope tag.attributes).bind fun extra => ?_
      refine (resolve_agrees answer tag.span prompt).bind fun source => ?_
      refine (compileNested_agrees (hcompiler source _)).bind fun result => ?_
      cases result with
      | ok conversation => exact .free (hfree.build (.extend _))
      | error error => exact .free (hfree.fail _ _)
    · exact .free (hfree.fail _ _)

end

-- ---------------------------------------------------------------------------
-- The walk
-- ---------------------------------------------------------------------------

mutual

theorem walk_agrees (h : checked.Agrees site) (p : Placement) {n scope : Nat} (hscope : scope < n) :
    (node : Node) → Agrees n (Checked.walk checked p scope node) (walk site p scope node)
  | .config _ _ => by
    simp only [Checked.walk, walk]
    exact .free ((StepClosed.leavesStanding site hscope).fail _ _)
  | .text _ value => by
    simp only [Checked.walk, walk]
    exact .free ((StepClosed.leavesStanding site hscope).build (.pushText value))
  | .mustache _ e => by
    simp only [Checked.walk, walk]
    refine (evaluate_agrees h hscope e).bind fun value => ?_
    split
    · exact .free ((StepClosed.leavesStanding site hscope).build (.pushText _))
    · exact .pure _
  | .ifBlock _ condition consequent alternates => by
    simp only [Checked.walk, walk]
    refine (evaluate_agrees h hscope condition).bind fun value => ?_
    split
    · exact inFrame_agrees hscope (walkAll_agrees h p (Nat.lt_succ_self n) consequent)
    · exact walkAlternates_agrees h p hscope alternates
  | .eachBlock _ iterable item index body fallback => by
    simp only [Checked.walk, walk]
    refine (evaluate_agrees h hscope iterable).bind fun value => ?_
    cases value.loopItems with
    | nil => exact walkFallback_agrees h p hscope fallback
    | cons first rest =>
      refine iterate_agrees (fun value count => inFrame_agrees hscope ?_) 0 _
      exact (bindIteration_agrees (Nat.lt_succ_self n) item index value count).bind fun _ =>
        walkAll_agrees h p (Nat.lt_succ_self n) body
  | .tag tag children => by
    have hinside (p : Placement) := walkAll_agrees h p hscope children
    simp only [Checked.walk, walk]
    cases tag.kind with
    | message role => exact walkMessage_agrees h hscope p tag role hinside
    | content kind => exact walkContent_agrees hscope p tag site kind hinside
    | toolCall => exact walkToolCall_agrees h hscope p tag _ hinside
    | reference => exact walkReference_agrees h hscope p tag _
    | generic => exact .free ((StepClosed.leavesStanding site hscope).fail _ _)

theorem walkAll_agrees (h : checked.Agrees site) (p : Placement) {n scope : Nat}
    (hscope : scope < n) : (nodes : List Node) →
    Agrees n (Checked.walkAll checked p scope nodes) (walkAll site p scope nodes)
  | [] => by
    simp only [Checked.walkAll, walkAll]
    exact .pure _
  | node :: rest => by
    simp only [Checked.walkAll, walkAll]
    exact (walk_agrees h p hscope node).bind fun _ => walkAll_agrees h p hscope rest

theorem walkAlternates_agrees (h : checked.Agrees site) (p : Placement) {n scope : Nat}
    (hscope : scope < n) : (alternates : List Alternate) →
    Agrees n (Checked.walkAlternates checked p scope alternates)
      (walkAlternates site p scope alternates)
  | [] => by
    simp only [Checked.walkAlternates, walkAlternates]
    exact .pure _
  | .elseIf condition body :: rest => by
    simp only [Checked.walkAlternates, walkAlternates]
    refine (evaluate_agrees h hscope condition).bind fun value => ?_
    split
    · exact inFrame_agrees hscope (walkAll_agrees h p (Nat.lt_succ_self n) body)
    · exact walkAlternates_agrees h p hscope rest
  | .otherwise body :: _ => by
    simp only [Checked.walkAlternates, walkAlternates]
    exact inFrame_agrees hscope (walkAll_agrees h p (Nat.lt_succ_self n) body)

theorem walkFallback_agrees (h : checked.Agrees site) (p : Placement) {n scope : Nat}
    (hscope : scope < n) : (fallback : Option (List Node)) →
    Agrees n (Checked.walkFallback checked p scope fallback) (walkFallback site p scope fallback)
  | none => by
    simp only [Checked.walkFallback, walkFallback]
    exact .pure _
  | some body => by
    simp only [Checked.walkFallback, walkFallback]
    exact inFrame_agrees hscope (walkAll_agrees h p (Nat.lt_succ_self n) body)

end

-- ---------------------------------------------------------------------------
-- Documents
-- ---------------------------------------------------------------------------

/-- Compiling starts in a tree of one frame, the root. -/
theorem compileParsed_agrees (h : checked.Agrees site) (document : Document)
    (bindings : Dict Value) (history : History) :
    Checked.compileParsed document checked bindings history =
      some (document.compile site bindings history) := by
  have hwalk := walkAll_agrees h .outermost (Nat.lt_succ_self ScopeTree.root) document.split.2
  have hsame := hwalk.same ⟨⟨.ofBindings bindings, history⟩, .empty⟩ (.ofBindings bindings)
  simp only [Checked.compileParsed, Checked.compileNodes, hsame, Option.map_some]
  rfl

theorem compileDocument_agrees (host : Host) {enter : String → Except Cause CheckedCompiler}
    {enter' : String → Except Cause Compiler}
    (h : ∀ prompt, EnteredAlike (enter prompt) (enter' prompt)) :
    (Checked.compileDocument host enter).Agrees (compileDocument host enter') := by
  intro source bindings history
  unfold Checked.compileDocument compileDocument
  cases parseDocument source with
  | error error => rfl
  | ok document => exact compileParsed_agrees ⟨rfl, rfl, h⟩ document bindings history

theorem enterPrompt_agrees (host : Host) (room : Nat) (prompts : List String) (prompt : String) :
    EnteredAlike (Checked.enterPrompt host room prompts prompt)
      (enterPrompt host room prompts prompt) := by
  induction room generalizing prompts prompt with
  | zero => exact .error _
  | succ room ih =>
    unfold Checked.enterPrompt enterPrompt
    split
    · exact .error _
    · exact .ok (compileDocument_agrees host (ih _))

theorem compile_agrees (context : Context) (source : String) :
    Checked.compile context source = some (compile context source) :=
  compileDocument_agrees context.host (enterPrompt_agrees context.host context.depth []) source
    context.bindings []

-- ---------------------------------------------------------------------------
-- Numbers of frames are valid
-- ---------------------------------------------------------------------------

/-- A site without checks in what it refers to. -/
def Site.unchecked (site : Site Compiler) : Site CheckedCompiler where
  source := site.source
  host := site.host
  enter prompt := (site.enter prompt).map fun compiler source bindings history =>
    some (compiler source bindings history)

theorem Site.unchecked_agrees (site : Site Compiler) : site.unchecked.Agrees site where
  source := rfl
  host := rfl
  enter prompt := by
    show EnteredAlike ((site.enter prompt).map _) (site.enter prompt)
    cases site.enter prompt with
    | ok compiler => exact .ok fun _ _ _ => rfl
    | error cause => exact .error cause

/-- Compiling does what it does with a check in front of each operation that is given a frame: that
there is a frame of this number, and that every frame but the root has a parent of a lower number
than its own. Where that is not so, there is no outcome. Nodes, branches and loops leave the frames
as many as they found them, however they end. From a frame that is there the walk to the root ends,
passes frames that are there, and finds all names in these. -/
theorem scope_ids_valid (context : Context) (source : String) :
    Checked.compile context source = some (compile context source) ∧
    (∀ (t : ScopeTree) (scope : ScopeId), t.admits scope = true ↔
      scope < t.frames.length ∧ ∀ id frame, t.frame? id = some frame →
        (∀ parent, frame.parent = some parent → parent < id) ∧
          (frame.parent = none → id = ScopeTree.root)) ∧
    (∀ (scope : ScopeId) (s : WalkState), s.store.scopes.admits scope = false →
      (∀ {α : Type} (m : Walk α), Checked.onFrame scope m s = none) ∧
        ∀ body, Checked.inFrame scope body s = none) ∧
    (∀ (site : Site Compiler) (p : Placement) {n scope : Nat}, scope < n →
      (∀ nodes, LeavesStanding n (walkAll site p scope nodes)) ∧
      (∀ nodes, LeavesStanding n (inFrame scope fun inner => walkAll site p inner nodes)) ∧
      ∀ span iterable item index body fallback,
        LeavesStanding n (walk site p scope (.eachBlock span iterable item index body fallback))) ∧
    ∀ (t : ScopeTree) (scope : ScopeId), t.admits scope = true →
      ∃ chain, ScopeTree.Chain t.frames scope chain ∧
        (∀ name, t.owner? scope name = chain.findSome? (ScopeTree.held? name)) ∧
        t.snapshot scope =
          chain.foldr (fun passed outer => Dict.putAll outer passed.2.bindings) [] := by
  refine ⟨compile_agrees context source, fun _ _ => ScopeTree.admits_iff, fun scope s h => ?_,
    fun site p n scope hscope => ?_, fun t scope h => ?_⟩
  · have hcheck : ¬ s.store.scopes.admits scope = true := by simp [h]
    exact ⟨fun _ => if_neg hcheck, fun _ => if_neg hcheck⟩
  · have hsite := site.unchecked_agrees
    refine ⟨fun nodes => ?_, fun nodes => ?_, fun span iterable item index body fallback => ?_⟩
    · exact (walkAll_agrees hsite p hscope nodes).leaves
    · have hbranch : Agrees n
          (Checked.inFrame scope fun inner => Checked.walkAll site.unchecked p inner nodes)
          (inFrame scope fun inner => walkAll site p inner nodes) :=
        inFrame_agrees hscope (walkAll_agrees hsite p (Nat.lt_succ_self n) nodes)
      exact hbranch.leaves
    · exact (walk_agrees hsite p hscope _).leaves
  · rw [ScopeTree.admits, Bool.and_eq_true, decide_eq_true_eq] at h
    exact ScopeTree.exists_chain h.2 h.1

/-- A block that reads a name of the root, and the frames from which it is read. -/
theorem scope_ids_valid_nested :
    let context : Context := ⟨[("name", .string "root")], standardHost none, 0⟩
    let source := "\x7b#if name\x7d\x7bname\x7d\x7b/if\x7d"
    let t : ScopeTree := ((ScopeTree.ofBindings context.bindings).enter ScopeTree.root).2
    let site : Site Compiler :=
      ⟨source, context.host, fun prompt => .error (.referenceCycle prompt)⟩
    let after := walkAll site .outermost 1 [.text ⟨0, 0, 1, 1⟩ "a"] ⟨⟨t, []⟩, .empty⟩
    Checked.compile context source = some (compile context source) ∧
      ScopeTree.Stands 2 t ∧ ScopeTree.Stands 2 after.2.store.scopes ∧
      t.admits 1 = true ∧
      ∃ chain, ScopeTree.Chain t.frames 1 chain ∧
        t.owner? 1 "name" = chain.findSome? (ScopeTree.held? "name") := by
  intro context source t site after
  obtain ⟨hcompile, -, -, hleaves, hchain⟩ := scope_ids_valid context source
  have hstands : ScopeTree.Stands 2 t := ⟨rfl, rfl⟩
  have hadmits : t.admits 1 = true := hstands.admits (by decide)
  obtain ⟨chain, hwalk, howner, -⟩ := hchain t 1 hadmits
  have hafter := (hleaves site .outermost (by decide : 1 < 2)).1 [.text ⟨0, 0, 1, 1⟩ "a"]
  exact ⟨hcompile, hstands, hafter _ hstands, hadmits, chain, hwalk, howner "name"⟩

end PromptTemplate
