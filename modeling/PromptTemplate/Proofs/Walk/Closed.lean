import PromptTemplate.Compile

/-!
# Properties of every walk

What holds of the steps of a walk at every placement and in every frame, and
is kept by sequencing and by frames, holds of the walk through any node
(`walk_closed`). A tag may take the placement of what is inside it from the
walk there, and a block its frame; the rest of the walk stays at one
placement and in one frame. What holds of
compiling a document if it holds of the documents referred to holds of
compiling any document (`compileWithin_induction`).
-/

namespace PromptTemplate

/-- `P` holds of the steps of a walk at a placement and in a frame, if it holds
of the walks inside them. -/
structure WalkClosed (site : Site Compiler)
    (P : Placement → ScopeId → {α : Type} → Walk α → Prop) : Prop where
  pure : ∀ p scope {α : Type} (a : α), P p scope (pure a : Walk α)
  bind : ∀ p scope {α β : Type} {m : Walk α} {f : α → Walk β},
    P p scope m → (∀ a, P p scope (f a)) → P p scope (m >>= f)
  fail : ∀ p scope {α : Type} (cause : Cause) (span : Span),
    P p scope (Walk.fail cause span : Walk α)
  pushText : ∀ p scope text, P p scope (Walk.build (·.pushText text))
  evaluate : ∀ p scope e, P p scope (Walk.evaluate site scope e)
  declare : ∀ p scope ident value, P p scope (declare scope ident value)
  inFrame : ∀ p parent body, (∀ scope, P p scope (body scope)) →
    P p parent (Walk.inFrame parent body)
  message : ∀ p scope tag role inside,
    (∀ role, P (p.insideMessage role) scope (inside (p.insideMessage role))) →
      P p scope (walkMessage site p scope tag role inside)
  content : ∀ p scope tag kind inside, P p.insideContent scope (inside p.insideContent) →
    P p scope (walkContent p tag kind inside)
  toolCall : ∀ p scope tag isBlank inside, P p.insideToolCall scope (inside p.insideToolCall) →
    P p scope (walkToolCall site p scope tag isBlank inside)
  reference : ∀ p scope tag isBlank, P p scope (walkReference site p scope tag isBlank)

/-- `P` holds of declaring in one frame, and sequencing keeps it. -/
structure DeclareClosed (scope : ScopeId) (P : {α : Type} → Walk α → Prop) : Prop where
  pure : ∀ {α : Type} (a : α), P (pure a : Walk α)
  bind : ∀ {α β : Type} {m : Walk α} {f : α → Walk β}, P m → (∀ a, P (f a)) → P (m >>= f)
  declare : ∀ ident value, P (declare scope ident value)

namespace DeclareClosed

variable {scope : ScopeId} {P : {α : Type} → Walk α → Prop}

mutual

theorem pattern (hP : DeclareClosed scope P) (value : Value) :
    (pattern : Pattern) → P (bindPattern scope value pattern)
  | .ident ident => by
    simp only [bindPattern]
    exact hP.declare ident value
  | .object entries => by
    simp only [bindPattern]
    exact hP.fields value entries
  | .array items => by
    simp only [bindPattern]
    exact hP.items value 0 items

theorem fields (hP : DeclareClosed scope P) (value : Value) :
    (entries : List (Ident × Pattern)) → P (bindFields scope value entries)
  | [] => by
    simp only [bindFields]
    exact hP.pure _
  | (key, pattern) :: rest => by
    simp only [bindFields]
    exact hP.bind (hP.pattern _ pattern) fun _ => hP.fields value rest

theorem items (hP : DeclareClosed scope P) (value : Value) (index : Nat) :
    (items : List Pattern) → P (bindItems scope value index items)
  | [] => by
    simp only [bindItems]
    exact hP.pure _
  | pattern :: rest => by
    simp only [bindItems]
    exact hP.bind (hP.pattern _ pattern) fun _ => hP.items value _ rest

end

theorem iteration (hP : DeclareClosed scope P) (pattern : Pattern)
    (index : Option Ident) (item : Value) (count : Nat) :
    P (bindIteration scope pattern index item count) := by
  unfold bindIteration
  refine hP.bind (hP.pattern item pattern) fun _ => ?_
  split
  · exact hP.declare _ _
  · exact hP.pure _

end DeclareClosed

namespace WalkClosed

variable {site : Site Compiler} {P : Placement → ScopeId → {α : Type} → Walk α → Prop}

theorem declareClosed (hP : WalkClosed site P) (p : Placement) (scope : ScopeId) :
    DeclareClosed scope (P p scope) where
  pure := hP.pure p scope
  bind := hP.bind p scope
  declare := hP.declare p scope

theorem iterate (hP : WalkClosed site P) (p : Placement) (scope : ScopeId)
    (body : Value → Nat → Walk Unit) (hbody : ∀ value count, P p scope (body value count))
    (count : Nat) (values : List Value) : P p scope (iterate body count values) := by
  induction values generalizing count with
  | nil => exact hP.pure p scope _
  | cons value rest ih => exact hP.bind p scope (hbody value count) fun _ => ih _

end WalkClosed

mutual

theorem walk_closed (hP : WalkClosed site P) (p : Placement) (scope : ScopeId) :
    (node : Node) → P p scope (walk site p scope node)
  | .config _ _ => by
    simp only [walk]
    exact hP.fail p scope _ _
  | .text _ value => by
    simp only [walk]
    exact hP.pushText p scope value
  | .mustache _ e => by
    simp only [walk]
    refine hP.bind p scope (hP.evaluate p scope e) fun value => ?_
    split
    · exact hP.pushText p scope _
    · exact hP.pure p scope _
  | .ifBlock _ condition consequent alternates => by
    simp only [walk]
    refine hP.bind p scope (hP.evaluate p scope condition) fun value => ?_
    split
    · exact hP.inFrame p scope _ fun inner => walkAll_closed hP p inner consequent
    · exact walkAlternates_closed hP p scope alternates
  | .eachBlock _ iterable item index body fallback => by
    simp only [walk]
    refine hP.bind p scope (hP.evaluate p scope iterable) fun value => ?_
    split
    · exact walkFallback_closed hP p scope fallback
    · refine hP.iterate p scope _ (fun value count => hP.inFrame p scope _ fun inner => ?_) _ _
      exact hP.bind p inner ((hP.declareClosed p inner).iteration item index value count)
        fun _ => walkAll_closed hP p inner body
  | .tag tag children => by
    simp only [walk]
    split
    · exact hP.message p scope tag _ _ fun role => walkAll_closed hP _ scope children
    · exact hP.content p scope tag _ _ (walkAll_closed hP _ scope children)
    · exact hP.toolCall p scope tag _ _ (walkAll_closed hP _ scope children)
    · exact hP.reference p scope tag _
    · exact hP.fail p scope _ _

theorem walkAll_closed (hP : WalkClosed site P) (p : Placement) (scope : ScopeId) :
    (nodes : List Node) → P p scope (walkAll site p scope nodes)
  | [] => by
    simp only [walkAll]
    exact hP.pure p scope _
  | node :: rest => by
    simp only [walkAll]
    exact hP.bind p scope (walk_closed hP p scope node) fun _ => walkAll_closed hP p scope rest

theorem walkAlternates_closed (hP : WalkClosed site P) (p : Placement) (scope : ScopeId) :
    (alternates : List Alternate) → P p scope (walkAlternates site p scope alternates)
  | [] => by
    simp only [walkAlternates]
    exact hP.pure p scope _
  | .elseIf condition body :: rest => by
    simp only [walkAlternates]
    refine hP.bind p scope (hP.evaluate p scope condition) fun value => ?_
    split
    · exact hP.inFrame p scope _ fun inner => walkAll_closed hP p inner body
    · exact walkAlternates_closed hP p scope rest
  | .otherwise body :: _ => by
    simp only [walkAlternates]
    exact hP.inFrame p scope _ fun inner => walkAll_closed hP p inner body

theorem walkFallback_closed (hP : WalkClosed site P) (p : Placement) (scope : ScopeId) :
    (fallback : Option (List Node)) → P p scope (walkFallback site p scope fallback)
  | none => by
    simp only [walkFallback]
    exact hP.pure p scope _
  | some body => by
    simp only [walkFallback]
    exact hP.inFrame p scope _ fun inner => walkAll_closed hP p inner body

end

/-! ## Documents -/

section

variable {host : Host} {P : Compiler → Prop}
  (step : ∀ enter : String → Except Cause Compiler,
    (∀ prompt compile, enter prompt = .ok compile → P compile) → P (compileDocument host enter))

include step

theorem enterPrompt_induction (room : Nat) (prompts : List String) (prompt : String)
    (compile : Compiler) (h : enterPrompt host room prompts prompt = .ok compile) : P compile := by
  induction room generalizing prompts prompt compile with
  | zero => simp [enterPrompt] at h
  | succ room ih =>
    simp only [enterPrompt] at h
    split at h
    · cases h
    · cases h
      exact step _ (ih _)

theorem compileWithin_induction (depth : Nat) (prompts : List String) :
    P (compileWithin host depth prompts) :=
  step _ (enterPrompt_induction step _ _)

end

/-! ## The steps of a walk

Reading the attributes of a tag is made of evaluation, and opening and
closing a tag of that and of changes to the builder. A property of these
that sequencing keeps holds of every such step, and of every walk if
declaring, frames and references have it too (`StepClosed.walkClosed`). -/

/-- What a walk may do to the builder, but for taking its text. -/
inductive Builder.Change : (Builder → Builder) → Prop
  | pushText (text : String) : Change (·.pushText text)
  | flushText : Change Builder.flushText
  | pushBlock (block : Block) : Change (·.pushBlock block)
  | beginMessage (role : Role) (toolId : Option String) : Change (·.beginMessage role toolId)
  | endMessage : Change Builder.endMessage
  | extend (messages : List Message) : Change (·.extend messages)

/-- `P` holds of the operations that reading attributes in a frame is made of. -/
structure ReadClosed {γ : Type} (site : Site γ) (scope : ScopeId)
    (P : {α : Type} → Walk α → Prop) : Prop where
  pure : ∀ {α : Type} (a : α), P (pure a : Walk α)
  bind : ∀ {α β : Type} {m : Walk α} {f : α → Walk β}, P m → (∀ a, P (f a)) → P (m >>= f)
  fail : ∀ {α : Type} (cause : Cause) (span : Span), P (Walk.fail cause span : Walk α)
  evaluate : ∀ e, P (Walk.evaluate site scope e)

structure StepClosed {γ : Type} (site : Site γ) (scope : ScopeId)
    (P : {α : Type} → Walk α → Prop) : Prop extends ReadClosed site scope P where
  build : ∀ {change}, Builder.Change change → P (Walk.build change)
  takeText : P Walk.takeText

variable {γ : Type} {site : Site γ} {scope : ScopeId} {P : {α : Type} → Walk α → Prop}

/-! ### Attributes -/

namespace ReadClosed

theorem located (hP : ReadClosed site scope P) (span : Span) (x : Except Cause α) :
    P (Walk.located span x) := by
  cases x with
  | ok a => exact hP.pure a
  | error cause => exact hP.fail cause span

theorem attributeValue (hP : ReadClosed site scope P) (value : AttributeValue) :
    P (attributeValue site scope value) := by
  cases value with
  | flag => exact hP.pure _
  | literal text => exact hP.pure _
  | expression e => exact hP.evaluate e

theorem attribute? (hP : ReadClosed site scope P) (tag : Tag) (name : String) :
    P (attribute? site scope tag name) := by
  unfold PromptTemplate.attribute?
  split
  · exact hP.bind (hP.attributeValue _) fun _ => hP.pure _
  · exact hP.pure _

theorem textAttribute? (hP : ReadClosed site scope P) (tag : Tag) (name : String) :
    P (textAttribute? site scope tag name) := by
  unfold PromptTemplate.textAttribute?
  refine hP.bind (hP.attribute? tag name) fun value => ?_
  split <;> exact hP.pure _

theorem messageRole (hP : ReadClosed site scope P) (tag : Tag) (role : Option Role) :
    P (messageRole site scope tag role) := by
  cases role with
  | some role => exact hP.pure role
  | none =>
    refine hP.bind (hP.textAttribute? tag "role") fun name => ?_
    split
    · exact hP.fail _ _
    · split
      · exact hP.pure _
      · exact hP.fail _ _

theorem toolId (hP : ReadClosed site scope P) (tag : Tag) (role : Role) :
    P (toolId site scope tag role) := by
  unfold PromptTemplate.toolId
  split
  · refine hP.bind (hP.textAttribute? tag "id") fun id => ?_
    split
    · exact hP.pure _
    · exact hP.fail _ _
  · exact hP.pure _

theorem contentKind (hP : ReadClosed site scope P) (tag : Tag) (kind : Option ContentKind) :
    P (contentKind tag kind) := by
  unfold PromptTemplate.contentKind
  split
  · exact hP.pure _
  · split
    · exact hP.pure _
    · dsimp only
      split
      · exact hP.pure _
      · exact hP.fail _ _

theorem promptName (hP : ReadClosed site scope P) (tag : Tag) : P (promptName tag) := by
  unfold PromptTemplate.promptName
  split
  · exact hP.pure _
  · exact hP.fail _ _

theorem extraBindings (hP : ReadClosed site scope P) (attributes : List Attribute) :
    P (extraBindings site scope attributes) := by
  induction attributes with
  | nil => exact hP.pure _
  | cons first rest ih =>
    obtain ⟨name, span, value⟩ := first
    unfold PromptTemplate.extraBindings
    split
    · exact ih
    · exact hP.bind (hP.attributeValue value) fun _ => hP.bind ih fun _ => hP.pure _

end ReadClosed

/-! ### Tags -/

namespace StepClosed

theorem openMessage (hP : StepClosed site scope P) (placement : Placement) (tag : Tag)
    (role : Option Role) : P (openMessage site placement scope tag role) := by
  unfold PromptTemplate.openMessage
  refine hP.bind (hP.located _ _) fun _ => ?_
  refine hP.bind (hP.messageRole tag role) fun role => ?_
  refine hP.bind (hP.toolId tag role) fun id => ?_
  exact hP.bind (hP.build (.beginMessage role id)) fun _ => hP.pure _

theorem openContent (hP : StepClosed site scope P) (placement : Placement) (tag : Tag)
    (kind : Option ContentKind) : P (openContent placement tag kind) := by
  unfold PromptTemplate.openContent
  refine hP.bind (hP.located _ _) fun _ => hP.bind (hP.contentKind tag kind) fun kind => ?_
  exact hP.bind (hP.build .flushText) fun _ => hP.pure _

theorem closeContent (hP : StepClosed site scope P) (kind : ContentKind) : P (closeContent kind) := by
  cases kind with
  | text => exact hP.build .flushText
  | image => exact hP.bind hP.takeText fun text => hP.build (.pushBlock (.image (Text.trim text)))

theorem openToolCall (hP : StepClosed site scope P) (placement : Placement)
    (tag : Tag) (isBlank : Bool) : P (openToolCall site placement scope tag isBlank) := by
  unfold PromptTemplate.openToolCall
  refine hP.bind (hP.located _ _) fun _ => ?_
  refine hP.bind (hP.textAttribute? tag "id") fun id => ?_
  cases id with
  | none => exact hP.fail _ _
  | some id =>
    refine hP.bind (hP.textAttribute? tag "name") fun name => ?_
    cases name with
    | none => exact hP.fail _ _
    | some name =>
      refine hP.bind (hP.build .flushText) fun _ => ?_
      refine hP.bind (hP.attribute? tag "arguments") fun value => ?_
      cases value with
      | none => exact hP.pure _
      | some value =>
        dsimp only
        split
        · exact hP.bind (hP.located _ _) fun _ => hP.pure _
        · exact hP.fail _ _

theorem closeToolCall (hP : StepClosed site scope P) (span : Span) (id name : String) :
    P (closeToolCall span id name) := by
  refine hP.bind hP.takeText fun text => ?_
  exact hP.bind (hP.located _ _) fun json => hP.build (.pushBlock (.toolCall id name json))

end StepClosed

/-- Placements do not matter to what all steps have. -/
theorem StepClosed.walkClosed {site : Site Compiler} {P : ScopeId → {α : Type} → Walk α → Prop}
    (hP : ∀ scope, StepClosed site scope (P scope))
    (hdeclare : ∀ scope ident value, P scope (declare scope ident value))
    (hframe : ∀ parent body, (∀ scope, P scope (body scope)) → P parent (Walk.inFrame parent body))
    (hreference : ∀ p scope tag isBlank, P scope (walkReference site p scope tag isBlank)) :
    WalkClosed site fun _ => P where
  pure _ scope := (hP scope).pure
  bind _ scope := (hP scope).bind
  fail _ scope := (hP scope).fail
  pushText _ scope text := (hP scope).build (.pushText text)
  evaluate _ scope := (hP scope).evaluate
  declare _ := hdeclare
  inFrame _ := hframe
  message p scope tag role inside h := by
    unfold walkMessage
    refine (hP scope).bind ((hP scope).openMessage p tag role) fun role => ?_
    exact (hP scope).bind (h role) fun _ => (hP scope).build .endMessage
  content p scope tag kind inside h := by
    unfold walkContent
    refine (hP scope).bind ((hP scope).openContent p tag kind) fun kind => ?_
    exact (hP scope).bind h fun _ => (hP scope).closeContent kind
  toolCall p scope tag isBlank inside h := by
    unfold walkToolCall
    refine (hP scope).bind ((hP scope).openToolCall p tag isBlank) fun call => ?_
    split
    · exact (hP scope).build (.pushBlock _)
    · exact (hP scope).bind h fun _ => (hP scope).closeToolCall _ _ _
  reference := hreference

end PromptTemplate
