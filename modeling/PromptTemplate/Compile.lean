import PromptTemplate.Conversation.Builder
import PromptTemplate.Eval
import PromptTemplate.Json.Reader
import PromptTemplate.Node.Parser
import PromptTemplate.Placement

/-!
# Compiling prompts

A document is walked from front to end. Text and values go to the builder, blocks choose what is
walked in a frame of its own, and tags say what the text becomes. A reference compiles another
document, whose text the host provides, with the bindings visible at the tag, and takes over its
messages. How deep references may nest is a number that goes down with every one of them, which is
why a compile ends.
-/

namespace PromptTemplate

abbrev Compile := ExceptT CompileError (StateM History)

abbrev Compiler := (source : String) → (bindings : Dict Value) → Compile Conversation

structure WalkState where
  store : Store
  builder : Builder

abbrev Walk := ExceptT CompileError (StateM WalkState)

/-- What is the same everywhere in one document. `enter` gives what it takes to go on with a
referenced prompt, or tells why that may not be entered. -/
structure Site (γ : Type) where
  source : String
  host : Host
  enter : String → Except Cause γ

namespace Walk

def fail {α : Type} (cause : Cause) (span : Span) : Walk α := throw ⟨cause, span⟩

def located {α : Type} (span : Span) : Except Cause α → Walk α
  | .ok a => pure a
  | .error cause => fail cause span

def build (change : Builder → Builder) : Walk Unit :=
  modify fun state => { state with builder := change state.builder }

def takeText : Walk String := do
  let (text, builder) := (← get).builder.takeText
  modify fun state => { state with builder }
  return text

def evaluate {γ : Type} (site : Site γ) (scope : ScopeId) (e : Expr) : Walk Value := fun state =>
  let (result, store) := PromptTemplate.eval ⟨site.source, site.host, scope⟩ e state.store
  (result, { state with store })

def changeScopes (change : ScopeTree → ScopeTree) : Walk Unit :=
  modify fun state =>
    { state with store := { state.store with scopes := change state.store.scopes } }

/-- Runs in a new frame inside `parent`, which ends with the run, also when the run fails. -/
def inFrame (parent : ScopeId) (body : ScopeId → Walk Unit) : Walk Unit := fun state =>
  let (scope, scopes) := state.store.scopes.enter parent
  let (result, after) := body scope { state with store := { state.store with scopes } }
  (result, { after with store := { after.store with scopes := after.store.scopes.exit scope } })

/-- Compiles another document, which has scopes and a builder of its own. -/
def compileNested (compile : Compile Conversation) : Walk (Except CompileError Conversation) :=
  fun state =>
    let (result, history) := compile.run state.store.history
    (.ok result, { state with store := { state.store with history } })

end Walk

open Walk

variable {γ : Type}

/-! ## Loops -/

def declare (scope : ScopeId) (ident : Ident) (value : Value) : Walk Unit := do
  match (← get).store.scopes.declare? scope ident.name value with
  | some scopes => changeScopes fun _ => scopes
  | none => fail (.alreadyDeclared ident.name) ident.span

/-- The field of an object, null if it has none or is no object. -/
def Value.fieldOrNull (value : Value) (name : String) : Value :=
  match value with
  | .object fields => (Dict.get? fields name).getD .null
  | _ => .null

/-- The item of an array, null if it has none or is no array. -/
def Value.itemOrNull (value : Value) (index : Nat) : Value :=
  match value with
  | .array items => items[index]?.getD .null
  | _ => .null

mutual

/-- Declares the names of a pattern, each with its part of the value. -/
def bindPattern (scope : ScopeId) (value : Value) : Pattern → Walk Unit
  | .ident ident => declare scope ident value
  | .object entries => bindFields scope value entries
  | .array items => bindItems scope value 0 items

def bindFields (scope : ScopeId) (value : Value) : List (Ident × Pattern) → Walk Unit
  | [] => return
  | (key, pattern) :: rest => do
    bindPattern scope (value.fieldOrNull key.name) pattern
    bindFields scope value rest

def bindItems (scope : ScopeId) (value : Value) (index : Nat) : List Pattern → Walk Unit
  | [] => return
  | pattern :: rest => do
    bindPattern scope (value.itemOrNull index) pattern
    bindItems scope value (index + 1) rest

end

def bindIteration (scope : ScopeId) (pattern : Pattern) (index : Option Ident) (item : Value)
    (count : Nat) : Walk Unit := do
  bindPattern scope item pattern
  match index with
  | some ident => declare scope ident (Value.countToNumber count)
  | none => return

def iterate (body : Value → Nat → Walk Unit) : (count : Nat) → List Value → Walk Unit
  | _, [] => return
  | count, item :: rest => do
    body item count
    iterate body (count + 1) rest

def Value.loopItems : Value → List Value
  | .array items => items
  | _ => []

/-! ## Attributes -/

def attributeValue (site : Site γ) (scope : ScopeId) : AttributeValue → Walk Value
  | .flag => return .bool true
  | .literal text => return .string text
  | .expression value => evaluate site scope value

def attribute? (site : Site γ) (scope : ScopeId) (tag : Tag) (name : String) :
    Walk (Option Value) := do
  match tag.attribute? name with
  | some found => return some (← attributeValue site scope found.value)
  | none => return none

/-- An attribute as text. Null is as good as no attribute. -/
def textAttribute? (site : Site γ) (scope : ScopeId) (tag : Tag) (name : String) :
    Walk (Option String) := do
  match ← attribute? site scope tag name with
  | none => return none
  | some .null => return none
  | some value => return some value.render

/-! ## Tags

A tag is opened, which checks its placement and its attributes, and closed after what is inside it.
The walk through the inside is given as a function of the placement there. -/

def messageRole (site : Site γ) (scope : ScopeId) (tag : Tag) : Option Role → Walk Role
  | some role => return role
  | none => do
    match ← textAttribute? site scope tag "role" with
    | none => fail .messageWithoutRole tag.span
    | some name =>
      match Role.ofName? name with
      | some role => return role
      | none => fail (.invalidMessageRole name) tag.span

/-- The id that a tool message must have, and no other message has. -/
def toolId (site : Site γ) (scope : ScopeId) (tag : Tag) (role : Role) : Walk (Option String) := do
  if role = .tool then
    match ← textAttribute? site scope tag "id" with
    | some id => return some id
    | none => fail .toolMessageWithoutId tag.span
  else return none

def openMessage (site : Site γ) (placement : Placement) (scope : ScopeId) (tag : Tag)
    (role : Option Role) : Walk Role := do
  located tag.span placement.admitsMessage
  let role ← messageRole site scope tag role
  let id ← toolId site scope tag role
  build (·.beginMessage role id)
  return role

def walkMessage (site : Site γ) (placement : Placement) (scope : ScopeId) (tag : Tag)
    (role : Option Role) (inside : Placement → Walk Unit) : Walk Unit := do
  let role ← openMessage site placement scope tag role
  inside (placement.insideMessage role)
  build Builder.endMessage

/-- The kind of content that the name of a tag or else an attribute gives; text without one. -/
def contentKind (tag : Tag) : Option ContentKind → Walk ContentKind
  | some kind => return kind
  | none =>
    match tag.attribute? "type" with
    | none => return .text
    | some ⟨_, span, value⟩ =>
      let name := match value with
        | .literal name => name
        | _ => ""
      match ContentKind.ofName? name with
      | some kind => return kind
      | none => fail (.invalidContentType name) span

def openContent (placement : Placement) (tag : Tag) (kind : Option ContentKind) :
    Walk ContentKind := do
  located tag.span placement.admitsContent
  let kind ← contentKind tag kind
  build Builder.flushText
  return kind

/-- The text inside a content tag becomes a block. -/
def closeContent : ContentKind → Walk Unit
  | .text => build Builder.flushText
  | .image => do
    let url := Text.trim (← takeText)
    build (·.pushBlock (.image url))

def walkContent (placement : Placement) (tag : Tag) (kind : Option ContentKind)
    (inside : Placement → Walk Unit) : Walk Unit := do
  let kind ← openContent placement tag kind
  inside placement.insideContent
  closeContent kind

/-- The arguments of a tool call given as JSON text; nothing means no arguments. -/
def readArguments (text : String) : Except Cause Json :=
  let trimmed := Text.trim text
  if trimmed.isEmpty then .ok Json.emptyObject
  else match Json.read? trimmed with
    | some (.object fields) => .ok (.object fields)
    | _ => .error .invalidToolCallArguments

/-- The arguments of a tool call given as a value: an object, or its JSON text. -/
def argumentsOfValue : Value → Except Cause Json
  | .object fields => .ok (Value.object fields).toJson
  | .string text => readArguments text
  | _ => .error .invalidToolCallArguments

/-- A tool call whose arguments are the text inside its tag if no attribute gives them. -/
structure ToolCall where
  id : String
  name : String
  arguments : Option Json

def openToolCall (site : Site γ) (placement : Placement) (scope : ScopeId) (tag : Tag)
    (isBlank : Bool) : Walk ToolCall := do
  located tag.span placement.admitsToolCall
  let some id ← textAttribute? site scope tag "id" | fail .toolCallWithoutId tag.span
  let some name ← textAttribute? site scope tag "name" | fail .toolCallWithoutName tag.span
  build Builder.flushText
  match ← attribute? site scope tag "arguments" with
  | none => return ⟨id, name, none⟩
  | some value =>
    if isBlank then return ⟨id, name, some (← located tag.span (argumentsOfValue value))⟩
    else fail .invalidToolCallArguments tag.span

/-- The text inside a tool call becomes its arguments. -/
def closeToolCall (span : Span) (id name : String) : Walk Unit := do
  let arguments ← located span (readArguments (← takeText))
  build (·.pushBlock (.toolCall id name arguments))

def walkToolCall (site : Site γ) (placement : Placement) (scope : ScopeId) (tag : Tag)
    (isBlank : Bool) (inside : Placement → Walk Unit) : Walk Unit := do
  let call ← openToolCall site placement scope tag isBlank
  match call.arguments with
  | some arguments => build (·.pushBlock (.toolCall call.id call.name arguments))
  | none =>
    inside placement.insideToolCall
    closeToolCall tag.span call.id call.name

/-- The values of the attributes of a reference, without the one for the prompt. -/
def extraBindings (site : Site γ) (scope : ScopeId) : List Attribute → Walk (Dict Value)
  | [] => return []
  | ⟨name, _, value⟩ :: rest => do
    if name = "prompt" then extraBindings site scope rest
    else
      let value ← attributeValue site scope value
      return (name, value) :: (← extraBindings site scope rest)

def resolve (answer : History → String → Except HostError String) (span : Span)
    (prompt : String) : Walk String := do
  let state ← get
  let history := state.store.history
  set { state with store := { state.store with history := history ++ [Request.resolve prompt] } }
  match answer history prompt with
  | .ok source => return source
  | .error error => fail (.referenceFailed error) span

/-- What an error inside a referenced document is to the document around it. Cycles and exceeded
depths stay what they are. -/
def causeOfReference (error : CompileError) : Cause :=
  match error.cause with
  | .referenceCycle prompt => .referenceCycle prompt
  | .referenceTooDeep limit => .referenceTooDeep limit
  | _ => .referenceFailed error.toHostError

/-- A prompt that is referred to: what entering it gave, its text, and the bindings it starts
with. -/
structure Referral (γ : Type) where
  entered : γ
  source : String
  bindings : Dict Value

def promptName (tag : Tag) : Walk String :=
  match (tag.attribute? "prompt").map Attribute.value with
  | some (.literal prompt) => return prompt
  | _ => fail .referenceWithoutPrompt tag.span

def openReference (site : Site γ) (placement : Placement) (scope : ScopeId) (tag : Tag)
    (isBlank : Bool) : Walk (Referral γ) := do
  located tag.span placement.admitsReference
  let prompt ← promptName tag
  located tag.span (if isBlank then .ok () else .error .referenceWithContent)
  let some answer := site.host.resolve? | fail .noResolver tag.span
  let entered ← located tag.span (site.enter prompt)
  let visible := (← get).store.scopes.snapshot scope
  let extra ← extraBindings site scope tag.attributes
  let source ← resolve answer tag.span prompt
  return ⟨entered, source, Dict.putAll visible extra⟩

def walkReference (site : Site Compiler) (placement : Placement) (scope : ScopeId) (tag : Tag)
    (isBlank : Bool) : Walk Unit := do
  let referral ← openReference site placement scope tag isBlank
  match ← compileNested (referral.entered referral.source referral.bindings) with
  | .ok conversation => build (·.extend conversation.messages)
  | .error error => fail (causeOfReference error) tag.span

/-! ## The walk -/

mutual

def walk (site : Site Compiler) (placement : Placement) (scope : ScopeId) : Node → Walk Unit
  | .config span entries => fail (.unsupportedNode (Node.config span entries).typeName) span
  | .text _ value => build (·.pushText value)
  | .mustache _ e => do
    let value ← evaluate site scope e
    if !e.isSideEffect then build (·.pushText value.render)
  | .ifBlock _ condition consequent alternates => do
    if (← evaluate site scope condition).isTruthy then
      inFrame scope fun inner => walkAll site placement inner consequent
    else walkAlternates site placement scope alternates
  | .eachBlock _ iterable item index body fallback => do
    match (← evaluate site scope iterable).loopItems with
    | [] => walkFallback site placement scope fallback
    | items =>
      iterate (fun value count => inFrame scope fun inner => do
        bindIteration inner item index value count
        walkAll site placement inner body) 0 items
  | .tag tag children =>
    match tag.kind with
    | .message role =>
      walkMessage site placement scope tag role fun placement =>
        walkAll site placement scope children
    | .content kind =>
      walkContent placement tag kind fun placement => walkAll site placement scope children
    | .toolCall =>
      walkToolCall site placement scope tag (children.all Node.isBlankText) fun placement =>
        walkAll site placement scope children
    | .reference => walkReference site placement scope tag (children.all Node.isBlankText)
    | .generic => fail (.unknownTag tag.name) tag.span

def walkAll (site : Site Compiler) (placement : Placement) (scope : ScopeId) : List Node → Walk Unit
  | [] => return
  | node :: rest => do
    walk site placement scope node
    walkAll site placement scope rest

/-- Walks the first alternative whose condition holds, or the last one if that has none. -/
def walkAlternates (site : Site Compiler) (placement : Placement) (scope : ScopeId) :
    List Alternate → Walk Unit
  | [] => return
  | .elseIf condition body :: rest => do
    if (← evaluate site scope condition).isTruthy then
      inFrame scope fun inner => walkAll site placement inner body
    else walkAlternates site placement scope rest
  | .otherwise body :: _ => inFrame scope fun inner => walkAll site placement inner body

def walkFallback (site : Site Compiler) (placement : Placement) (scope : ScopeId) :
    Option (List Node) → Walk Unit
  | none => return
  | some body => inFrame scope fun inner => walkAll site placement inner body

end

/-! ## Documents -/

/-- The entries of the opening section, and the nodes after it. -/
def Document.split (document : Document) : Dict Json × List Node :=
  match document.nodes with
  | .config _ entries :: rest => (entries, rest)
  | nodes => ([], nodes)

/-- Compiles nodes that stand outside all tags, in the root frame. -/
def compileNodes (site : Site Compiler) (nodes : List Node) : Eval (List Message) := fun store =>
  let (result, after) := walkAll site .outermost ScopeTree.root nodes ⟨store, .empty⟩
  (result.map fun _ => after.builder.finish, after.store)

def Document.compile (document : Document) (site : Site Compiler) (bindings : Dict Value) :
    Compile Conversation := fun history =>
  let (config, nodes) := document.split
  let (result, after) := compileNodes site nodes ⟨.ofBindings bindings, history⟩
  (result.map fun messages => ⟨config, messages⟩, after.history)

/-- Compiles one document; `enter` is asked about the prompts that it refers to. -/
def compileDocument (host : Host) (enter : String → Except Cause Compiler) : Compiler :=
  fun source bindings history =>
    match parseDocument source with
    | .error error => (.error error, history)
    | .ok document => document.compile ⟨source, host, enter⟩ bindings history

/-- The compiler for a prompt that is referred to while `prompts` are being resolved, outermost
first, and `room` more may be. -/
def enterPrompt (host : Host) :
    (room : Nat) → (prompts : List String) → (prompt : String) → Except Cause Compiler
  | 0, prompts, prompt =>
    .error (if prompt ∈ prompts then .referenceCycle prompt else .referenceTooDeep prompts.length)
  | room + 1, prompts, prompt =>
    if prompt ∈ prompts then .error (.referenceCycle prompt)
    else .ok (compileDocument host (enterPrompt host room (prompts ++ [prompt])))

/-- Compiles a document while `prompts` are being resolved, outermost first. No more than `depth`
may be at a time. -/
def compileWithin (host : Host) (depth : Nat) (prompts : List String) : Compiler :=
  compileDocument host (enterPrompt host (depth - prompts.length) prompts)

def defaultDepth : Nat := 16

structure Context where
  bindings : Dict Value
  host : Host
  depth : Nat

/-- Compiles a prompt. The history tells what the host was asked, also if the compile fails. -/
def compile (context : Context) (source : String) : Except CompileError Conversation × History :=
  compileWithin context.host context.depth [] source context.bindings []

end PromptTemplate
