import PromptTemplate.Conversation
import PromptTemplate.Text.Blank

/-!
# Building conversations

Text is collected until something ends the run; then it becomes one block, trimmed, unless it is
blank. Blocks outside any message make up a system message that ends where the next message
begins. The text of a tool message is the result of its tool call.
-/

namespace PromptTemplate

/-- A message that is being built; `toolId` is there in tool messages. -/
structure OpenMessage where
  role : Role
  toolId : Option String
  content : List Block

/-- Text becomes the result of the call with this id. -/
def Block.toResult (id : String) : Block → Block
  | .text value => .toolResult id value
  | block => block

def OpenMessage.close (message : OpenMessage) : Message :=
  match message.role, message.toolId with
  | .tool, some id => ⟨.tool, message.content.map (Block.toResult id)⟩
  | role, _ => ⟨role, message.content⟩

structure Builder where
  messages : List Message
  current : Option OpenMessage
  /-- Blocks outside any message. -/
  loose : List Block
  /-- The run of text that has not ended yet. -/
  text : String

namespace Builder

def empty : Builder := ⟨[], none, [], ""⟩

def pushText (b : Builder) (text : String) : Builder := { b with text := b.text ++ text }

/-- Takes the run of text for a use other than a block. -/
def takeText (b : Builder) : String × Builder := (b.text, { b with text := "" })

def pushBlock (b : Builder) (block : Block) : Builder :=
  match b.current with
  | some message =>
    { b with current := some { message with content := message.content ++ [block] } }
  | none => { b with loose := b.loose ++ [block] }

def flushText (b : Builder) : Builder :=
  let (text, b) := b.takeText
  let trimmed := Text.trim text
  if trimmed.isEmpty then b else b.pushBlock (.text trimmed)

/-- Ends the message that is made of what stands outside messages. -/
def flushLoose (b : Builder) : Builder :=
  let b := b.flushText
  if b.loose.isEmpty then b
  else { b with messages := b.messages ++ [⟨.system, b.loose⟩], loose := [] }

def beginMessage (b : Builder) (role : Role) (toolId : Option String) : Builder :=
  { b.flushLoose with current := some ⟨role, toolId, []⟩ }

def endMessage (b : Builder) : Builder :=
  let b := b.flushText
  match b.current with
  | some message =>
    { b with messages := b.messages ++ [message.close], current := none }
  | none => b

def extend (b : Builder) (messages : List Message) : Builder :=
  let b := b.flushLoose
  { b with messages := b.messages ++ messages }

def finish (b : Builder) : List Message := b.endMessage.flushLoose.messages

end Builder

end PromptTemplate
