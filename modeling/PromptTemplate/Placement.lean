import PromptTemplate.Cause
import PromptTemplate.Role

/-!
# Where tags may stand

Messages and references stand outside all tags, content directly inside a message, and tool calls
directly inside a message of the assistant.
-/

namespace PromptTemplate

/-- What the tags around a place are. -/
structure Placement where
  message : Option Role
  content : Bool
  toolCall : Bool
  inTag : Bool
deriving DecidableEq

namespace Placement

def outermost : Placement := ⟨none, false, false, false⟩

def insideMessage (p : Placement) (role : Role) : Placement :=
  { p with message := some role, inTag := true }

def insideContent (p : Placement) : Placement := { p with content := true, inTag := true }

def insideToolCall (p : Placement) : Placement := { p with toolCall := true, inTag := true }

def admitsMessage (p : Placement) : Except Cause Unit :=
  if p.message.isSome || p.content then .error .messageInsideMessage else .ok ()

def admitsContent (p : Placement) : Except Cause Unit :=
  if p.message.isNone || p.content || p.toolCall then .error .contentInsideContent else .ok ()

def admitsToolCall (p : Placement) : Except Cause Unit :=
  if p.content || p.toolCall then .error .toolCallInsideContent
  else if p.message ≠ some .assistant then .error .toolCallOutsideAssistant
  else .ok ()

def admitsReference (p : Placement) : Except Cause Unit :=
  if p.inTag then .error .referenceInsideTag else .ok ()

end Placement

end PromptTemplate
