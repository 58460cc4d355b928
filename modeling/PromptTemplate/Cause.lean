import PromptTemplate.Number.Layout

/-!
# Causes of failure

Everything that can be wrong with a template or its evaluation. A cause has a stable code for
programs and a message for the author of the template; some causes share a code.
-/

namespace PromptTemplate

/-- A failure of the host: of a function it provides, or of its way to find a prompt. -/
structure HostError where
  name : String
  message : String
deriving DecidableEq

def HostError.display (e : HostError) : String := e.name ++ ": " ++ e.message

inductive Cause where
  -- the shape of the text
  | unexpectedEnd (expected : String)
  | unexpected (expected : String)
  | unexpectedBlockClose
  | elseifSpelling
  | elseIfBeforeClosing (construct : String)
  | elseIfOutsideIf
  | elseBeforeClosing (construct : String)
  | elseOutsideBlock
  | expectedBlockType
  | expectedPattern
  | expectedName
  | strayBrace
  | unclosedComment
  | strayCommentEnd
  | invalidTagName
  | duplicateAttribute
  | unclosedAttribute (quote : String)
  | missingAttributeValue
  | misplacedBlock (place : String) (block : String)
  | unclosedConfig
  | invalidConfig (reason : String)
  | unexpectedTagClose (tag : String)
  | attributeNotLiteral (name : String)
  -- the meaning of tags
  | unsupportedNode (kind : String)
  | alreadyDeclared (name : String)
  | invalidObjectKey
  | unsupportedOperator (operator : String)
  | invalidAssignment
  | unknownTag (tag : String)
  | toolCallOutsideAssistant
  | messageInsideMessage
  | contentInsideContent
  | toolCallInsideContent
  | toolCallWithoutId
  | toolMessageWithoutId
  | toolCallWithoutName
  | invalidToolCallArguments
  | messageWithoutRole
  | invalidContentType (name : String)
  | referenceInsideTag
  | referenceWithoutPrompt
  | noResolver
  | referenceFailed (error : HostError)
  | referenceCycle (prompt : String)
  | referenceTooDeep (limit : Nat)
  | referenceWithContent
  -- evaluation
  | invalidMessageRole (name : String)
  | notDeclared (name : String)
  | spreadNotIterable (snippet : String)
  | spreadNotObject (snippet : String)
  | invalidUpdate (operation : String) (valueType : String)
  | noSuchProperty (property : String)
  | notAFunction (valueType : String)
  | callFailed (error : HostError)
deriving DecidableEq

namespace Cause

def code : Cause → String
  | unexpectedEnd _ => "unexpected-eof"
  | unexpected _ => "unexpected-token"
  | unexpectedBlockClose => "unexpected-block-close"
  | elseifSpelling => "invalid-elseif"
  | elseIfBeforeClosing _ => "invalid-elseif-placement"
  | elseIfOutsideIf => "invalid-elseif-placement"
  | elseBeforeClosing _ => "invalid-else-placement"
  | elseOutsideBlock => "invalid-else-placement"
  | expectedBlockType => "expected-block-type"
  | expectedPattern => "unexpected-token"
  | expectedName => "expected-name"
  | strayBrace => "unexpected-mustache-close-tag"
  | unclosedComment => "unclosed-comment"
  | strayCommentEnd => "unexpected-end-of-comment"
  | invalidTagName => "invalid-tag-name"
  | duplicateAttribute => "duplicate-attribute"
  | unclosedAttribute _ => "unclosed-attribute-value"
  | missingAttributeValue => "missing-attribute-value"
  | misplacedBlock _ _ => "invalid-logic-block-placement"
  | unclosedConfig => "invalid-config"
  | invalidConfig _ => "invalid-config"
  | unexpectedTagClose _ => "unexpected-tag-close"
  | attributeNotLiteral _ => "invalid-static-attribute"
  | unsupportedNode _ => "unsupported-base-node-type"
  | alreadyDeclared _ => "variable-already-declared"
  | invalidObjectKey => "invalid-object-key"
  | unsupportedOperator _ => "unsupported-operator"
  | invalidAssignment => "invalid-assignment"
  | unknownTag _ => "unknown-tag"
  | toolCallOutsideAssistant => "invalid-tool-call-placement"
  | messageInsideMessage => "message-tag-inside-message"
  | contentInsideContent => "content-tag-inside-content"
  | toolCallInsideContent => "tool-call-tag-inside-content"
  | toolCallWithoutId => "tool-call-tag-without-id"
  | toolMessageWithoutId => "tool-message-without-id"
  | toolCallWithoutName => "tool-call-without-name"
  | invalidToolCallArguments => "invalid-tool-call-arguments"
  | messageWithoutRole => "message-tag-without-role"
  | invalidContentType _ => "invalid-content-type"
  | referenceInsideTag => "invalid-reference-prompt-placement"
  | referenceWithoutPrompt => "reference-tag-without-prompt"
  | noResolver => "missing-reference-function"
  | referenceFailed _ => "reference-error"
  | referenceCycle _ => "reference-cycle"
  | referenceTooDeep _ => "reference-depth-exceeded"
  | referenceWithContent => "reference-tag-has-content"
  | invalidMessageRole _ => "invalid-message-role"
  | notDeclared _ => "variable-not-declared"
  | spreadNotIterable _ => "invalid-spread-in-array"
  | spreadNotObject _ => "invalid-spread-in-object"
  | invalidUpdate _ _ => "invalid-update"
  | noSuchProperty _ => "property-not-exists"
  | notAFunction _ => "not-a-function"
  | callFailed _ => "function-call-error"

def message : Cause → String
  | unexpectedEnd expected => "Unexpected end of input, expected '" ++ expected ++ "'"
  | unexpected expected => "Expected '" ++ expected ++ "'"
  | unexpectedBlockClose => "Unexpected block closing tag"
  | elseifSpelling => "'elseif' should be 'else if'"
  | elseIfBeforeClosing construct =>
    "Expected to close " ++ construct ++ " before seeing \x7b:else if ...\x7d block"
  | elseIfOutsideIf =>
    "Cannot have an \x7b:else if ...\x7d block outside an \x7b#if ...\x7d block"
  | elseBeforeClosing construct =>
    "Expected to close " ++ construct ++ " before seeing \x7b:else\x7d block"
  | elseOutsideBlock =>
    "Cannot have an \x7b:else\x7d block outside an \x7b#if ...\x7d or \x7b#each ...\x7d block"
  | expectedBlockType => "Expected if or each"
  | expectedPattern => "Expected identifier or destructure pattern"
  | expectedName => "Expected name"
  | strayBrace => "Unexpected closing tag without matching opening tag"
  | unclosedComment => "Unclosed comment"
  | strayCommentEnd => "Unexpected end of comment"
  | invalidTagName => "Expected valid tag name"
  | duplicateAttribute => "Attributes need to be unique"
  | unclosedAttribute quote => "Expected to close the attribute value with " ++ quote
  | missingAttributeValue => "Expected value for the attribute"
  | misplacedBlock place block => "\x7b#" ++ block ++ "\x7d block cannot be " ++ place
  | unclosedConfig => "Invalid config: missing closing '---' for the config section"
  | invalidConfig reason => "Invalid config: " ++ reason
  | unexpectedTagClose tag => "Unexpected closing tag for " ++ tag
  | attributeNotLiteral name =>
    "The attribute '" ++ name ++ "' must only contain literal values"
  | unsupportedNode kind => "Unsupported base node type: " ++ kind
  | alreadyDeclared name => "Variable '" ++ name ++ "' is already declared"
  | invalidObjectKey => "Invalid object key"
  | unsupportedOperator operator => "Unsupported operator: " ++ operator
  | invalidAssignment => "Invalid assignment"
  | unknownTag tag => "Unknown tag: '" ++ tag ++ "'"
  | toolCallOutsideAssistant => "All tool calls must be inside of an assistant message"
  | messageInsideMessage => "Message tags cannot be inside of another message"
  | contentInsideContent => "Content tags must be directly inside message tags"
  | toolCallInsideContent => "Tool calls must be directly inside message tags"
  | toolCallWithoutId => "Tool call tags must have an id attribute"
  | toolMessageWithoutId => "Tool messages must have an id attribute"
  | toolCallWithoutName => "Tool calls must have a name attribute"
  | invalidToolCallArguments => "Tool calls must contain a valid JSON object as arguments"
  | messageWithoutRole => "Message tags must have a role attribute"
  | invalidContentType name => "Invalid content type: " ++ name
  | referenceInsideTag => "Reference tags must not be inside of other tags"
  | referenceWithoutPrompt => "Reference tags must have a prompt attribute"
  | noResolver => "A reference function was not provided"
  | referenceFailed error =>
    "There was an error referencing the prompt: \n" ++ error.name ++ " " ++ error.message
  | referenceCycle prompt =>
    "Prompt '" ++ prompt ++ "' references itself through a reference cycle"
  | referenceTooDeep limit =>
    "References are nested deeper than the allowed " ++ Number.decimalText limit ++ " levels"
  | referenceWithContent => "Reference tags cannot have content"
  | invalidMessageRole name => "Invalid message role: " ++ name
  | notDeclared name => "Variable '" ++ name ++ "' is not declared"
  | spreadNotIterable snippet => "Element '" ++ snippet ++ "' is not iterable"
  | spreadNotObject snippet => "Property '" ++ snippet ++ "' is not valid for spreading"
  | invalidUpdate operation valueType =>
    "Cannot use " ++ operation ++ " operation on " ++ valueType
  | noSuchProperty property => "Property '" ++ property ++ "' does not exist on object"
  | notAFunction valueType => "'" ++ valueType ++ "' is not a function"
  | callFailed error => "Error calling function: \n" ++ error.name ++ " " ++ error.message

end Cause

end PromptTemplate
