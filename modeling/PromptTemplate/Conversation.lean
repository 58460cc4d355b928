import PromptTemplate.Json
import PromptTemplate.Role

/-!
# Conversations

What a compiled prompt is: the entries of its opening section, and messages made of blocks.
-/

namespace PromptTemplate

inductive Block where
  | text (value : String)
  | image (url : String)
  | toolCall (id name : String) (arguments : Json)
  | toolResult (id value : String)

structure Message where
  role : Role
  content : List Block

structure Conversation where
  config : Dict Json
  messages : List Message

end PromptTemplate
