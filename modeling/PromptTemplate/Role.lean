/-!
# Roles of messages
-/

namespace PromptTemplate

inductive Role where
  | system | user | assistant | tool
deriving DecidableEq

namespace Role

def name : Role → String
  | system => "system"
  | user => "user"
  | assistant => "assistant"
  | tool => "tool"

def ofName? (name : String) : Option Role :=
  if name = "system" then some system
  else if name = "user" then some user
  else if name = "assistant" then some assistant
  else if name = "tool" then some tool
  else none

theorem ofName?_name (role : Role) : ofName? role.name = some role := by
  cases role <;> decide

end Role

end PromptTemplate
