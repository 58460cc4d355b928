import PromptTemplate.Cause
import PromptTemplate.Value

/-!
# The host

What a template needs from the program around it: functions to call, and the texts of the prompts it
refers to. What the host answers may depend on all that was asked of it before; every question is
recorded before it is answered.
-/

namespace PromptTemplate

inductive Request where
  | call (function : Handle) (arguments : List Value)
  | resolve (prompt : String)

/-- The questions asked so far, the first one first. -/
abbrev History := List Request

structure Host where
  call : History → Handle → List Value → Except HostError Value
  /-- Absent when the host knows no prompts. -/
  resolve? : Option (History → String → Except HostError String)

end PromptTemplate
