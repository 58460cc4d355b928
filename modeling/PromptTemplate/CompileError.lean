import PromptTemplate.Cause
import PromptTemplate.Json.Printer
import PromptTemplate.Span

/-!
# Located errors

A compile stops at its first error: a cause and the place it points to. To an enclosing prompt the
error is a failure of the host, which keeps the code and the message.
-/

namespace PromptTemplate

structure CompileError where
  cause : Cause
  location : Span
deriving DecidableEq

namespace CompileError

def code (e : CompileError) : String := e.cause.code

def message (e : CompileError) : String := e.cause.message

def display (e : CompileError) : String :=
  e.message ++ " (" ++ e.code ++ ") at line " ++ Number.decimalText e.location.line ++ ", column "
    ++ Number.decimalText e.location.column

/-- The error as JSON text: code, message and location, in this order. -/
def serialize (e : CompileError) : String :=
  Json.objectText [
    Json.fieldText "code" (Json.quote e.code),
    Json.fieldText "message" (Json.quote e.message),
    Json.fieldText "location" (Json.objectText [
      Json.fieldText "start" (Number.decimalText e.location.start),
      Json.fieldText "end" (Number.decimalText e.location.stop),
      Json.fieldText "line" (Number.decimalText e.location.line),
      Json.fieldText "column" (Number.decimalText e.location.column)])]

def toHostError (e : CompileError) : HostError :=
  ⟨"CompileError", "[" ++ e.code ++ "] " ++ e.message⟩

end CompileError

end PromptTemplate
