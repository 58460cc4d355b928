import PromptTemplate.Host
import PromptTemplate.Value.Render

/-!
# A standard host

A few functions to probe templates with, and a library of prompts. One function may be bound more
than once; each binding has a handle of its own.
-/

namespace PromptTemplate

inductive StandardFunction where
  /-- Null, whatever the arguments are. -/
  | probe
  | first
  /-- A text with its ASCII letters in upper case. -/
  | upper
  | fail
  | list
  /-- A new function, different from all others. -/
  | make
  /-- What `make` makes: the first argument, too. -/
  | made
deriving DecidableEq

namespace StandardFunction

def all : List StandardFunction := [probe, first, upper, fail, list, make, made]

/-- Functions that templates may be given; those made at run time have no name. -/
def name? : StandardFunction → Option String
  | probe => some "probe"
  | first => some "id"
  | upper => some "upper"
  | fail => some "fail"
  | list => some "list"
  | make => some "make"
  | made => none

def ofName? (name : String) : Option StandardFunction := all.find? (·.name? = some name)

/-- The handle of a function for the binding of a given number. -/
def handle (f : StandardFunction) (binding : Nat) : Handle :=
  ⟨all.length * binding + all.idxOf f⟩

def ofHandle (handle : Handle) : StandardFunction :=
  all.getD (handle.id % all.length) probe

def textOfArgument (arguments : List Value) (index : Nat) : String :=
  (arguments[index]?.map Value.render).getD ""

/-- The answer of a function. Each call makes the history longer, so its length numbers the
functions that are made. -/
def apply (f : StandardFunction) (history : History) (arguments : List Value) :
    Except HostError Value :=
  match f with
  | probe => .ok .null
  | first => .ok (arguments.head?.getD .null)
  | upper =>
    match arguments with
    | .string s :: _ => .ok (.string (s.map Char.toUpper))
    | _ => .error ⟨"TypeError", "expected a string"⟩
  | fail => .error ⟨textOfArgument arguments 0, textOfArgument arguments 1⟩
  | list => .ok (.array arguments)
  | make => .ok (.function (made.handle history.length))
  | made => .ok (arguments.head?.getD .null)

end StandardFunction

/-- What a library has under the name of a prompt. -/
inductive Shelf where
  | source (text : String)
  | failure (error : HostError)

def Shelf.read : Option Shelf → (prompt : String) → Except HostError String
  | some (.source text), _ => .ok text
  | some (.failure error), _ => .error error
  | none, prompt => .error ⟨"PromptNotFound", "no prompt named '" ++ prompt ++ "'"⟩

/-- The standard functions, and the prompts of a library if there is one. -/
def standardHost (library : Option (Dict Shelf)) : Host where
  call history function arguments :=
    (StandardFunction.ofHandle function).apply history arguments
  resolve? := library.map fun shelves _ prompt => Shelf.read (Dict.get? shelves prompt) prompt

/-- The calls of functions that have a name, with their arguments, in order. -/
def History.namedCalls (history : History) : List (String × List Value) :=
  history.filterMap fun request =>
    match request with
    | .call function arguments =>
      (StandardFunction.ofHandle function).name?.map fun name => (name, arguments)
    | .resolve _ => none

def History.prompts (history : History) : List String :=
  history.filterMap fun request =>
    match request with
    | .call _ _ => none
    | .resolve prompt => some prompt

end PromptTemplate
