import PromptTemplate.CompileError
import PromptTemplate.Host
import PromptTemplate.Scope
import PromptTemplate.Value.Operator

/-!
# Evaluation

An expression is evaluated in one frame. Evaluation may change variables and ask the host; what it
did before an error stays done. In a chain of members and calls an optional link on null leaves
out the rest of the chain.
-/

namespace PromptTemplate

structure Store where
  scopes : ScopeTree
  history : History

abbrev Eval := ExceptT CompileError (StateM Store)

/-- What evaluation is given: the text of the template, the host, and the frame. -/
structure Scene where
  source : String
  host : Host
  scope : ScopeId

namespace Eval

def fail {α : Type} (cause : Cause) (span : Span) : Eval α := throw ⟨cause, span⟩

def located {α : Type} (span : Span) : Except Cause α → Eval α
  | .ok a => pure a
  | .error cause => fail cause span

def changeScopes (span : Span) (change : ScopeTree → Except Cause (Value × ScopeTree)) :
    Eval Value := do
  let store ← get
  let (result, scopes) ← located span (change store.scopes)
  set { store with scopes }
  return result

/-- Records a call and makes it. -/
def call (host : Host) (span : Span) (function : Handle) (arguments : List Value) :
    Eval Value := do
  let store ← get
  set { store with history := store.history ++ [Request.call function arguments] }
  match host.call store.history function arguments with
  | .ok value => return value
  | .error error => fail (.callFailed error) span

end Eval

namespace Scene

/-- The text of an expression, for messages. -/
def snippet (scene : Scene) (span : Span) : String := Text.trim (span.textOf scene.source)

def lookup (scene : Scene) (span : Span) (name : String) : Eval Value := do
  match (← get).scopes.lookup? scene.scope name with
  | some value => return value
  | none => Eval.fail (.notDeclared name) span

end Scene

def Literal.toValue : Literal → Value
  | null => .null
  | bool b => .bool b
  | number x => .number x
  | string s => .string s

def UnaryOp.apply : UnaryOp → Value → Value
  | not, value => .bool !value.isTruthy
  | negate, value => .number (-value.toNumber)
  | plus, value => .number value.toNumber
  | typeOf, value => .string value.typeOf
  | complement, _ => .null

def UnaryOp.isSupported : UnaryOp → Bool
  | complement => false
  | _ => true

def Value.spreadItems? : Value → Option (List Value)
  | array items => some items
  | string s => some (s.toList.map fun c => string (String.singleton c))
  | _ => none

/-- The key that a computed entry of an object has. -/
def Value.toKey? : Value → Option String
  | string s => some s
  | number x => some (number x).render
  | _ => none

/-- The value of a chain; null if an optional link left out its rest. -/
def orNull (chain : Eval (Option Value)) : Eval Value := return (← chain).getD .null

mutual

/-- Evaluates a chain; none when an optional link met a null. -/
def evalChain (scene : Scene) : Expr → Eval (Option Value)
  | .literal _ value => return some value.toValue
  | .identifier span name => return some (← scene.lookup span name)
  | .member span base property optional => do
    match ← evalChain scene base with
    | none => return none
    | some target =>
      if optional && target.isNullish then return none
      else
        let key ← evalKey scene property
        match target.property? key with
        | some value => return some value
        | none =>
          if optional then return some .null
          else Eval.fail (.noSuchProperty key.render) span
  | .call span callee arguments => do
    match ← evalChain scene callee with
    | none => return none
    | some target =>
      let arguments ← evalElements scene arguments
      match target with
      | .function function => return some (← Eval.call scene.host span function arguments)
      | other => Eval.fail (.notAFunction other.typeName) span
  | .array _ elements => return some (.array (← evalElements scene elements))
  | .object _ entries => return some (.object (← evalEntries scene [] entries))
  | .unary span op operand => do
    if op.isSupported then return some (op.apply (← orNull (evalChain scene operand)))
    else Eval.fail (.unsupportedOperator op.text) span
  | .binary span op left right =>
    match op.meaning with
    | .plain apply => do
      let a ← orNull (evalChain scene left)
      let b ← orNull (evalChain scene right)
      return some (apply a b)
    | .stopsAt condition => do
      let a ← orNull (evalChain scene left)
      if condition a then return some a else return some (← orNull (evalChain scene right))
    | .unsupported => Eval.fail (.unsupportedOperator op.text) span
  | .conditional _ test consequent alternate => do
    if (← orNull (evalChain scene test)).isTruthy then
      return some (← orNull (evalChain scene consequent))
    else return some (← orNull (evalChain scene alternate))
  | .assignment span op target value => do
    let (name, path) ← evalPath scene target
    let value ← orNull (evalChain scene value)
    return some (← Eval.changeScopes span fun scopes =>
      scopes.write scene.scope name path (op = .assign) (op.change value))
  | .update span op side target => do
    let (name, path) ← evalPath scene target
    return some (← Eval.changeScopes span fun scopes =>
      scopes.write scene.scope name path false (op.change side))

def evalKey (scene : Scene) : Property → Eval Value
  | .named name => return .string name
  | .computed key => orNull (evalChain scene key)

def evalElements (scene : Scene) : List Element → Eval (List Value)
  | [] => return []
  | .single element :: rest => do
    let value ← orNull (evalChain scene element)
    return value :: (← evalElements scene rest)
  | .spread element :: rest => do
    let value ← orNull (evalChain scene element)
    match value.spreadItems? with
    | some items => return items ++ (← evalElements scene rest)
    | none => Eval.fail (.spreadNotIterable (scene.snippet element.span)) element.span

/-- The fields in `earlier` and the ones that the entries add or replace. -/
def evalEntries (scene : Scene) (earlier : Dict Value) : List Entry → Eval (Dict Value)
  | [] => return earlier
  | .named key value :: rest => do
    let value ← orNull (evalChain scene value)
    evalEntries scene (Dict.put earlier key value) rest
  | .computed key value :: rest => do
    match (← orNull (evalChain scene key)).toKey? with
    | some name =>
      let value ← orNull (evalChain scene value)
      evalEntries scene (Dict.put earlier name value) rest
    | none => Eval.fail .invalidObjectKey key.span
  | .spread value :: rest => do
    match ← orNull (evalChain scene value) with
    | .object fields => evalEntries scene (Dict.putAll earlier fields) rest
    | _ => Eval.fail (.spreadNotObject (scene.snippet value.span)) value.span

/-- The variable that a target starts from, and the keys that lead on from it. -/
def evalPath (scene : Scene) : Expr → Eval (String × List Value)
  | .identifier _ name => return (name, [])
  | .member span base property optional => do
    if optional then Eval.fail .invalidAssignment span
    else
      let (name, path) ← evalPath scene base
      let key ← evalKey scene property
      return (name, path ++ [key])
  | target => Eval.fail .invalidAssignment target.span

end

def eval (scene : Scene) (e : Expr) : Eval Value := orNull (evalChain scene e)

end PromptTemplate
