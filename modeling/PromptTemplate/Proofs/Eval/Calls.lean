import PromptTemplate.Host.Standard
import PromptTemplate.Proofs.Eval.Effects
import PromptTemplate.Proofs.Node.Expressions
import PromptTemplate.Proofs.Syntax.Calls

/-!
# The calls of an evaluation

Which call expressions ask the host for something when an expression is
evaluated, and what for. The log goes through the expression as evaluation
does. Its requests are the ones that evaluation adds to the history, and it
has no call of the expression twice or before one that is inside it
(`chain_logs`). So the calls of an expression that was parsed end one after
the other (`eval_calls_in_order`).
-/

namespace PromptTemplate

/-- Where the call expression stands, and what the host is asked for. -/
abbrev CallLog := List (Span × Request)

namespace CallLog

def quiet : Store → CallLog := fun _ => []

/-- The log of an action and of what is behind it, if the action succeeds. -/
def seq (log : Store → CallLog) (m : Eval α) (next : α → Store → CallLog) : Store → CallLog :=
  fun s => log s ++ match m s with
    | (.ok a, t) => next a t
    | (.error _, _) => []

end CallLog

open CallLog (quiet seq)

mutual

def chainCalls (scene : Scene) : Expr → Store → CallLog
  | .literal .. | .identifier .. => quiet
  | .member _ base property optional =>
    seq (chainCalls scene base) (evalChain scene base) fun found =>
      match found with
      | none => quiet
      | some target =>
        if optional && target.isNullish then quiet else keyCalls scene property
  | .call span callee arguments =>
    seq (chainCalls scene callee) (evalChain scene callee) fun found =>
      match found with
      | none => quiet
      | some target =>
        seq (elementsCalls scene arguments) (evalElements scene arguments) fun values =>
          match target with
          | .function function => fun _ => [(span, .call function values)]
          | _ => quiet
  | .array _ elements => elementsCalls scene elements
  | .object _ entries => entriesCalls scene entries
  | .unary _ op operand => if op.isSupported then chainCalls scene operand else quiet
  | .binary _ op left right =>
    match op.meaning with
    | .plain _ => seq (chainCalls scene left) (eval scene left) fun _ => chainCalls scene right
    | .stopsAt condition => seq (chainCalls scene left) (eval scene left) fun a =>
      if condition a then quiet else chainCalls scene right
    | .unsupported => quiet
  | .conditional _ test consequent alternate =>
    seq (chainCalls scene test) (eval scene test) fun a =>
      if a.isTruthy then chainCalls scene consequent else chainCalls scene alternate
  | .assignment _ _ target value =>
    seq (pathCalls scene target) (evalPath scene target) fun _ => chainCalls scene value
  | .update _ _ _ target => pathCalls scene target

def keyCalls (scene : Scene) : Property → Store → CallLog
  | .named _ => quiet
  | .computed key => chainCalls scene key

def elementsCalls (scene : Scene) : List Element → Store → CallLog
  | [] => quiet
  | .single value :: rest =>
    seq (chainCalls scene value) (eval scene value) fun _ => elementsCalls scene rest
  | .spread value :: rest =>
    seq (chainCalls scene value) (eval scene value) fun a =>
      if a.spreadItems?.isSome then elementsCalls scene rest else quiet

def entriesCalls (scene : Scene) : List Entry → Store → CallLog
  | [] => quiet
  | .named _ value :: rest =>
    seq (chainCalls scene value) (eval scene value) fun _ => entriesCalls scene rest
  | .computed key value :: rest =>
    seq (chainCalls scene key) (eval scene key) fun a =>
      if a.toKey?.isSome then
        seq (chainCalls scene value) (eval scene value) fun _ => entriesCalls scene rest
      else quiet
  | .spread value :: rest =>
    seq (chainCalls scene value) (eval scene value) fun a =>
      match a with
      | .object _ => entriesCalls scene rest
      | _ => quiet

def pathCalls (scene : Scene) : Expr → Store → CallLog
  | .member _ base property optional =>
    if optional then quiet
    else seq (pathCalls scene base) (evalPath scene base) fun _ => keyCalls scene property
  | .literal .. | .identifier .. | .array .. | .object .. | .call .. | .unary .. | .binary ..
  | .conditional .. | .assignment .. | .update .. => quiet

end

-- ---------------------------------------------------------------------------
-- Logged actions
-- ---------------------------------------------------------------------------

/-- The action asks the host for nothing. -/
def Quiet (m : Eval α) : Prop := ∀ s, (m s).2.history = s.history

namespace Quiet

theorem pure (a : α) : Quiet (pure a : Eval α) := fun _ => rfl

theorem bind {m : Eval α} {f : α → Eval β} (hm : Quiet m) (hf : ∀ a, Quiet (f a)) :
    Quiet (m >>= f) :=
  fun s => Action.relates_bind (R := fun s t : Store => t.history = s.history)
    (fun h h' => h'.trans h) (hm s) fun a t _ => hf a t

theorem fail (cause : Cause) (span : Span) : Quiet (Eval.fail cause span : Eval α) := fun _ => rfl

theorem lookup (scene : Scene) (span : Span) (name : String) : Quiet (scene.lookup span name) := by
  intro s
  rw [scene.store_lookup]

theorem changeScopes (span : Span) (change : ScopeTree → Except Cause (Value × ScopeTree)) :
    Quiet (Eval.changeScopes span change) :=
  Eval.history_changeScopes span change

end Quiet

/-- The log has what the action asks the host for, and the calls in it are some of those at
`spans`, in their order. -/
def Logs (spans : List Span) (m : Eval α) (log : Store → CallLog) : Prop :=
  ∀ s, (m s).2.history = s.history ++ (log s).map Prod.snd ∧
    ((log s).map Prod.fst).Sublist spans

namespace Logs

variable {spans more : List Span} {m : Eval α} {f : α → Eval β} {log : Store → CallLog}
  {next : α → Store → CallLog}

theorem quiet (hm : Quiet m) : Logs spans m quiet := by
  intro s
  rw [hm s]
  exact ⟨by simp [CallLog.quiet], List.nil_sublist _⟩

theorem mono (h : Logs spans m log) (hsub : spans.Sublist more) : Logs more m log :=
  fun s => ⟨(h s).1, (h s).2.trans hsub⟩

theorem seq (hm : Logs spans m log) (hf : ∀ a, Logs more (f a) (next a)) :
    Logs (spans ++ more) (m >>= f) (seq log m next) := by
  intro s
  obtain ⟨hhistory, hspans⟩ := hm s
  rw [Action.run_bind, CallLog.seq]
  cases hrun : m s with
  | mk result t =>
    rw [hrun] at hhistory
    cases result with
    | error error =>
      rw [List.append_nil]
      exact ⟨hhistory, hspans.trans (List.sublist_append_left ..)⟩
    | ok a =>
      obtain ⟨hnext, hmore⟩ := hf a t
      dsimp only at hhistory ⊢
      rw [hnext, hhistory, List.map_append, List.map_append, List.append_assoc]
      exact ⟨rfl, hspans.append hmore⟩

/-- What is quiet may come after. -/
theorem then_quiet (hm : Logs spans m log) (hf : ∀ a, Quiet (f a)) : Logs spans (m >>= f) log := by
  intro s
  rw [Action.run_bind]
  obtain ⟨hhistory, hspans⟩ := hm s
  cases hrun : m s with
  | mk result t =>
    rw [hrun] at hhistory
    cases result with
    | error error => exact ⟨hhistory, hspans⟩
    | ok a =>
      dsimp only at hhistory ⊢
      rw [hf a t]
      exact ⟨hhistory, hspans⟩

theorem orNull {m : Eval (Option Value)} (h : Logs spans m log) : Logs spans (orNull m) log :=
  h.then_quiet fun _ => .pure _

theorem call (host : Host) (span : Span) (function : Handle) (arguments : List Value) :
    Logs [span] (Eval.call host span function arguments)
      fun _ => [(span, .call function arguments)] := by
  intro s
  rw [Eval.store_call]
  exact ⟨rfl, List.Sublist.refl _⟩

end Logs

-- ---------------------------------------------------------------------------
-- Expressions
-- ---------------------------------------------------------------------------

mutual

theorem chain_logs (scene : Scene) : (e : Expr) →
    Logs e.callSpans (evalChain scene e) (chainCalls scene e)
  | .literal _ _ => by
    simp only [evalChain, chainCalls]
    exact .quiet (.pure _)
  | .identifier span name => by
    simp only [evalChain, chainCalls]
    exact .then_quiet (.quiet (.lookup scene span name)) fun _ => .pure _
  | .member span base property optional => by
    simp only [evalChain, chainCalls, Expr.callSpans]
    refine .seq (chain_logs scene base) fun found => ?_
    cases found with
    | none => exact .quiet (.pure _)
    | some target =>
      dsimp only
      split
      · exact .quiet (.pure _)
      · refine .then_quiet (key_logs scene property) fun key => ?_
        cases target.property? key with
        | some value => exact .pure _
        | none =>
          cases optional with
          | false => exact .fail _ _
          | true => exact .pure _
  | .call span callee arguments => by
    simp only [evalChain, chainCalls, Expr.callSpans]
    refine .seq (chain_logs scene callee) fun found => ?_
    cases found with
    | none => exact .quiet (.pure _)
    | some target =>
      refine .seq (elements_logs scene arguments) fun values => ?_
      cases target with
      | function function => exact .then_quiet (.call _ span function values) fun _ => .pure _
      | _ => exact .quiet (.fail _ _)
  | .array span elements => by
    simp only [evalChain, chainCalls, Expr.callSpans]
    exact .then_quiet (elements_logs scene elements) fun _ => .pure _
  | .object span entries => by
    simp only [evalChain, chainCalls, Expr.callSpans]
    exact .then_quiet (entries_logs scene [] entries) fun _ => .pure _
  | .unary span op operand => by
    simp only [evalChain, chainCalls, Expr.callSpans]
    split
    · exact .then_quiet (chain_logs scene operand).orNull fun _ => .pure _
    · exact .quiet (.fail _ _)
  | .binary span op left right => by
    have hl : Logs _ (eval scene left) _ := (chain_logs scene left).orNull
    have hr : Logs _ (eval scene right) _ := (chain_logs scene right).orNull
    simp only [evalChain, chainCalls, Expr.callSpans]
    cases op.meaning with
    | plain apply => exact hl.seq fun a => hr.then_quiet fun _ => .pure _
    | stopsAt condition =>
      refine hl.seq fun a => ?_
      split
      · exact .quiet (.pure _)
      · exact hr.then_quiet fun _ => .pure _
    | unsupported => exact .quiet (.fail _ _)
  | .conditional span test consequent alternate => by
    have ht : Logs _ (eval scene test) _ := (chain_logs scene test).orNull
    have hc := (chain_logs scene consequent).orNull
    have ha := (chain_logs scene alternate).orNull
    simp only [evalChain, chainCalls, Expr.callSpans]
    -- One of the branches is left out.
    refine ht.seq fun a => ?_
    split
    · exact (hc.then_quiet fun _ => .pure _).mono (List.sublist_append_left ..)
    · exact (ha.then_quiet fun _ => .pure _).mono (List.sublist_append_right ..)
  | .assignment span op target value => by
    have hv := (chain_logs scene value).orNull
    simp only [evalChain, chainCalls, Expr.callSpans]
    refine .seq (path_logs scene target) fun path => ?_
    exact .then_quiet hv fun a => .bind (.changeScopes _ _) fun _ => .pure _
  | .update span op side target => by
    simp only [evalChain, chainCalls, Expr.callSpans]
    refine .then_quiet (path_logs scene target) fun path => ?_
    exact .bind (.changeScopes _ _) fun _ => .pure _

theorem key_logs (scene : Scene) : (property : Property) →
    Logs property.callSpans (evalKey scene property) (keyCalls scene property)
  | .named _ => by
    simp only [evalKey, keyCalls]
    exact .quiet (.pure _)
  | .computed key => by
    simp only [evalKey, keyCalls]
    exact (chain_logs scene key).orNull

theorem elements_logs (scene : Scene) : (elements : List Element) →
    Logs (Element.callSpansAll elements) (evalElements scene elements)
      (elementsCalls scene elements)
  | [] => by
    simp only [evalElements, elementsCalls]
    exact .quiet (.pure _)
  | .single value :: rest => by
    have hv : Logs _ (eval scene value) _ := (chain_logs scene value).orNull
    simp only [evalElements, elementsCalls, Element.callSpansAll]
    exact hv.seq fun a => (elements_logs scene rest).then_quiet fun _ => .pure _
  | .spread value :: rest => by
    have hv : Logs _ (eval scene value) _ := (chain_logs scene value).orNull
    simp only [evalElements, elementsCalls, Element.callSpansAll]
    refine hv.seq fun a => ?_
    cases a.spreadItems? with
    | none => exact .quiet (.fail _ _)
    | some items => exact (elements_logs scene rest).then_quiet fun _ => .pure _

theorem entries_logs (scene : Scene) (earlier : Dict Value) : (entries : List Entry) →
    Logs (Entry.callSpansAll entries) (evalEntries scene earlier entries)
      (entriesCalls scene entries)
  | [] => by
    simp only [evalEntries, entriesCalls]
    exact .quiet (.pure _)
  | .named name value :: rest => by
    have hv : Logs _ (eval scene value) _ := (chain_logs scene value).orNull
    simp only [evalEntries, entriesCalls, Entry.callSpansAll]
    exact hv.seq fun a => entries_logs scene _ rest
  | .computed key value :: rest => by
    have hk : Logs _ (eval scene key) _ := (chain_logs scene key).orNull
    have hv : Logs _ (eval scene value) _ := (chain_logs scene value).orNull
    simp only [evalEntries, entriesCalls, Entry.callSpansAll]
    refine hk.seq fun a => ?_
    cases a.toKey? with
    | none => exact .quiet (.fail _ _)
    | some name => exact hv.seq fun b => entries_logs scene _ rest
  | .spread value :: rest => by
    have hv : Logs _ (eval scene value) _ := (chain_logs scene value).orNull
    simp only [evalEntries, entriesCalls, Entry.callSpansAll]
    refine hv.seq fun a => ?_
    cases a with
    | object fields => exact entries_logs scene _ rest
    | _ => exact .quiet (.fail _ _)

theorem path_logs (scene : Scene) : (target : Expr) →
    Logs target.callSpans (evalPath scene target) (pathCalls scene target)
  | .identifier _ _ => by
    simp only [evalPath, pathCalls]
    exact .quiet (.pure _)
  | .member span base property optional => by
    simp only [evalPath, pathCalls, Expr.callSpans]
    split
    · exact .quiet (.fail _ _)
    · refine .seq (path_logs scene base) fun path => ?_
      exact (key_logs scene property).then_quiet fun _ => .pure _
  | .literal .. | .array .. | .object .. | .call .. | .unary .. | .binary .. | .conditional ..
  | .assignment .. | .update .. => by
    simp only [evalPath, pathCalls]
    exact .quiet (.fail _ _)

end

-- ---------------------------------------------------------------------------
-- Parsed expressions
-- ---------------------------------------------------------------------------

/-- Evaluating an expression that was parsed asks the host for what is in the
log, whether it succeeds or fails. The calls in the log are some of those in the
expression, none of them twice, and each one ends before the next. -/
theorem eval_calls_in_order {e : Expr} (h : e.IsParsed) (scene : Scene) (s : Store) :
    (eval scene e s).2.history = s.history ++ (chainCalls scene e s).map Prod.snd ∧
      ((chainCalls scene e s).map Prod.fst).Sublist e.callSpans ∧
      (chainCalls scene e s).Pairwise fun call later => call.1.stop < later.1.stop := by
  have hlogs : Logs e.callSpans (eval scene e) (chainCalls scene e) := (chain_logs scene e).orNull
  obtain ⟨hhistory, hspans⟩ := hlogs s
  have hrising := (e.callSpans_rising (.single h.layout)).increasing.sublist hspans
  refine ⟨hhistory, hspans, ?_⟩
  simpa only [List.pairwise_map] using hrising

/-- In `f(g(), x?.y(), g())` the optional link leaves out its call. -/
theorem eval_calls_in_order_arguments :
    let word : Nat → String → Expr := fun start name =>
      .identifier ⟨start, start + 1, 1, start + 1⟩ name
    let e : Expr := .call ⟨0, 19, 1, 1⟩ (word 0 "f") [
      .single (.call ⟨2, 5, 1, 3⟩ (word 2 "g") []),
      .single (.call ⟨7, 13, 1, 8⟩ (.member ⟨7, 11, 1, 8⟩ (word 7 "x") (.named "y") true) []),
      .single (.call ⟨15, 18, 1, 16⟩ (word 15 "g") [])]
    let f : Value := .function (StandardFunction.handle .list 0)
    let g : Value := .function (StandardFunction.handle .make 1)
    let scene : Scene := ⟨"f(g(), x?.y(), g())", standardHost none, 0⟩
    let store : Store := ⟨⟨[⟨[("f", f), ("g", g), ("x", .null)], none⟩]⟩, []⟩
    parseExpression "f(g(), x?.y(), g())" = .ok e ∧
      (chainCalls scene e store).map (·.1.stop) = [5, 18, 19] ∧
      (chainCalls scene e store).Pairwise fun call later => call.1.stop < later.1.stop := by
  intro word e f g scene store
  have hparse : parseExpression "f(g(), x?.y(), g())" = .ok e := rfl
  exact ⟨hparse, by rfl, (eval_calls_in_order ⟨_, .inl hparse⟩ scene store).2.2⟩

end PromptTemplate
