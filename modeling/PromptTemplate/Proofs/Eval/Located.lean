import PromptTemplate.Eval
import PromptTemplate.Proofs.Action
import PromptTemplate.Proofs.Syntax.Spans

/-!
# Where evaluation fails

An evaluation that fails does so at a span of the expression: what it calls
and looks up is given the span of the part it is done for. It does so for one
of the reasons that an expression may give: there is one cause that evaluation
never gives, that a node stands where it has no meaning. Writing to a variable
fails because of what the variable is or what its value is.
-/

namespace PromptTemplate

-- ---------------------------------------------------------------------------
-- Causes
-- ---------------------------------------------------------------------------

/-- Not that a node stands where it has no meaning. -/
def Cause.isSupported : Cause → Bool
  | .unsupportedNode _ => false
  | _ => true

theorem Cause.code_of_isSupported {cause : Cause} (h : cause.isSupported) :
    cause.code ≠ "unsupported-base-node-type" := by
  cases cause with
  | unsupportedNode => cases h
  | _ => exact of_decide_eq_true rfl

/-- No node is found without a meaning. -/
def Supported {α : Type} (x : Except Cause α) : Prop := ∀ cause, x = .error cause → cause.isSupported

namespace Supported

variable {α β : Type}

theorem ok (a : α) : Supported (.ok a) := nofun

theorem error {cause : Cause} (h : cause.isSupported) :
    Supported (.error cause : Except Cause α) := by
  rintro _ ⟨⟩
  exact h

theorem bind {x : Except Cause α} {f : α → Except Cause β} (hx : Supported x)
    (hf : ∀ a, Supported (f a)) : Supported (x >>= f) := by
  cases x with
  | ok a => exact hf a
  | error cause => exact .error (hx cause rfl)

theorem ite {c : Prop} [Decidable c] {x y : Except Cause α} (hx : Supported x) (hy : Supported y) :
    Supported (if c then x else y) := by
  split
  · exact hx
  · exact hy

end Supported

variable {change : Value.Change}

theorem AssignOp.onNumber_supported (op : AssignOp) (f : Float → Float → Float)
    (current : Option Value) (value : Value) : Supported (op.onNumber f current value) := by
  unfold onNumber
  split
  · exact .ok _
  · exact .error rfl

theorem AssignOp.change_supported (op : AssignOp) (value : Value) (current : Option Value) :
    Supported (op.change value current) := by
  refine .bind ?_ fun _ => .ok _
  cases op with
  | assign => exact .ok _
  | add =>
    cases current with
    | some => exact .ok _
    | none => exact .error rfl
  | _ => exact onNumber_supported _ _ current value

theorem UpdateOp.change_supported (op : UpdateOp) (side : UpdateSide) (current : Option Value) :
    Supported (op.change side current) := by
  unfold change
  split
  · exact .ok _
  · exact .error rfl

section
variable (hchange : ∀ current, Supported (change current))
include hchange

theorem Value.changeSlot_supported (container key : Value) :
    Supported (changeSlot change container key) := by
  unfold changeSlot
  split
  · exact .bind (hchange _) fun _ => .ok _
  · split
    · exact .ite (.bind (hchange _) fun _ => .ok _) (.error rfl)
    · exact .error rfl
  · exact .error rfl

theorem Value.changeAt_supported (path : List Value) (value : Value) :
    Supported (changeAt change path value) := by
  induction path, value using changeAt.induct with
  | case1 value => exact hchange _
  | case2 key value => exact changeSlot_supported hchange value key
  | case3 key path value hpath hchild =>
    rw [changeAt, hchild]
    · exact .error rfl
    · exact hpath
  | case4 key path value hpath child hchild ih =>
    rw [changeAt, hchild]
    · exact .bind ih fun _ => .ok _
    · exact hpath

theorem ScopeTree.write_supported (t : ScopeTree) (scope : ScopeId) (name : String)
    (path : List Value) (declares : Bool) : Supported (t.write scope name path declares change) := by
  unfold write
  split
  · exact .bind (Value.changeAt_supported hchange _ _) fun _ => .ok _
  · exact .ite (.bind (hchange none) fun _ => .ok _) (.error rfl)

end

-- ---------------------------------------------------------------------------
-- Places
-- ---------------------------------------------------------------------------

variable {P : Span → Prop}

/-- The errors of an action are located at spans with `P`, and none is that a node stands where it
has no meaning. -/
def Action.FailsAt (P : Span → Prop) {σ α : Type} (m : Action σ α) : Prop :=
  ∀ s error, (m s).1 = .error error → P error.location ∧ error.cause.isSupported

namespace Action.FailsAt

variable {σ α β : Type}

theorem of_run_ok {m : Action σ α} {f : σ → α} (h : ∀ s, (m s).1 = .ok (f s)) : FailsAt P m := by
  intro s error herror
  rw [h s] at herror
  cases herror

theorem pure (a : α) : FailsAt P (pure a : Action σ α) := of_run_ok fun _ => rfl

theorem get : FailsAt P (get : Action σ σ) := of_run_ok fun _ => rfl

theorem set (s : σ) : FailsAt P (set s : Action σ PUnit) := of_run_ok fun _ => rfl

theorem throw {cause : Cause} {span : Span} (h : P span) (hcause : cause.isSupported) :
    FailsAt P (throw ⟨cause, span⟩ : Action σ α) := by
  rintro s _ ⟨⟩
  exact ⟨h, hcause⟩

theorem bind {m : Action σ α} {f : α → Action σ β} (hm : FailsAt P m)
    (hf : ∀ a, FailsAt P (f a)) : FailsAt P (m >>= f) := by
  intro s error h
  rw [run_bind] at h
  cases hrun : m s with
  | mk result t =>
    rw [hrun] at h
    cases result with
    | ok a => exact hf a t error h
    | error found =>
      cases h
      exact hm s error (congrArg Prod.fst hrun)

end Action.FailsAt

open PromptTemplate.Action (FailsAt)

variable {scene : Scene} {span : Span}

theorem Eval.changeScopes_failsAt (h : P span)
    {change : ScopeTree → Except Cause (Value × ScopeTree)}
    (hchange : ∀ scopes, Supported (change scopes)) :
    FailsAt P (Eval.changeScopes span change) := by
  refine .bind .get fun store => .bind ?_ fun result => .bind (.set _) fun _ => .pure _
  have hcause := hchange store.scopes
  cases hresult : change store.scopes with
  | ok found => exact .pure found
  | error cause => exact .throw h (hcause cause hresult)

theorem Eval.call_failsAt (h : P span) (host : Host) (function : Handle) (arguments : List Value) :
    FailsAt P (Eval.call host span function arguments) := by
  refine .bind .get fun store => .bind (.set _) fun _ => ?_
  split
  · exact .pure _
  · exact .throw h rfl

theorem Scene.lookup_failsAt (h : P span) (name : String) : FailsAt P (scene.lookup span name) := by
  refine .bind .get fun store => ?_
  split
  · exact .pure _
  · exact .throw h rfl

theorem orNull_failsAt {m : Eval (Option Value)} (h : FailsAt P m) : FailsAt P (orNull m) :=
  .bind h fun _ => .pure _

mutual

theorem evalChain_failsAt : (e : Expr) → e.Spanned P → FailsAt P (evalChain scene e)
  | .literal _ _, _ => by
    simp only [evalChain]
    exact .pure _
  | .identifier span name, h => by
    simp only [evalChain]
    exact .bind (Scene.lookup_failsAt h name) fun _ => .pure _
  | .member span base property optional, ⟨hspan, hbase, hproperty⟩ => by
    simp only [evalChain]
    refine .bind (evalChain_failsAt base hbase) fun target => ?_
    cases target with
    | none => exact .pure _
    | some target =>
      dsimp only
      split
      · exact .pure _
      · refine .bind (evalKey_failsAt property hproperty) fun key => ?_
        split
        · exact .pure _
        · split
          · exact .pure _
          · exact .throw hspan rfl
  | .call span callee arguments, ⟨hspan, hcallee, harguments⟩ => by
    simp only [evalChain]
    refine .bind (evalChain_failsAt callee hcallee) fun target => ?_
    cases target with
    | none => exact .pure _
    | some target =>
      refine .bind (evalElements_failsAt arguments harguments) fun values => ?_
      split
      · exact .bind (Eval.call_failsAt hspan _ _ _) fun _ => .pure _
      · exact .throw hspan rfl
  | .array _ elements, ⟨_, helements⟩ => by
    simp only [evalChain]
    exact .bind (evalElements_failsAt elements helements) fun _ => .pure _
  | .object _ entries, ⟨_, hentries⟩ => by
    simp only [evalChain]
    exact .bind (evalEntries_failsAt [] entries hentries) fun _ => .pure _
  | .unary span op operand, ⟨hspan, hoperand⟩ => by
    simp only [evalChain]
    split
    · exact .bind (orNull_failsAt (evalChain_failsAt operand hoperand)) fun _ => .pure _
    · exact .throw hspan rfl
  | .binary span op left right, ⟨hspan, hleft, hright⟩ => by
    have hl := orNull_failsAt (evalChain_failsAt left hleft)
    have hr := orNull_failsAt (evalChain_failsAt right hright)
    simp only [evalChain]
    split
    · exact .bind hl fun _ => .bind hr fun _ => .pure _
    · refine .bind hl fun a => ?_
      split
      · exact .pure _
      · exact .bind hr fun _ => .pure _
    · exact .throw hspan rfl
  | .conditional _ test consequent alternate, ⟨_, htest, hconsequent, halternate⟩ => by
    simp only [evalChain]
    refine .bind (orNull_failsAt (evalChain_failsAt test htest)) fun _ => ?_
    split
    · exact .bind (orNull_failsAt (evalChain_failsAt consequent hconsequent)) fun _ => .pure _
    · exact .bind (orNull_failsAt (evalChain_failsAt alternate halternate)) fun _ => .pure _
  | .assignment span op target value, ⟨hspan, htarget, hvalue⟩ => by
    simp only [evalChain]
    refine .bind (evalPath_failsAt target htarget) fun path => ?_
    refine .bind (orNull_failsAt (evalChain_failsAt value hvalue)) fun _ => ?_
    refine .bind (Eval.changeScopes_failsAt hspan fun scopes => ?_) fun _ => .pure _
    exact scopes.write_supported (op.change_supported _) _ _ _ _
  | .update span op side target, ⟨hspan, htarget⟩ => by
    simp only [evalChain]
    refine .bind (evalPath_failsAt target htarget) fun path => ?_
    refine .bind (Eval.changeScopes_failsAt hspan fun scopes => ?_) fun _ => .pure _
    exact scopes.write_supported (op.change_supported side) _ _ _ _

theorem evalKey_failsAt :
    (property : Property) → property.Spanned P → FailsAt P (evalKey scene property)
  | .named _, _ => by
    simp only [evalKey]
    exact .pure _
  | .computed key, h => by
    simp only [evalKey]
    exact orNull_failsAt (evalChain_failsAt key h)

theorem evalElements_failsAt :
    (elements : List Element) → Element.AllSpanned P elements →
      FailsAt P (evalElements scene elements)
  | [], _ => by
    simp only [evalElements]
    exact .pure _
  | .single element :: rest, ⟨helement, hrest⟩ => by
    simp only [evalElements]
    refine .bind (orNull_failsAt (evalChain_failsAt element helement)) fun _ => ?_
    exact .bind (evalElements_failsAt rest hrest) fun _ => .pure _
  | .spread element :: rest, ⟨helement, hrest⟩ => by
    simp only [evalElements]
    refine .bind (orNull_failsAt (evalChain_failsAt element helement)) fun _ => ?_
    split
    · exact .bind (evalElements_failsAt rest hrest) fun _ => .pure _
    · exact .throw helement.own rfl

theorem evalEntries_failsAt (earlier : Dict Value) :
    (entries : List Entry) → Entry.AllSpanned P entries →
      FailsAt P (evalEntries scene earlier entries)
  | [], _ => by
    simp only [evalEntries]
    exact .pure _
  | .named name value :: rest, ⟨hvalue, hrest⟩ => by
    simp only [evalEntries]
    refine .bind (orNull_failsAt (evalChain_failsAt value hvalue)) fun _ => ?_
    exact evalEntries_failsAt _ rest hrest
  | .computed key value :: rest, ⟨hkey, hvalue, hrest⟩ => by
    simp only [evalEntries]
    refine .bind (orNull_failsAt (evalChain_failsAt key hkey)) fun _ => ?_
    split
    · refine .bind (orNull_failsAt (evalChain_failsAt value hvalue)) fun _ => ?_
      exact evalEntries_failsAt _ rest hrest
    · exact .throw hkey.own rfl
  | .spread value :: rest, ⟨hvalue, hrest⟩ => by
    simp only [evalEntries]
    refine .bind (orNull_failsAt (evalChain_failsAt value hvalue)) fun _ => ?_
    split
    · exact evalEntries_failsAt _ rest hrest
    · exact .throw hvalue.own rfl

theorem evalPath_failsAt :
    (target : Expr) → target.Spanned P → FailsAt P (evalPath scene target)
  | .identifier _ _, _ => by
    simp only [evalPath]
    exact .pure _
  | .member span base property optional, ⟨hspan, hbase, hproperty⟩ => by
    simp only [evalPath]
    split
    · exact .throw hspan rfl
    · refine .bind (evalPath_failsAt base hbase) fun _ => ?_
      exact .bind (evalKey_failsAt property hproperty) fun _ => .pure _
  | .literal .., h | .array .., h | .object .., h | .call .., h | .unary .., h
  | .binary .., h | .conditional .., h | .assignment .., h | .update .., h => by
    simp only [evalPath]
    exact .throw (Expr.Spanned.own h) rfl

end

theorem eval_failsAt {e : Expr} (h : e.Spanned P) : FailsAt P (eval scene e) :=
  orNull_failsAt (evalChain_failsAt e h)

end PromptTemplate
