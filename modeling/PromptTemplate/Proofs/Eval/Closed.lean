import PromptTemplate.Eval
import PromptTemplate.Proofs.Action
import PromptTemplate.Proofs.Syntax.Names

/-!
# Properties of every evaluation

Evaluation is made of a few operations put one after another. A property
that these have and that sequencing keeps holds of the evaluation of any
expression (`eval_closed`); of the writes, only those to the targets in the
expression have to have it.
-/

namespace PromptTemplate

mutual

/-- The expression is or contains an assignment or an update. -/
def Expr.writes : Expr → Bool
  | .literal .. | .identifier .. => false
  | .member _ object property _ => object.writes || property.writes
  | .array _ elements => Element.anyWrites elements
  | .object _ entries => Entry.anyWrites entries
  | .call _ callee arguments => callee.writes || Element.anyWrites arguments
  | .unary _ _ operand => operand.writes
  | .binary _ _ left right => left.writes || right.writes
  | .conditional _ test consequent alternate =>
    test.writes || consequent.writes || alternate.writes
  | .assignment .. | .update .. => true

def Property.writes : Property → Bool
  | .named _ => false
  | .computed key => key.writes

def Element.anyWrites : List Element → Bool
  | [] => false
  | .single value :: rest | .spread value :: rest => value.writes || Element.anyWrites rest

def Entry.anyWrites : List Entry → Bool
  | [] => false
  | .named _ value :: rest | .spread value :: rest => value.writes || Entry.anyWrites rest
  | .computed key value :: rest => key.writes || value.writes || Entry.anyWrites rest

end

mutual
/-- What has no targets writes nothing. -/
theorem Expr.targets_eq_nil : (e : Expr) → (e.targets = [] ↔ e.writes = false)
  | .literal .. | .identifier .. | .assignment .. | .update .. => by
    simp [Expr.targets, Expr.writes]
  | .member _ base property _ => by
    simp [Expr.targets, Expr.writes, base.targets_eq_nil, property.targets_eq_nil]
  | .array _ elements => Element.targetsAll_eq_nil elements
  | .object _ entries => Entry.targetsAll_eq_nil entries
  | .call _ callee arguments => by
    simp [Expr.targets, Expr.writes, callee.targets_eq_nil, Element.targetsAll_eq_nil arguments]
  | .unary _ _ operand => operand.targets_eq_nil
  | .binary _ _ left right => by
    simp [Expr.targets, Expr.writes, left.targets_eq_nil, right.targets_eq_nil]
  | .conditional _ test consequent alternate => by
    simp [Expr.targets, Expr.writes, test.targets_eq_nil, consequent.targets_eq_nil,
      alternate.targets_eq_nil, and_assoc]

theorem Property.targets_eq_nil : (property : Property) →
    (property.targets = [] ↔ property.writes = false)
  | .named _ => by simp [Property.targets, Property.writes]
  | .computed key => key.targets_eq_nil

theorem Element.targetsAll_eq_nil : (elements : List Element) →
    (Element.targetsAll elements = [] ↔ Element.anyWrites elements = false)
  | [] => by simp [Element.targetsAll, Element.anyWrites]
  | .single value :: rest | .spread value :: rest => by
    simp [Element.targetsAll, Element.anyWrites, value.targets_eq_nil,
      Element.targetsAll_eq_nil rest]

theorem Entry.targetsAll_eq_nil : (entries : List Entry) →
    (Entry.targetsAll entries = [] ↔ Entry.anyWrites entries = false)
  | [] => by simp [Entry.targetsAll, Entry.anyWrites]
  | .named _ value :: rest | .spread value :: rest => by
    simp [Entry.targetsAll, Entry.anyWrites, value.targets_eq_nil, Entry.targetsAll_eq_nil rest]
  | .computed key value :: rest => by
    simp [Entry.targetsAll, Entry.anyWrites, key.targets_eq_nil, value.targets_eq_nil,
      Entry.targetsAll_eq_nil rest, and_assoc]

end

/-- `P` holds of the operations that evaluation in a scene is made of, other
than writing, and sequencing keeps it. What comes second has to have it for
the values that the first part may give. -/
structure EvalClosed (scene : Scene) (P : {α : Type} → Eval α → Prop) : Prop where
  pure : ∀ {α : Type} (a : α), P (pure a : Eval α)
  bind_yields : ∀ {α β : Type} {m : Eval α} {f : α → Eval β}, P m →
    (∀ a, Action.Yields m a → P (f a)) → P (m >>= f)
  fail : ∀ {α : Type} (cause : Cause) (span : Span), P (Eval.fail cause span : Eval α)
  lookup : ∀ (span : Span) (name : String), P (scene.lookup span name)
  call : ∀ (span : Span) (function : Handle) (arguments : List Value),
    P (Eval.call scene.host span function arguments)

/-- `P` holds of every write to a target, wherever in its variable that leads. -/
def TargetClosed (scene : Scene) (P : {α : Type} → Eval α → Prop) (target : Target) : Prop :=
  ∀ span name path change, Action.Yields (evalPath scene target.place) (name, path) →
    P (Eval.changeScopes span fun scopes =>
      scopes.write scene.scope name path target.isPlain change)

namespace EvalClosed

variable {scene : Scene} {P : {α : Type} → Eval α → Prop}

theorem bind (hP : EvalClosed scene P) {m : Eval α} {f : α → Eval β} (hm : P m)
    (hf : ∀ a, P (f a)) : P (m >>= f) :=
  hP.bind_yields hm fun a _ => hf a

theorem orNull (hP : EvalClosed scene P) (h : P m) : P (orNull m) :=
  hP.bind h fun _ => hP.pure _

mutual

theorem chain (hP : EvalClosed scene P) :
    (e : Expr) → (∀ target ∈ e.targets, TargetClosed scene P target) → P (evalChain scene e)
  | .literal _ _, _ => by
    simp only [evalChain]
    exact hP.pure _
  | .identifier span name, _ => by
    simp only [evalChain]
    exact hP.bind (hP.lookup span name) fun _ => hP.pure _
  | .member span base property optional, hw => by
    obtain ⟨hbase, hproperty⟩ := List.forall_mem_append.mp hw
    simp only [evalChain]
    refine hP.bind (hP.chain base hbase) fun target => ?_
    cases target with
    | none => exact hP.pure _
    | some target =>
      dsimp only
      split
      · exact hP.pure _
      · refine hP.bind (hP.key property hproperty) fun key => ?_
        split
        · exact hP.pure _
        · split
          · exact hP.pure _
          · exact hP.fail _ _
  | .call span callee arguments, hw => by
    obtain ⟨hcallee, harguments⟩ := List.forall_mem_append.mp hw
    simp only [evalChain]
    refine hP.bind (hP.chain callee hcallee) fun target => ?_
    cases target with
    | none => exact hP.pure _
    | some target =>
      refine hP.bind (hP.elements arguments harguments) fun values => ?_
      split
      · exact hP.bind (hP.call _ _ _) fun _ => hP.pure _
      · exact hP.fail _ _
  | .array _ elements, hw => by
    simp only [evalChain]
    exact hP.bind (hP.elements elements hw) fun _ => hP.pure _
  | .object _ entries, hw => by
    simp only [evalChain]
    exact hP.bind (hP.entries [] entries hw) fun _ => hP.pure _
  | .unary span op operand, hw => by
    simp only [evalChain]
    split
    · exact hP.bind (hP.orNull (hP.chain operand hw)) fun _ => hP.pure _
    · exact hP.fail _ _
  | .binary span op left right, hw => by
    obtain ⟨hleft, hright⟩ := List.forall_mem_append.mp hw
    have hl := hP.orNull (hP.chain left hleft)
    have hr := hP.orNull (hP.chain right hright)
    simp only [evalChain]
    split
    · exact hP.bind hl fun _ => hP.bind hr fun _ => hP.pure _
    · refine hP.bind hl fun a => ?_
      split
      · exact hP.pure _
      · exact hP.bind hr fun _ => hP.pure _
    · exact hP.fail _ _
  | .conditional _ test consequent alternate, hw => by
    obtain ⟨hrest, halternate⟩ := List.forall_mem_append.mp hw
    obtain ⟨htest, hconsequent⟩ := List.forall_mem_append.mp hrest
    simp only [evalChain]
    refine hP.bind (hP.orNull (hP.chain test htest)) fun _ => ?_
    split
    · exact hP.bind (hP.orNull (hP.chain consequent hconsequent)) fun _ => hP.pure _
    · exact hP.bind (hP.orNull (hP.chain alternate halternate)) fun _ => hP.pure _
  | .assignment span op place value, hw => by
    obtain ⟨hwrite, hw⟩ := List.forall_mem_cons.mp hw
    obtain ⟨hplace, hvalue⟩ := List.forall_mem_append.mp hw
    simp only [evalChain]
    refine hP.bind_yields (hP.path place hplace) fun path hpath => ?_
    refine hP.bind (hP.orNull (hP.chain value hvalue)) fun _ => ?_
    exact hP.bind (hwrite span _ _ _ hpath) fun _ => hP.pure _
  | .update span op side place, hw => by
    obtain ⟨hwrite, hplace⟩ := List.forall_mem_cons.mp hw
    simp only [evalChain]
    refine hP.bind_yields (hP.path place hplace) fun path hpath => ?_
    exact hP.bind (hwrite span _ _ _ hpath) fun _ => hP.pure _

theorem key (hP : EvalClosed scene P) :
    (property : Property) → (∀ target ∈ property.targets, TargetClosed scene P target) →
      P (evalKey scene property)
  | .named _, _ => by
    simp only [evalKey]
    exact hP.pure _
  | .computed key, hw => by
    simp only [evalKey]
    exact hP.orNull (hP.chain key hw)

theorem elements (hP : EvalClosed scene P) :
    (elements : List Element) →
      (∀ target ∈ Element.targetsAll elements, TargetClosed scene P target) →
      P (evalElements scene elements)
  | [], _ => by
    simp only [evalElements]
    exact hP.pure _
  | .single element :: rest, hw => by
    obtain ⟨helement, hrest⟩ := List.forall_mem_append.mp hw
    simp only [evalElements]
    refine hP.bind (hP.orNull (hP.chain element helement)) fun _ => ?_
    exact hP.bind (hP.elements rest hrest) fun _ => hP.pure _
  | .spread element :: rest, hw => by
    obtain ⟨helement, hrest⟩ := List.forall_mem_append.mp hw
    simp only [evalElements]
    refine hP.bind (hP.orNull (hP.chain element helement)) fun _ => ?_
    split
    · exact hP.bind (hP.elements rest hrest) fun _ => hP.pure _
    · exact hP.fail _ _

theorem entries (hP : EvalClosed scene P) (earlier : Dict Value) :
    (entries : List Entry) →
      (∀ target ∈ Entry.targetsAll entries, TargetClosed scene P target) →
      P (evalEntries scene earlier entries)
  | [], _ => by
    simp only [evalEntries]
    exact hP.pure _
  | .named name value :: rest, hw => by
    obtain ⟨hvalue, hrest⟩ := List.forall_mem_append.mp hw
    simp only [evalEntries]
    refine hP.bind (hP.orNull (hP.chain value hvalue)) fun _ => ?_
    exact hP.entries _ rest hrest
  | .computed key value :: rest, hw => by
    obtain ⟨hboth, hrest⟩ := List.forall_mem_append.mp hw
    obtain ⟨hkey, hvalue⟩ := List.forall_mem_append.mp hboth
    simp only [evalEntries]
    refine hP.bind (hP.orNull (hP.chain key hkey)) fun _ => ?_
    split
    · refine hP.bind (hP.orNull (hP.chain value hvalue)) fun _ => ?_
      exact hP.entries _ rest hrest
    · exact hP.fail _ _
  | .spread value :: rest, hw => by
    obtain ⟨hvalue, hrest⟩ := List.forall_mem_append.mp hw
    simp only [evalEntries]
    refine hP.bind (hP.orNull (hP.chain value hvalue)) fun _ => ?_
    split
    · exact hP.entries _ rest hrest
    · exact hP.fail _ _

theorem path (hP : EvalClosed scene P) :
    (place : Expr) → (∀ target ∈ place.targets, TargetClosed scene P target) →
      P (evalPath scene place)
  | .identifier _ _, _ => by
    simp only [evalPath]
    exact hP.pure _
  | .member span base property optional, hw => by
    obtain ⟨hbase, hproperty⟩ := List.forall_mem_append.mp hw
    simp only [evalPath]
    split
    · exact hP.fail _ _
    · refine hP.bind (hP.path base hbase) fun _ => ?_
      exact hP.bind (hP.key property hproperty) fun _ => hP.pure _
  | .literal .., _ | .array .., _ | .object .., _ | .call .., _ | .unary .., _
  | .binary .., _ | .conditional .., _ | .assignment .., _ | .update .., _ => by
    simp only [evalPath]
    exact hP.fail _ _

end

end EvalClosed

theorem eval_closed (hP : EvalClosed scene P) (e : Expr)
    (hw : ∀ target ∈ e.targets, TargetClosed scene P target) : P (eval scene e) :=
  hP.orNull (hP.chain e hw)

/-- Where a target leads: to the variable that it starts from, and below it
unless the target is that variable itself. -/
theorem evalPath_yields {scene : Scene} : (place : Expr) → {name : String} → {path : List Value} →
    Action.Yields (evalPath scene place) (name, path) →
      place.root? = some name ∧ (path = [] → ∃ span, place = .identifier span name)
  | .identifier span _, _, _, h => by
    obtain ⟨s, t, h⟩ := h
    simp only [evalPath, Action.pure_ok, Prod.mk.injEq] at h
    obtain ⟨⟨rfl, -⟩, -⟩ := h
    exact ⟨by simp only [Expr.root?], fun _ => ⟨span, rfl⟩⟩
  | .member _ base _ optional, name, path, h => by
    obtain ⟨s, t, h⟩ := h
    simp only [evalPath] at h
    split at h
    · cases h
    · obtain ⟨⟨root, keys⟩, u, hbase, h⟩ := Action.bind_ok.mp h
      obtain ⟨key, v, -, h⟩ := Action.bind_ok.mp h
      simp only [Action.pure_ok, Prod.mk.injEq] at h
      obtain ⟨⟨rfl, rfl⟩, -⟩ := h
      have hroot := (evalPath_yields base ⟨s, u, hbase⟩).1
      exact ⟨by simpa only [Expr.root?] using hroot, fun hpath => by simp at hpath⟩
  | .literal .., _, _, h | .array .., _, _, h | .object .., _, _, h | .call .., _, _, h
  | .unary .., _, _, h | .binary .., _, _, h | .conditional .., _, _, h
  | .assignment .., _, _, h | .update .., _, _, h => by
    obtain ⟨s, t, h⟩ := h
    simp only [evalPath] at h
    cases h

end PromptTemplate
