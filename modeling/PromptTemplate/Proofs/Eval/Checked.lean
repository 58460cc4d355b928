import PromptTemplate.Proofs.Eval.Effects
import PromptTemplate.Proofs.Scope.Touched

/-!
# Frames that are there

Evaluation again, with a check in front of every operation on a frame: it stops
for good, which no failure does, unless the frame is there and every frame but
the root has an older parent. No check stops it (`eval_agrees`), so evaluation
is what it is without them, and leaves as many frames as it found.
-/

namespace PromptTemplate

-- ---------------------------------------------------------------------------
-- Frames and their parents
-- ---------------------------------------------------------------------------

namespace ScopeTree

/-- Every frame but the root, which has none, has an older parent. -/
def rooted : List Frame → Bool
  | [] => true
  | frame :: older =>
    (match frame.parent with
      | some parent => decide (parent < older.length)
      | none => older.isEmpty) && rooted older

/-- The frame is there, and so are all frames from it to the root. -/
def admits (t : ScopeTree) (scope : ScopeId) : Bool :=
  decide (scope < t.frames.length) && rooted t.frames

/-- The tree has `n` frames, from each of which parents lead to the root. -/
structure Stands (n : Nat) (t : ScopeTree) : Prop where
  rooted : rooted t.frames = true
  length : t.frames.length = n

theorem frameIn?_cons {frame found : Frame} {older : List Frame} {id : Nat}
    (h : frameIn? older id = some found) : frameIn? (frame :: older) id = some found := by
  rw [frameIn?_older, h]
  rintro rfl
  rw [frameIn?_eq_none (Nat.le_refl _)] at h
  cases h

theorem rooted_iff {frames : List Frame} :
    rooted frames = true ↔ ∀ id frame, frameIn? frames id = some frame →
      (∀ parent, frame.parent = some parent → parent < id) ∧
        (frame.parent = none → id = root) := by
  induction frames with
  | nil => simp [rooted, frameIn?]
  | cons frame older ih =>
    rw [rooted, Bool.and_eq_true, ih]
    constructor
    · rintro ⟨hparent, holder⟩ id found hfound
      by_cases hid : id = older.length
      · subst hid
        rw [frameIn?_newest] at hfound
        cases hfound
        refine ⟨fun parent hp => ?_, fun hp => ?_⟩
        · simpa [hp] using hparent
        · simpa [hp, root] using hparent
      · rw [frameIn?_older hid] at hfound
        exact holder id found hfound
    · intro h
      refine ⟨?_, fun id found hfound => h id found (frameIn?_cons hfound)⟩
      obtain ⟨hlt, hroot⟩ := h older.length frame frameIn?_newest
      cases hp : frame.parent with
      | some parent => simpa using hlt parent hp
      | none => simpa [root] using hroot hp

theorem admits_iff {t : ScopeTree} {scope : ScopeId} :
    t.admits scope = true ↔ scope < t.frames.length ∧
      ∀ id frame, t.frame? id = some frame →
        (∀ parent, frame.parent = some parent → parent < id) ∧
          (frame.parent = none → id = root) := by
  rw [admits, Bool.and_eq_true, decide_eq_true_eq, rooted_iff]
  rfl

theorem rooted_of_parents {frames others : List Frame}
    (h : frames.map Frame.parent = others.map Frame.parent) : rooted frames = rooted others := by
  induction frames generalizing others with
  | nil => rw [List.map_eq_nil_iff.mp h.symm]
  | cons frame older ih =>
    cases others with
    | nil => cases h
    | cons other rest =>
      obtain ⟨hparent, hrest⟩ := List.cons.inj h
      have hlength := length_of_map hrest
      have hempty : older.isEmpty = rest.isEmpty := by
        rw [Bool.eq_iff_iff, List.isEmpty_iff_length_eq_zero, List.isEmpty_iff_length_eq_zero,
          hlength]
      rw [rooted, rooted, hparent, hlength, hempty, ih hrest]

/-- The frames that a walk from a frame to the root passes, each of them there and with a parent
of a lower number, up to the root. -/
inductive Chain (frames : List Frame) : ScopeId → List (ScopeId × Frame) → Prop
  | root {frame : Frame} : frameIn? frames root = some frame → frame.parent = none →
      Chain frames root [(root, frame)]
  | step {scope parent : ScopeId} {frame : Frame} {chain : List (ScopeId × Frame)} :
      frameIn? frames scope = some frame → frame.parent = some parent → parent < scope →
      Chain frames parent chain → Chain frames scope ((scope, frame) :: chain)

/-- What a frame that is passed binds a name to. -/
def held? (name : String) (passed : ScopeId × Frame) : Option (ScopeId × Value) :=
  (Dict.get? passed.2.bindings name).map fun value => (passed.1, value)

theorem Chain.cons {frame : Frame} {older : List Frame} {scope : ScopeId}
    {chain : List (ScopeId × Frame)} (h : Chain older scope chain) :
    Chain (frame :: older) scope chain := by
  induction h with
  | root hframe hparent => exact .root (frameIn?_cons hframe) hparent
  | step hframe hparent hlt _ ih => exact .step (frameIn?_cons hframe) hparent hlt ih

/-- A walk to the root ends. A name is looked up in the frames that it passes, and they make up
what is visible. -/
theorem exists_chain {frames : List Frame} (h : rooted frames = true) {scope : Nat}
    (hscope : scope < frames.length) :
    ∃ chain, Chain frames scope chain ∧
      (∀ name, ownerIn? name frames scope = chain.findSome? (held? name)) ∧
      snapshotIn frames scope =
        chain.foldr (fun passed outer => Dict.putAll outer passed.2.bindings) [] := by
  induction frames generalizing scope with
  | nil => cases hscope
  | cons frame older ih =>
    rw [rooted, Bool.and_eq_true] at h
    obtain ⟨hparent, holder⟩ := h
    by_cases hnewest : scope = older.length
    · subst hnewest
      cases hp : frame.parent with
      | none =>
        rw [hp, List.isEmpty_iff] at hparent
        subst hparent
        refine ⟨[(root, frame)], .root rfl hp, fun name => ?_, ?_⟩
        · rw [ownerIn?_newest, hp]
          cases hget : Dict.get? frame.bindings name <;> simp [held?, hget, root]
        · rw [snapshotIn_newest, hp]
          rfl
      | some parent =>
        -- The walk goes on among the older frames, which are numbered without the newest one.
        rw [hp, decide_eq_true_eq] at hparent
        obtain ⟨chain, hchain, howner, hsnapshot⟩ := ih holder hparent
        refine ⟨(older.length, frame) :: chain, .step frameIn?_newest hp hparent hchain.cons,
          fun name => ?_, ?_⟩
        · rw [ownerIn?_newest, hp, List.findSome?_cons, ← howner]
          cases hget : Dict.get? frame.bindings name <;> simp [held?, hget]
        · rw [snapshotIn_newest, hp, List.foldr_cons, ← hsnapshot]
    · have hlt : scope < older.length := by
        rw [List.length_cons] at hscope
        omega
      obtain ⟨chain, hchain, howner, hsnapshot⟩ := ih holder hlt
      refine ⟨chain, hchain.cons, fun name => ?_, ?_⟩
      · rw [ownerIn?_older hnewest, howner]
      · rw [snapshotIn_older hnewest, hsnapshot]

namespace Stands

variable {n : Nat} {t u : ScopeTree} {scope : ScopeId}

theorem admits (h : Stands n t) (hscope : scope < n) : t.admits scope = true := by
  simp [ScopeTree.admits, h.rooted, h.length, hscope]

theorem ofBindings (bindings : Dict Value) : Stands 1 (ofBindings bindings) := ⟨rfl, rfl⟩

theorem bind (h : Stands n t) (scope : ScopeId) (name : String) (value : Value) :
    Stands n (t.bind scope name value) where
  rooted := (rooted_of_parents (parents_bind t scope name value)).trans h.rooted
  length := (length_frames_bind ..).trans h.length

theorem write {name : String} {path : List Value} {declares : Bool} {change : Value.Change}
    {result : Value} (h : Stands n t)
    (hwrite : t.write scope name path declares change = .ok (result, u)) : Stands n u := by
  obtain ⟨owner, old, changed, -, -, rfl⟩ | ⟨stored, -, -, -, -, rfl⟩ := write_cases hwrite
  · exact h.bind owner name changed
  · exact h.bind scope name stored

theorem declare {name : String} {value : Value} (h : Stands n t)
    (hdeclare : t.declare? scope name value = some u) : Stands n u := by
  unfold declare? at hdeclare
  split at hdeclare
  · cases hdeclare
  · cases hdeclare
    exact h.bind scope name value

theorem enter (h : Stands n t) {parent : ScopeId} (hparent : parent < n) :
    Stands (n + 1) (t.enter parent).2 where
  rooted := by simp [ScopeTree.enter, ScopeTree.rooted, h.rooted, h.length, hparent]
  length := congrArg (· + 1) h.length

theorem exit (h : Stands (n + 1) t) (hpos : n ≠ 0) : Stands n (t.exit n) := by
  have hframes := frames_exit hpos h.length
  obtain ⟨hrooted, hlength⟩ := h
  obtain ⟨frames⟩ := t
  cases frames with
  | nil => cases hlength
  | cons frame older =>
    rw [ScopeTree.rooted, Bool.and_eq_true] at hrooted
    exact ⟨by rw [hframes]; exact hrooted.2, by rw [hframes]; exact Nat.succ.inj hlength⟩

end Stands

end ScopeTree

-- ---------------------------------------------------------------------------
-- Checks of frames
-- ---------------------------------------------------------------------------

/-- States that hold the frames of a program. -/
class HasScopes (σ : Type) where
  scopes : σ → ScopeTree

instance : HasScopes Store := ⟨Store.scopes⟩

namespace Checked

variable {σ α β : Type}

/-- An action that is given no frame. -/
def free (m : Action σ α) : Checked σ α := fun s => some (m s)

theorem free_pure (a : α) : free (pure a : Action σ α) = pure a := rfl

/-- An action on a frame. It has no outcome if the frame is not there. -/
def onFrame [HasScopes σ] (scope : ScopeId) (m : Action σ α) : Checked σ α := fun s =>
  if (HasScopes.scopes s).admits scope then some (m s) else none

end Checked

/-- Leaves `n` frames where there are `n`, also on failure. -/
def LeavesStanding {σ α : Type} [HasScopes σ] (n : Nat) (m : Action σ α) : Prop :=
  ∀ s, ScopeTree.Stands n (HasScopes.scopes s) → ScopeTree.Stands n (HasScopes.scopes (m s).2)

/-- With `n` frames no check stops the first action, which does what the second one does and leaves
`n` frames, also if it fails. -/
structure Agrees {σ α : Type} [HasScopes σ] (n : Nat) (checked : Checked σ α) (m : Action σ α) :
    Prop where
  same : ∀ s, ScopeTree.Stands n (HasScopes.scopes s) → checked s = some (m s)
  leaves : LeavesStanding n m

section
variable {σ α β : Type} [HasScopes σ] {n : Nat}

namespace LeavesStanding

theorem of_scopes {m : Action σ α} (h : ∀ s, HasScopes.scopes (m s).2 = HasScopes.scopes s) :
    LeavesStanding n m :=
  fun s hs => (h s).symm ▸ hs

theorem bind {m : Action σ α} {f : α → Action σ β} (hm : LeavesStanding n m)
    (hf : ∀ a, LeavesStanding n (f a)) : LeavesStanding n (m >>= f) := fun s =>
  Action.relates_bind
    (R := fun s t => ScopeTree.Stands n (HasScopes.scopes s) →
      ScopeTree.Stands n (HasScopes.scopes t))
    (fun h h' hs => h' (h hs)) (hm s) fun a t _ => hf a t

end LeavesStanding

namespace Agrees

theorem pure (a : α) : Agrees n (pure a : Checked σ α) (pure a) where
  same _ _ := rfl
  leaves := .of_scopes fun _ => rfl

theorem bind {checked : Checked σ α} {m : Action σ α} {next : α → Checked σ β}
    {f : α → Action σ β} (hm : Agrees n checked m) (hf : ∀ a, Agrees n (next a) (f a)) :
    Agrees n (checked >>= next) (m >>= f) where
  same s hs := by
    have hafter := hm.leaves s hs
    rw [Checked.run_bind, Action.run_bind, hm.same s hs]
    cases hrun : m s with
    | mk result t =>
      rw [hrun] at hafter
      cases result with
      | ok a => exact (hf a).same t hafter
      | error error => rfl
  leaves := hm.leaves.bind fun a => (hf a).leaves

/-- There is nothing to check where no frame is given. -/
theorem free {m : Action σ α} (h : LeavesStanding n m) : Agrees n (Checked.free m) m where
  same _ _ := rfl
  leaves := h

theorem onFrame {scope : ScopeId} (hscope : scope < n) {m : Action σ α} (h : LeavesStanding n m) :
    Agrees n (Checked.onFrame scope m) m where
  same _ hs := if_pos (hs.admits hscope)
  leaves := h

end Agrees

end

-- ---------------------------------------------------------------------------
-- Evaluation
-- ---------------------------------------------------------------------------

namespace Checked

def lookup (scene : Scene) (span : Span) (name : String) : Checked Store Value :=
  onFrame scene.scope (scene.lookup span name)

def write (scene : Scene) (span : Span) (name : String) (path : List Value) (declares : Bool)
    (change : Value.Change) : Checked Store Value :=
  onFrame scene.scope (Eval.changeScopes span (·.write scene.scope name path declares change))

def fail {α : Type} (cause : Cause) (span : Span) : Checked Store α := free (Eval.fail cause span)

def orNull (chain : Checked Store (Option Value)) : Checked Store Value :=
  return (← chain).getD .null

mutual

def evalChain (scene : Scene) : Expr → Checked Store (Option Value)
  | .literal _ value => return some value.toValue
  | .identifier span name => return some (← lookup scene span name)
  | .member span base property optional => do
    match ← evalChain scene base with
    | none => return none
    | some target =>
      if optional && target.isNullish then return none
      else
        let key ← evalKey scene property
        match target.property? key with
        | some value => return some value
        | none =>
          if optional then return some .null
          else fail (.noSuchProperty key.render) span
  | .call span callee arguments => do
    match ← evalChain scene callee with
    | none => return none
    | some target =>
      let arguments ← evalElements scene arguments
      match target with
      | .function function => return some (← free (Eval.call scene.host span function arguments))
      | other => fail (.notAFunction other.typeName) span
  | .array _ elements => return some (.array (← evalElements scene elements))
  | .object _ entries => return some (.object (← evalEntries scene [] entries))
  | .unary span op operand => do
    if op.isSupported then return some (op.apply (← orNull (evalChain scene operand)))
    else fail (.unsupportedOperator op.text) span
  | .binary span op left right =>
    match op.meaning with
    | .plain apply => do
      let a ← orNull (evalChain scene left)
      let b ← orNull (evalChain scene right)
      return some (apply a b)
    | .stopsAt condition => do
      let a ← orNull (evalChain scene left)
      if condition a then return some a else return some (← orNull (evalChain scene right))
    | .unsupported => fail (.unsupportedOperator op.text) span
  | .conditional _ test consequent alternate => do
    if (← orNull (evalChain scene test)).isTruthy then
      return some (← orNull (evalChain scene consequent))
    else return some (← orNull (evalChain scene alternate))
  | .assignment span op target value => do
    let (name, path) ← evalPath scene target
    let value ← orNull (evalChain scene value)
    return some (← write scene span name path (op = .assign) (op.change value))
  | .update span op side target => do
    let (name, path) ← evalPath scene target
    return some (← write scene span name path false (op.change side))

def evalKey (scene : Scene) : Property → Checked Store Value
  | .named name => return .string name
  | .computed key => orNull (evalChain scene key)

def evalElements (scene : Scene) : List Element → Checked Store (List Value)
  | [] => return []
  | .single element :: rest => do
    let value ← orNull (evalChain scene element)
    return value :: (← evalElements scene rest)
  | .spread element :: rest => do
    let value ← orNull (evalChain scene element)
    match value.spreadItems? with
    | some items => return items ++ (← evalElements scene rest)
    | none => fail (.spreadNotIterable (scene.snippet element.span)) element.span

def evalEntries (scene : Scene) (earlier : Dict Value) : List Entry → Checked Store (Dict Value)
  | [] => return earlier
  | .named key value :: rest => do
    let value ← orNull (evalChain scene value)
    evalEntries scene (Dict.put earlier key value) rest
  | .computed key value :: rest => do
    match (← orNull (evalChain scene key)).toKey? with
    | some name =>
      let value ← orNull (evalChain scene value)
      evalEntries scene (Dict.put earlier name value) rest
    | none => fail .invalidObjectKey key.span
  | .spread value :: rest => do
    match ← orNull (evalChain scene value) with
    | .object fields => evalEntries scene (Dict.putAll earlier fields) rest
    | _ => fail (.spreadNotObject (scene.snippet value.span)) value.span

def evalPath (scene : Scene) : Expr → Checked Store (String × List Value)
  | .identifier _ name => return (name, [])
  | .member span base property optional => do
    if optional then fail .invalidAssignment span
    else
      let (name, path) ← evalPath scene base
      let key ← evalKey scene property
      return (name, path ++ [key])
  | target => fail .invalidAssignment target.span

end

def eval (scene : Scene) (e : Expr) : Checked Store Value := orNull (evalChain scene e)

end Checked

section
variable {scene : Scene} {n : Nat}

theorem Eval.fail_agrees {α : Type} (cause : Cause) (span : Span) :
    Agrees n (Checked.fail cause span : Checked Store α) (Eval.fail cause span) :=
  .free (.of_scopes fun _ => rfl)

theorem orNull_agrees {checked : Checked Store (Option Value)} {m : Eval (Option Value)}
    (h : Agrees n checked m) : Agrees n (Checked.orNull checked) (orNull m) :=
  h.bind fun _ => .pure _

theorem call_agrees (span : Span) (function : Handle) (arguments : List Value) :
    Agrees n (Checked.free (Eval.call scene.host span function arguments))
      (Eval.call scene.host span function arguments) := by
  refine .free (.of_scopes fun s => ?_)
  rw [Eval.store_call]
  rfl

theorem lookup_agrees (hscope : scene.scope < n) (span : Span) (name : String) :
    Agrees n (Checked.lookup scene span name) (scene.lookup span name) :=
  .onFrame hscope (.of_scopes fun s => congrArg _ (scene.store_lookup span name s))

theorem write_agrees (hscope : scene.scope < n) (span : Span) (name : String) (path : List Value)
    (declares : Bool) (change : Value.Change) :
    Agrees n (Checked.write scene span name path declares change)
      (Eval.changeScopes span fun scopes =>
        scopes.write scene.scope name path declares change) := by
  refine .onFrame hscope fun s hs => ?_
  rcases Eval.scopes_changeScopes span
    (fun scopes => scopes.write scene.scope name path declares change) s with
    ⟨value, scopes, hwrite, h⟩ | ⟨cause, h⟩
  · rw [h]
    exact hs.write hwrite
  · rw [h]
    exact hs

mutual

theorem chain_agrees (hscope : scene.scope < n) : (e : Expr) →
    Agrees n (Checked.evalChain scene e) (evalChain scene e)
  | .literal _ _ => by
    simp only [Checked.evalChain, evalChain]
    exact .pure _
  | .identifier span name => by
    simp only [Checked.evalChain, evalChain]
    exact (lookup_agrees hscope span name).bind fun _ => .pure _
  | .member span base property optional => by
    simp only [Checked.evalChain, evalChain]
    refine (chain_agrees hscope base).bind fun target => ?_
    cases target with
    | none => exact .pure _
    | some target =>
      dsimp only
      split
      · exact .pure _
      · refine (key_agrees hscope property).bind fun key => ?_
        cases target.property? key with
        | some value => exact .pure _
        | none =>
          dsimp only
          split
          · exact .pure _
          · exact Eval.fail_agrees _ _
  | .call span callee arguments => by
    simp only [Checked.evalChain, evalChain]
    refine (chain_agrees hscope callee).bind fun target => ?_
    cases target with
    | none => exact .pure _
    | some target =>
      refine (elements_agrees hscope arguments).bind fun values => ?_
      cases target with
      | function handle => exact (call_agrees span handle values).bind fun _ => .pure _
      | _ => exact Eval.fail_agrees _ _
  | .array _ elements => by
    simp only [Checked.evalChain, evalChain]
    exact (elements_agrees hscope elements).bind fun _ => .pure _
  | .object _ entries => by
    simp only [Checked.evalChain, evalChain]
    exact (entries_agrees hscope [] entries).bind fun _ => .pure _
  | .unary span op operand => by
    simp only [Checked.evalChain, evalChain]
    split
    · exact (orNull_agrees (chain_agrees hscope operand)).bind fun _ => .pure _
    · exact Eval.fail_agrees _ _
  | .binary span op left right => by
    have hl := orNull_agrees (chain_agrees hscope left)
    have hr := orNull_agrees (chain_agrees hscope right)
    simp only [Checked.evalChain, evalChain]
    cases op.meaning with
    | plain apply => exact hl.bind fun _ => hr.bind fun _ => .pure _
    | stopsAt condition =>
      refine hl.bind fun a => ?_
      split
      · exact .pure _
      · exact hr.bind fun _ => .pure _
    | unsupported => exact Eval.fail_agrees _ _
  | .conditional _ test consequent alternate => by
    simp only [Checked.evalChain, evalChain]
    refine (orNull_agrees (chain_agrees hscope test)).bind fun _ => ?_
    split
    · exact (orNull_agrees (chain_agrees hscope consequent)).bind fun _ => .pure _
    · exact (orNull_agrees (chain_agrees hscope alternate)).bind fun _ => .pure _
  | .assignment span op place value => by
    simp only [Checked.evalChain, evalChain]
    refine (path_agrees hscope place).bind fun path => ?_
    refine (orNull_agrees (chain_agrees hscope value)).bind fun _ => ?_
    exact (write_agrees hscope span _ _ _ _).bind fun _ => .pure _
  | .update span op side place => by
    simp only [Checked.evalChain, evalChain]
    refine (path_agrees hscope place).bind fun path => ?_
    exact (write_agrees hscope span _ _ _ _).bind fun _ => .pure _

theorem key_agrees (hscope : scene.scope < n) : (property : Property) →
    Agrees n (Checked.evalKey scene property) (evalKey scene property)
  | .named _ => by
    simp only [Checked.evalKey, evalKey]
    exact .pure _
  | .computed key => by
    simp only [Checked.evalKey, evalKey]
    exact orNull_agrees (chain_agrees hscope key)

theorem elements_agrees (hscope : scene.scope < n) : (elements : List Element) →
    Agrees n (Checked.evalElements scene elements) (evalElements scene elements)
  | [] => by
    simp only [Checked.evalElements, evalElements]
    exact .pure _
  | .single element :: rest => by
    simp only [Checked.evalElements, evalElements]
    refine (orNull_agrees (chain_agrees hscope element)).bind fun _ => ?_
    exact (elements_agrees hscope rest).bind fun _ => .pure _
  | .spread element :: rest => by
    simp only [Checked.evalElements, evalElements]
    refine (orNull_agrees (chain_agrees hscope element)).bind fun value => ?_
    cases value.spreadItems? with
    | some items => exact (elements_agrees hscope rest).bind fun _ => .pure _
    | none => exact Eval.fail_agrees _ _

theorem entries_agrees (hscope : scene.scope < n) (earlier : Dict Value) :
    (entries : List Entry) →
    Agrees n (Checked.evalEntries scene earlier entries) (evalEntries scene earlier entries)
  | [] => by
    simp only [Checked.evalEntries, evalEntries]
    exact .pure _
  | .named key value :: rest => by
    simp only [Checked.evalEntries, evalEntries]
    exact (orNull_agrees (chain_agrees hscope value)).bind fun _ => entries_agrees hscope _ rest
  | .computed key value :: rest => by
    simp only [Checked.evalEntries, evalEntries]
    refine (orNull_agrees (chain_agrees hscope key)).bind fun found => ?_
    cases found.toKey? with
    | some name =>
      exact (orNull_agrees (chain_agrees hscope value)).bind fun _ => entries_agrees hscope _ rest
    | none => exact Eval.fail_agrees _ _
  | .spread value :: rest => by
    simp only [Checked.evalEntries, evalEntries]
    refine (orNull_agrees (chain_agrees hscope value)).bind fun found => ?_
    cases found with
    | object fields => exact entries_agrees hscope _ rest
    | _ => exact Eval.fail_agrees _ _

theorem path_agrees (hscope : scene.scope < n) : (place : Expr) →
    Agrees n (Checked.evalPath scene place) (evalPath scene place)
  | .identifier _ _ => by
    simp only [Checked.evalPath, evalPath]
    exact .pure _
  | .member span base property optional => by
    simp only [Checked.evalPath, evalPath]
    split
    · exact Eval.fail_agrees _ _
    · refine (path_agrees hscope base).bind fun _ => ?_
      exact (key_agrees hscope property).bind fun _ => .pure _
  | .literal .. | .array .. | .object .. | .call .. | .unary .. | .binary .. | .conditional ..
  | .assignment .. | .update .. => by
    simp only [Checked.evalPath, evalPath]
    exact Eval.fail_agrees _ _

end

theorem eval_agrees (hscope : scene.scope < n) (e : Expr) :
    Agrees n (Checked.eval scene e) (eval scene e) :=
  orNull_agrees (chain_agrees hscope e)

end

end PromptTemplate
