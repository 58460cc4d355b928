import PromptTemplate.Host.Standard
import PromptTemplate.Proofs.Scope.Touched

/-!
# What evaluation touches, and compound assignment

The writes of an evaluation are those to the targets in the expression, in the
frame that it runs in (`eval_touches_targets`).

`x op= e` gives `x` the value of the operation on `x` and `e`. What `x` was is
read when the assignment is made, after `e`; so it is the same as `x = x op e`
unless `e` gives `x` another value (`eval_compound`).
-/

namespace PromptTemplate

-- ---------------------------------------------------------------------------
-- What is touched
-- ---------------------------------------------------------------------------

section
variable {scene : Scene} {e : Expr} {target : Target} {name : String} {path : List Value}

theorem Expr.mem_assigned (htarget : target ∈ e.targets) (h : target.place.root? = some name) :
    name ∈ e.assigned :=
  List.mem_filterMap.mpr ⟨target, htarget, h⟩

theorem Expr.mem_declared {span : Span} (htarget : target ∈ e.targets)
    (hplace : target.place = .identifier span name) (hplain : target.isPlain = true) :
    name ∈ e.declared := by
  obtain ⟨place, isPlain⟩ := target
  obtain rfl := hplace
  obtain rfl := hplain
  exact List.mem_filterMap.mpr ⟨_, htarget, rfl⟩

/-- Evaluation touches the variables that its targets start from. -/
theorem eval_touched (scene : Scene) (e : Expr) (s : Store) :
    ScopeTree.Touched scene.scope e.assigned e.declared s.scopes (eval scene e s).2.scopes := by
  refine eval_scopes_of_targets (.refl _ _ _) .trans e (fun target htarget name path hpath => ?_) s
  obtain ⟨hroot, hidentifier⟩ := evalPath_yields target.place hpath
  intro t u change result hwrite
  refine .write hwrite (Expr.mem_assigned htarget hroot) fun hplain hempty => ?_
  obtain ⟨span, hplace⟩ := hidentifier hempty
  exact Expr.mem_declared htarget hplace hplain

/-- Whether it succeeds or fails, evaluation leaves as many frames as there
were, with the parents that they had and all their bindings. Another value is
bound only to what assignments and updates in the expression start from, in the
frame where the scene saw it; a new binding is one in the frame of the scene, of
a name that plain assignments in the expression have as their target and that
was not seen before. Without assignments and updates nothing changes. -/
theorem eval_touches_targets (scene : Scene) (e : Expr) (s : Store) :
    ScopeTree.Touched scene.scope e.assigned e.declared s.scopes (eval scene e s).2.scopes ∧
      (e.writes = false → (eval scene e s).2.scopes = s.scopes) :=
  ⟨eval_touched scene e s, fun hreads => eval_scopes scene e hreads s⟩

/-- In a frame inside the root `user.name = total = "Eve"` makes `total` in that
frame and changes `user` in the root; reading `user.name` changes nothing. -/
theorem eval_touches_targets_nested :
    let place : Span := .empty .start
    let read : Expr := .member place (.identifier place "user") (.named "name") false
    let e : Expr := .assignment place .assign read
      (.assignment place .assign (.identifier place "total") (.literal place (.string "Eve")))
    let scene : Scene := ⟨"", standardHost none, 1⟩
    let store : Dict Value → String → Store := fun inner name =>
      ⟨⟨[⟨inner, some 0⟩, ⟨[("user", .object [("name", .string name)])], none⟩]⟩, []⟩
    let before := store [] "Ada"
    let after := store [("total", .string "Eve")] "Eve"
    e.assigned = ["user", "total"] ∧ e.declared = ["total"] ∧ (eval scene e before).2 = after ∧
      ScopeTree.Touched 1 ["user", "total"] ["total"] before.scopes after.scopes ∧
      read.writes = false ∧ (eval scene read before).2.scopes = before.scopes := by
  intro place read e scene store before after
  have hrun : (eval scene e before).2 = after := by rfl
  have htouched := (eval_touches_targets scene e before).1
  rw [hrun] at htouched
  exact ⟨rfl, rfl, hrun, htouched, rfl, (eval_touches_targets scene read before).2 rfl⟩

end

variable {scene : Scene} {s t : Store} {e : Expr} {span : Span} {name : String}

-- ---------------------------------------------------------------------------
-- The forms involved
-- ---------------------------------------------------------------------------

theorem eval_identifier (span : Span) (name : String) :
    eval scene (.identifier span name) = scene.lookup span name := by
  simp [eval, orNull, evalChain]

theorem eval_plain {op : BinaryOp} {apply : Value → Value → Value} (h : op.meaning = .plain apply)
    (span : Span) (left right : Expr) :
    eval scene (.binary span op left right) = (do
      let a ← eval scene left
      let b ← eval scene right
      return apply a b) := by
  simp [eval, orNull, evalChain, h]

theorem eval_assignment (span place : Span) (op : AssignOp) (name : String) (e : Expr) :
    eval scene (.assignment span op (.identifier place name) e) = (do
      let value ← eval scene e
      Eval.changeScopes span fun scopes =>
        scopes.write scene.scope name [] (op = .assign) (op.change value)) := by
  simp [eval, orNull, evalChain, evalPath]

theorem run_lookup {value : Value} (h : s.scopes.lookup? scene.scope name = some value) :
    scene.lookup span name s = (.ok value, s) := by
  simp only [Scene.lookup, Action.run_bind, Action.run_get, h]
  rfl

section
variable {operator : BinaryOp} {apply : Value → Value → Value} {n : Float} {operand : Span}

/-- An operation on a number in a variable takes the number before its right operand is evaluated. -/
theorem run_operation (hmeaning : operator.meaning = .plain apply)
    (hn : s.scopes.lookup? scene.scope name = some (.number n)) {given : Value}
    (he : eval scene e s = (.ok given, t)) :
    eval scene (.binary span operator (.identifier operand name) e) s =
      (.ok (apply (.number n) given), t) := by
  rw [eval_plain hmeaning, eval_identifier, Action.run_bind, run_lookup hn]
  dsimp only
  rw [Action.run_bind, he]
  rfl

theorem run_operation_error (hmeaning : operator.meaning = .plain apply)
    (hn : s.scopes.lookup? scene.scope name = some (.number n)) {error : CompileError}
    (he : eval scene e s = (.error error, t)) :
    eval scene (.binary span operator (.identifier operand name) e) s = (.error error, t) := by
  rw [eval_plain hmeaning, eval_identifier, Action.run_bind, run_lookup hn]
  dsimp only
  rw [Action.run_bind, he]

end

-- ---------------------------------------------------------------------------
-- Operations on what is in a variable
-- ---------------------------------------------------------------------------

namespace AssignOp

/-- The operation of a compound assignment. -/
def operation? : AssignOp → Option BinaryOp
  | assign => none
  | add => some .add
  | subtract => some .subtract
  | multiply => some .multiply
  | divide => some .divide
  | remainder => some .remainder

variable {op : AssignOp} {operator : BinaryOp} {apply : Value → Value → Value} {current : Value}

/-- Addition works on every value, the other operations on numbers only. -/
def AppliesTo (op : AssignOp) (current : Value) : Prop := op = .add ∨ ∃ x, current = .number x

theorem combine_of_applies (hop : op.operation? = some operator)
    (hmeaning : operator.meaning = .plain apply) (hcurrent : op.AppliesTo current) (given : Value) :
    op.combine (some current) given = .ok (apply current given) := by
  rcases hcurrent with rfl | ⟨x, rfl⟩
  · cases hop
    cases hmeaning
    rfl
  · cases op <;> cases hop <;> cases hmeaning <;> rfl

theorem combine_of_not_applies (hop : op.operation? = some operator)
    (hcurrent : ¬ op.AppliesTo current) (given : Value) :
    op.combine (some current) given = .error (.invalidUpdate op.text current.typeName) := by
  obtain ⟨hadd, hnumber⟩ := not_or.mp hcurrent
  cases op
  case assign => cases hop
  case add => exact absurd rfl hadd
  all_goals
    cases current
    case number x => exact absurd ⟨x, rfl⟩ hnumber
    all_goals rfl

end AssignOp

-- ---------------------------------------------------------------------------
-- Running an assignment to a variable
-- ---------------------------------------------------------------------------

section
variable {op : AssignOp} {place : Span} {owner : ScopeId} {given current : Value}

theorem run_assignment_error {error : CompileError} (he : eval scene e s = (.error error, t)) :
    eval scene (.assignment span op (.identifier place name) e) s = (.error error, t) := by
  rw [eval_assignment, Action.run_bind, he]

theorem run_assignment {new : Value} (he : eval scene e s = (.ok given, t))
    (howner : t.scopes.owner? scene.scope name = some (owner, current))
    (hcombine : op.combine (some current) given = .ok new) :
    eval scene (.assignment span op (.identifier place name) e) s =
      (.ok new, { t with scopes := t.scopes.bind owner name new }) := by
  rw [eval_assignment, Action.run_bind, he]
  dsimp only
  rw [Eval.run_changeScopes, ScopeTree.write, howner]
  simp only [Value.changeAt, AssignOp.change, hcombine]
  rfl

theorem run_assignment_invalid {cause : Cause} (he : eval scene e s = (.ok given, t))
    (howner : t.scopes.owner? scene.scope name = some (owner, current))
    (hcombine : op.combine (some current) given = .error cause) :
    eval scene (.assignment span op (.identifier place name) e) s =
      (.error ⟨cause, span⟩, t) := by
  rw [eval_assignment, Action.run_bind, he]
  dsimp only
  rw [Eval.run_changeScopes, ScopeTree.write, howner]
  simp only [Value.changeAt, AssignOp.change, hcombine]
  rfl

end

-- ---------------------------------------------------------------------------
-- Compound assignment
-- ---------------------------------------------------------------------------

/-- The evaluation of `e` leaves the variable `name` with the value `old`, if it comes to an end. -/
def LeavesValue (scene : Scene) (e : Expr) (s : Store) (name : String) (old : Value) : Prop :=
  ∀ given t, eval scene e s = (.ok given, t) → t.scopes.lookup? scene.scope name = some old

theorem leavesValue_of_not_assigned {old : Value} (hname : name ∉ e.assigned)
    (hold : s.scopes.lookup? scene.scope name = some old) : LeavesValue scene e s name old := by
  intro given t hrun
  have htouched := eval_touched scene e s
  rw [hrun] at htouched
  exact htouched.lookup?_eq hname hold

/-- For a number `x`, `x op= e` is `x = x op e` if `e` does not assign `x` or
leaves it the value that it has. Else what it operates on is the value that `x`
has after `e`: it stores and gives the result, or fails where there is none. -/
theorem eval_compound {op : AssignOp} {operator : BinaryOp} {apply : Value → Value → Value}
    {n : Float} (hop : op.operation? = some operator) (hmeaning : operator.meaning = .plain apply)
    (hn : s.scopes.lookup? scene.scope name = some (.number n)) (e : Expr)
    (span place inner operand : Span) :
    ((name ∈ e.assigned → LeavesValue scene e s name (.number n)) →
      eval scene (.assignment span op (.identifier place name) e) s =
        eval scene (.assignment span .assign (.identifier place name)
          (.binary inner operator (.identifier operand name) e)) s) ∧
    ∀ given t, eval scene e s = (.ok given, t) → ∃ owner current,
      t.scopes.owner? scene.scope name = some (owner, current) ∧
      (op.AppliesTo current →
        eval scene (.assignment span op (.identifier place name) e) s =
          (.ok (apply current given),
            { t with scopes := t.scopes.bind owner name (apply current given) })) ∧
      (¬ op.AppliesTo current →
        eval scene (.assignment span op (.identifier place name) e) s =
          (.error ⟨.invalidUpdate op.text current.typeName, span⟩, t)) := by
  constructor
  · intro hleaves
    have hkept : LeavesValue scene e s name (.number n) := by
      by_cases hname : name ∈ e.assigned
      · exact hleaves hname
      · exact leavesValue_of_not_assigned hname hn
    cases hrun : eval scene e s with
    | mk result t =>
      cases result with
      | error error =>
        rw [run_assignment_error hrun, run_assignment_error (run_operation_error hmeaning hn hrun)]
      | ok given =>
        obtain ⟨⟨owner, _⟩, howner, rfl⟩ := Option.map_eq_some_iff.mp (hkept given t hrun)
        have hcombine := AssignOp.combine_of_applies hop hmeaning (.inr ⟨n, rfl⟩) given
        rw [run_assignment hrun howner hcombine,
          run_assignment (run_operation hmeaning hn hrun) howner rfl]
  · intro given t hrun
    have htouched := eval_touched scene e s
    rw [hrun] at htouched
    have hvisible := htouched.visible (hn ▸ Option.some_ne_none _)
    obtain ⟨⟨owner, current⟩, howner⟩ := Option.ne_none_iff_exists'.mp hvisible
    refine ⟨owner, current, howner, fun happlies => ?_, fun hnot => ?_⟩
    · exact run_assignment hrun howner (AssignOp.combine_of_applies hop hmeaning happlies given)
    · exact run_assignment_invalid hrun howner (AssignOp.combine_of_not_applies hop hnot given)

/-- `x += (x = 5)` adds 5 to the 5, and `x = x + (x = 5)` to what `x` was before. -/
theorem compound_reads_last :
    let place : Span := .empty .start
    let x : Expr := .identifier place "x"
    let e : Expr := .assignment place .assign x (.literal place (.number 5))
    let scene : Scene := ⟨"", standardHost none, 0⟩
    let store : Float → Store := fun n => ⟨⟨[⟨[("x", .number n)], none⟩]⟩, []⟩
    let compound := eval scene (.assignment place .add x e) (store 1)
    let plain := eval scene (.assignment place .assign x (.binary place .add x e)) (store 1)
    compound = (.ok (.number 10), store 10) ∧ plain = (.ok (.number 6), store 6) ∧
      compound ≠ plain := by
  intro place x e scene store compound plain
  have hcompound : compound = (.ok (.number (5 + 5)), store (5 + 5)) := by rfl
  have hplain : plain = (.ok (.number (1 + 5)), store (1 + 5)) := by rfl
  have hten : (5 + 5 : Float) = 10 := by decide +kernel
  have hsix : (1 + 5 : Float) = 6 := by decide +kernel
  have hne : (10 : Float) ≠ 6 := by decide +kernel
  rw [hten] at hcompound
  rw [hsix] at hplain
  refine ⟨hcompound, hplain, fun heq => ?_⟩
  rw [hcompound, hplain] at heq
  exact hne (Value.number.inj (Outcome.ok_eq_ok.mp heq).1)

/-- `x += y++` is `x = x + y++`, and `x += (x = 5)` adds to the 5. -/
theorem eval_compound_counter :
    let place : Span := .empty .start
    let x : Expr := .identifier place "x"
    let next : Expr := .update place .increment .after (.identifier place "y")
    let five : Expr := .assignment place .assign x (.literal place (.number 5))
    let scene : Scene := ⟨"", standardHost none, 0⟩
    let store : Float → Store := fun n => ⟨⟨[⟨[("x", .number n), ("y", .number 2)], none⟩]⟩, []⟩
    AssignOp.operation? .add = some .add ∧ BinaryOp.meaning .add = .plain Value.add ∧
      (store 1).scopes.lookup? 0 "x" = some (.number 1) ∧ "x" ∉ next.assigned ∧
      eval scene (.assignment place .add x next) (store 1) =
        eval scene (.assignment place .assign x (.binary place .add x next)) (store 1) ∧
      eval scene five (store 1) = (.ok (.number 5), store 5) ∧
      AssignOp.AppliesTo .add (.number 5) ∧
      (eval scene (.assignment place .add x five) (store 1)).1 =
        .ok (Value.add (.number 5) (.number 5)) := by
  intro place x next five scene store
  have hop : AssignOp.operation? .add = some .add := rfl
  have hmeaning : BinaryOp.meaning .add = .plain Value.add := rfl
  have hx : (store 1).scopes.lookup? scene.scope "x" = some (.number 1) := rfl
  have hnext : "x" ∉ next.assigned := by decide
  have hfive : eval scene five (store 1) = (.ok (.number 5), store 5) := by rfl
  obtain ⟨hsame, -⟩ := eval_compound hop hmeaning hx next place place place place
  obtain ⟨-, hlast⟩ := eval_compound hop hmeaning hx five place place place place
  obtain ⟨owner, current, howner, happlies, -⟩ := hlast _ _ hfive
  cases howner
  refine ⟨hop, hmeaning, hx, hnext, hsame fun hmem => absurd hmem hnext, hfive, .inl rfl, ?_⟩
  rw [happlies (.inl rfl)]

end PromptTemplate
