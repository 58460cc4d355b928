import PromptTemplate.Host.Standard
import PromptTemplate.Proofs.Eval.Effects
import PromptTemplate.Proofs.Scope.Names
import PromptTemplate.Proofs.Walk.Closed
import PromptTemplate.Proofs.Walk.Run

/-!
# Blocks keep their names to themselves

A body of a block runs in a frame of its own. Whatever it does, and also if it
fails, the frames that were there before have the same names after it; what it
assigned to the names in them stays (`Body.run_hygienic`).
-/

namespace PromptTemplate

open Walk

-- ---------------------------------------------------------------------------
-- Evaluation
-- ---------------------------------------------------------------------------

/-- What every write in a scene keeps, evaluation keeps. -/
theorem eval_scopes_of_write {scene : Scene} {R : ScopeTree → ScopeTree → Prop}
    (hrefl : ∀ t, R t t) (htrans : ∀ {t u v}, R t u → R u v → R t v)
    (hwrite : ∀ {t u name path declares change result},
      t.write scene.scope name path declares change = .ok (result, u) → R t u)
    (e : Expr) (s : Store) : R s.scopes (eval scene e s).2.scopes :=
  eval_scopes_of_targets hrefl htrans e (fun _ _ _ _ _ _ => hwrite) s

/-- Evaluation gives names to no frame but its own. -/
theorem eval_keepsNames (scene : Scene) (e : Expr) (s : Store) :
    ScopeTree.KeepsNames scene.scope s.scopes (eval scene e s).2.scopes :=
  eval_scopes_of_write (.refl _) .trans .write e s

/-- A write in a frame that sees a name leaves the name, for every frame, where
it was. -/
theorem ScopeTree.owner?_write {t u : ScopeTree} {scope : ScopeId} {name other : String}
    {path : List Value} {declares : Bool} {change : Value.Change} {result : Value}
    (h : t.write scope other path declares change = .ok (result, u))
    (hvisible : t.lookup? scope name ≠ none) (id : ScopeId) :
    (u.owner? id name).map Prod.fst = (t.owner? id name).map Prod.fst := by
  rcases write_cases h with ⟨owner, value, changed, howner, -, rfl⟩ | ⟨stored, -, -, hnone, -, rfl⟩
  · exact owner_of_outline (outline_bind_owner howner changed) name id
  · have hne : other ≠ name := by
      rintro rfl
      exact hvisible (by rw [lookup?, hnone]; rfl)
    exact congrArg _ (ownerIn?_bind_ne hne stored t.frames scope id)

/-- What a frame sees is there when it sees the same name in the same place. -/
theorem ScopeTree.visible_of_owner {t u : ScopeTree} {scope : ScopeId} {name : String}
    (h : (u.owner? scope name).map Prod.fst = (t.owner? scope name).map Prod.fst)
    (hvisible : t.lookup? scope name ≠ none) : u.lookup? scope name ≠ none := by
  unfold lookup? at *
  cases howner : u.owner? scope name with
  | some found => exact Option.some_ne_none _
  | none =>
    rw [howner, Option.map_none, eq_comm, Option.map_eq_none_iff] at h
    rw [h] at hvisible
    exact absurd rfl hvisible

/-- Evaluation in a frame that sees a name leaves the name, for every frame,
where it was. -/
theorem eval_owner {scene : Scene} {name : String} {s : Store}
    (hvisible : s.scopes.lookup? scene.scope name ≠ none) (e : Expr) (id : ScopeId) :
    ((eval scene e s).2.scopes.owner? id name).map Prod.fst =
      (s.scopes.owner? id name).map Prod.fst := by
  refine eval_scopes_of_write
    (R := fun t u => t.lookup? scene.scope name ≠ none → ∀ id,
      (u.owner? id name).map Prod.fst = (t.owner? id name).map Prod.fst)
    (fun _ _ _ => rfl) (fun h h' ht id => ?_) (fun hwrite => ?_) e s hvisible id
  · exact (h' (ScopeTree.visible_of_owner (h ht _) ht) id).trans (h ht id)
  · exact ScopeTree.owner?_write hwrite

/-- An undeclared name evaluates to nothing but the error that says so. -/
theorem eval_undeclared {scene : Scene} {name : String} {s : Store}
    (h : s.scopes.lookup? scene.scope name = none) (span : Span) :
    eval scene (.identifier span name) s = (.error ⟨.notDeclared name, span⟩, s) := by
  simp only [eval, orNull, evalChain, Scene.lookup, Action.run_bind, Action.run_get, h]
  rfl

/-- An assignment to a name writes what its right side evaluates to. -/
theorem eval_assignment_ok {scene : Scene} {span nameSpan : Span} {op : AssignOp} {name : String}
    {e : Expr} {s t : Store} {value : Value}
    (h : eval scene (.assignment span op (.identifier nameSpan name) e) s = (.ok value, t)) :
    ∃ given u scopes, eval scene e s = (.ok given, u) ∧ t = { u with scopes } ∧
      u.scopes.write scene.scope name [] (op = .assign) (op.change given) = .ok (value, scopes) := by
  simp only [eval, evalChain, evalPath, orNull, Action.bind_ok, Action.pure_ok] at h
  obtain ⟨_, _, ⟨_, _, ⟨rfl, rfl⟩, given, u, hgiven, stored, _, hwrite, rfl, rfl⟩, rfl, rfl⟩ := h
  refine ⟨given, u, ?_⟩
  rcases Eval.scopes_changeScopes span (fun scopes => scopes.write scene.scope name []
    (op = .assign) (op.change given)) u with ⟨value, scopes, hscopes, hrun⟩ | ⟨cause, hrun⟩
  · obtain ⟨hvalue, rfl⟩ := Outcome.ok_eq_ok.mp (hrun.symm.trans hwrite)
    refine ⟨scopes, ?_, rfl, hvalue ▸ hscopes⟩
    simpa only [eval, orNull, Action.bind_ok, Action.pure_ok] using hgiven
  · exact absurd (hrun.symm.trans hwrite) (by simp)

/-- What an assignment stores is its value. -/
theorem AssignOp.stored_eq_result {op : AssignOp} {given stored result : Value}
    {current : Option Value} (h : op.change given current = .ok (stored, result)) :
    stored = result := by
  unfold change at h
  cases hcombine : op.combine current given with
  | error cause => simp [hcombine, Bind.bind, Except.bind] at h
  | ok value =>
    simp only [hcombine, Bind.bind, Except.bind] at h
    cases h
    rfl

/-- An assignment to a visible name gives it its value in all frames that see
the name where it is. -/
theorem eval_assignment_visible {scene : Scene} {span nameSpan : Span} {op : AssignOp}
    {name : String} {e : Expr} {s t : Store} {owner id : ScopeId} {value : Value}
    (h : eval scene (.assignment span op (.identifier nameSpan name) e) s = (.ok value, t))
    (howner : (s.scopes.owner? scene.scope name).map Prod.fst = some owner)
    (hid : (s.scopes.owner? id name).map Prod.fst = some owner) :
    t.scopes.lookup? id name = some value := by
  obtain ⟨given, u, scopes, hgiven, rfl, hwrite⟩ := eval_assignment_ok h
  have hvisible : s.scopes.lookup? scene.scope name ≠ none := by
    intro hnone
    rw [ScopeTree.lookup?, Option.map_eq_none_iff] at hnone
    simp [hnone] at howner
  have hkept := eval_owner hvisible e
  rw [hgiven] at hkept
  rcases ScopeTree.write_cases hwrite with
    ⟨found, old, changed, hfound, hchanged, rfl⟩ | ⟨stored, -, -, hnone, -, -⟩
  · obtain rfl := AssignOp.stored_eq_result hchanged
    have hfst := (hkept scene.scope).trans howner
    rw [hfound] at hfst
    cases hfst
    obtain ⟨⟨_, value⟩, hsees, rfl⟩ := Option.map_eq_some_iff.mp ((hkept id).trans hid)
    exact congrArg _ (ScopeTree.ownerIn?_bind_owner hsees changed)
  · have hfst := (hkept scene.scope).trans howner
    rw [hnone] at hfst
    cases hfst

-- ---------------------------------------------------------------------------
-- Walks
-- ---------------------------------------------------------------------------

/-- Gives names to no frame but `scope`, and leaves as many frames as there
were. The root is there. -/
def KeepsFrames (scope : ScopeId) (m : Walk α) : Prop :=
  ∀ s : WalkState, s.store.scopes.frames ≠ [] →
    ScopeTree.KeepsNames scope s.store.scopes (m s).2.store.scopes

variable {scope : ScopeId}

theorem KeepsFrames.of_scopes {m : Walk α}
    (h : ∀ s : WalkState, (m s).2.store.scopes = s.store.scopes) : KeepsFrames scope m :=
  fun s _ => (h s).symm ▸ .refl scope _

theorem ScopeTree.KeepsNames.nonempty {s t : ScopeTree} (h : KeepsNames scope s t)
    (hs : s.frames ≠ []) : t.frames ≠ [] := by
  rw [← List.length_pos_iff] at hs ⊢
  rwa [h.length]

theorem KeepsFrames.bind {m : Walk α} {f : α → Walk β} (hm : KeepsFrames scope m)
    (hf : ∀ a, KeepsFrames scope (f a)) : KeepsFrames scope (m >>= f) := by
  intro s hs
  refine Action.relates_bind (R := fun s t : WalkState => s.store.scopes.frames ≠ [] →
      ScopeTree.KeepsNames scope s.store.scopes t.store.scopes)
    (fun h h' hs => (h hs).trans (h' ((h hs).nonempty hs))) (hm s) (fun a t _ => hf a t) hs

theorem StepClosed.keepsFrames (site : Site γ) (scope : ScopeId) :
    StepClosed site scope (KeepsFrames scope) where
  pure _ := .of_scopes fun _ => rfl
  bind := .bind
  fail _ _ := .of_scopes fun _ => rfl
  evaluate e s _ := eval_keepsNames ⟨site.source, site.host, scope⟩ e s.store
  build _ := .of_scopes fun _ => rfl
  takeText := .of_scopes fun _ => rfl

theorem declare_keepsFrames (scope : ScopeId) (ident : Ident) (value : Value) :
    KeepsFrames scope (declare scope ident value) := by
  intro s _
  rw [run_declare]
  cases h : s.store.scopes.declare? scope ident.name value with
  | none => exact .refl scope _
  | some scopes => exact .declare h

/-- After a frame of its own all older frames have the names that they had. -/
theorem outline_inFrame {body : ScopeId → Walk Unit} (hbody : ∀ scope, KeepsFrames scope (body scope))
    (parent : ScopeId) {s : WalkState} (hs : s.store.scopes.frames ≠ []) :
    (inFrame parent body s).2.store.scopes.frames.map Frame.outline =
      s.store.scopes.frames.map Frame.outline := by
  have h := hbody (s.store.scopes.enter parent).1
    { s with store := { s.store with scopes := (s.store.scopes.enter parent).2 } }
    (List.cons_ne_nil _ _)
  exact ScopeTree.outline_exit hs h

theorem inFrame_keepsFrames (parent : ScopeId) (body : ScopeId → Walk Unit)
    (hbody : ∀ scope, KeepsFrames scope (body scope)) : KeepsFrames parent (inFrame parent body) :=
  fun _ hs => .of_outline (outline_inFrame hbody parent hs)

theorem openReference_keepsFrames (site : Site γ) (p : Placement) (scope : ScopeId) (tag : Tag)
    (isBlank : Bool) : KeepsFrames scope (openReference site p scope tag isBlank) := by
  have hS := StepClosed.keepsFrames site scope
  unfold openReference
  refine .bind (hS.located _ _) fun _ => .bind (hS.promptName tag) fun prompt => ?_
  refine .bind (hS.located _ _) fun _ => ?_
  cases site.host.resolve? with
  | none => exact hS.fail _ _
  | some answer =>
    refine .bind (hS.located _ _) fun _ => .bind (.of_scopes fun _ => rfl) fun _ => ?_
    refine .bind (hS.extraBindings _) fun _ => .bind (.of_scopes fun s => ?_) fun _ => hS.pure _
    rw [run_resolve]

theorem walkReference_keepsFrames (site : Site Compiler) (p : Placement) (scope : ScopeId)
    (tag : Tag) (isBlank : Bool) : KeepsFrames scope (walkReference site p scope tag isBlank) := by
  have hS := StepClosed.keepsFrames site scope
  refine .bind (openReference_keepsFrames site p scope tag isBlank) fun referral => ?_
  refine .bind (.of_scopes fun _ => rfl) fun result => ?_
  cases result with
  | ok conversation => exact hS.build (.extend _)
  | error error => exact hS.fail _ _

/-- Walks give names to no frame but the one that they are in. -/
theorem WalkClosed.keepsFrames (site : Site Compiler) :
    WalkClosed site fun _ scope _ m => KeepsFrames scope m :=
  StepClosed.walkClosed (fun scope => .keepsFrames site scope) declare_keepsFrames
    inFrame_keepsFrames (walkReference_keepsFrames site)

-- ---------------------------------------------------------------------------
-- Bodies
-- ---------------------------------------------------------------------------

/-- What blocks run in a frame of its own. -/
inductive Body where
  /-- A branch of an if block, or what a loop does without items. -/
  | branch (nodes : List Node)
  /-- One iteration of a loop. -/
  | iteration (item : Pattern) (index : Option Ident) (value : Value) (count : Nat)
      (nodes : List Node)

/-- A body in its frame. -/
def Body.inside (site : Site Compiler) (p : Placement) (scope : ScopeId) : Body → Walk Unit
  | branch nodes => walkAll site p scope nodes
  | iteration item index value count nodes => do
    bindIteration scope item index value count
    walkAll site p scope nodes

def Body.run (site : Site Compiler) (p : Placement) (parent : ScopeId) (body : Body) : Walk Unit :=
  inFrame parent fun scope => body.inside site p scope

theorem Body.inside_keepsFrames (site : Site Compiler) (p : Placement) (body : Body)
    (scope : ScopeId) : KeepsFrames scope (body.inside site p scope) := by
  have hW := WalkClosed.keepsFrames site
  cases body with
  | branch nodes => exact walkAll_closed hW p scope nodes
  | iteration item index value count nodes =>
    exact .bind ((hW.declareClosed p scope).iteration item index value count) fun _ =>
      walkAll_closed hW p scope nodes

def Alternate.choose {γ : Type} (site : Site γ) (scope : ScopeId) : List Alternate → Walk (List Body)
  | [] => return []
  | .elseIf condition nodes :: rest => do
    if (← evaluate site scope condition).isTruthy then return [.branch nodes]
    else choose site scope rest
  | .otherwise nodes :: _ => return [.branch nodes]

def Body.iterations (item : Pattern) (index : Option Ident) (nodes : List Node) :
    (count : Nat) → List Value → List Body
  | _, [] => []
  | count, value :: rest =>
    iteration item index value count nodes :: iterations item index nodes (count + 1) rest

/-- How a block chooses the bodies that it runs. Other nodes have none. -/
def Node.bodies? {γ : Type} (site : Site γ) (scope : ScopeId) : Node → Option (Walk (List Body))
  | .ifBlock _ condition consequent alternates => some do
    if (← evaluate site scope condition).isTruthy then return [.branch consequent]
    else Alternate.choose site scope alternates
  | .eachBlock _ iterable item index nodes fallback => some do
    match (← evaluate site scope iterable).loopItems with
    | [] => return fallback.toList.map .branch
    | items => return Body.iterations item index nodes 0 items
  | .config .. | .text .. | .mustache .. | .tag .. => none

section
variable {site : Site Compiler} {p : Placement}

theorem walkAlternates_bodies (scope : ScopeId) (alternates : List Alternate) :
    walkAlternates site p scope alternates =
      Alternate.choose site scope alternates >>= (forM · (Body.run site p scope)) := by
  induction alternates with
  | nil => simp [walkAlternates, Alternate.choose]
  | cons alternate rest ih =>
    cases alternate with
    | elseIf condition nodes =>
      simp only [walkAlternates, Alternate.choose, bind_assoc, ih]
      refine congrArg _ (funext fun value => ?_)
      split <;> simp [Body.run, Body.inside]
    | otherwise nodes => simp [walkAlternates, Alternate.choose, Body.run, Body.inside]

theorem iterate_bodies (scope : ScopeId) (item : Pattern) (index : Option Ident)
    (nodes : List Node) (count : Nat) (values : List Value) :
    iterate (fun value count => inFrame scope fun inner => do
        bindIteration inner item index value count
        walkAll site p inner nodes) count values =
      forM (Body.iterations item index nodes count values) (Body.run site p scope) := by
  induction values generalizing count with
  | nil => rfl
  | cons value rest ih =>
    rw [iterate, ih, Body.iterations, List.forM_cons]
    rfl

/-- A block chooses bodies and runs them one after the other, each in a frame
of its own. -/
theorem walk_bodies {node : Node} {choice : Walk (List Body)}
    (h : node.bodies? site scope = some choice) :
    walk site p scope node = choice >>= (forM · (Body.run site p scope)) := by
  cases node with
  | ifBlock span condition consequent alternates =>
    cases h
    simp only [walk, bind_assoc, walkAlternates_bodies]
    refine congrArg _ (funext fun value => ?_)
    split <;> simp [Body.run, Body.inside]
  | eachBlock span iterable item index nodes fallback =>
    cases h
    simp only [walk, bind_assoc, iterate_bodies]
    refine congrArg _ (funext fun value => ?_)
    cases value.loopItems with
    | nil => cases fallback <;> simp [walkFallback, Body.run, Body.inside]
    | cons first rest => simp
  | config | text | mustache | tag => cases h

-- ---------------------------------------------------------------------------
-- Hygiene
-- ---------------------------------------------------------------------------

/-- What the scopes are to the nodes after a body that started at `before` and
had come to `ended` when its frame ended. -/
structure Hygienic (site : Site Compiler) (before ended after : WalkState) : Prop where
  /-- As many frames as before. -/
  length : after.store.scopes.frames.length = before.store.scopes.frames.length
  /-- The frames have the parents and the names that they had. -/
  names : after.store.scopes.frames.map Frame.outline =
    before.store.scopes.frames.map Frame.outline
  /-- A name that was undeclared in a frame is so again. -/
  undeclared : ∀ scope name span, before.store.scopes.lookup? scope name = none →
    evaluate site scope (.identifier span name) after = (.error ⟨.notDeclared name, span⟩, after)
  /-- The frames have the values that the body left there. -/
  values : ∀ scope name, scope < before.store.scopes.frames.length →
    after.store.scopes.lookup? scope name = ended.store.scopes.lookup? scope name
  /-- A frame that begins after the body sees what the frame around it sees. -/
  entered : ∀ parent name,
    (after.store.scopes.enter parent).2.lookup? (after.store.scopes.enter parent).1 name =
      after.store.scopes.lookup? parent name

/-- Every body leaves the scopes hygienic, however it ends. -/
theorem Body.run_hygienic {p : Placement} {parent : ScopeId} (body : Body) {s : WalkState}
    (hroot : s.store.scopes.frames ≠ []) :
    let entered := s.store.scopes.enter parent
    let ended := (body.inside site p entered.1
      { s with store := { s.store with scopes := entered.2 } }).2
    Hygienic site s ended (body.run site p parent s).2 := by
  intro entered ended
  have hnames : (body.run site p parent s).2.store.scopes.frames.map Frame.outline =
      s.store.scopes.frames.map Frame.outline :=
    outline_inFrame (Body.inside_keepsFrames site p body) parent hroot
  have hended : ended.store.scopes.frames.length = s.store.scopes.frames.length + 1 :=
    (Body.inside_keepsFrames site p body entered.1 _ (List.cons_ne_nil _ _)).length
  have hpos : s.store.scopes.frames.length ≠ 0 := Nat.ne_of_gt (List.length_pos_iff.mpr hroot)
  refine ⟨ScopeTree.length_of_map hnames, hnames, fun scope name span h => ?_,
    fun scope name hscope => ScopeTree.lookup?_exit hpos hended hscope name,
    ScopeTree.lookup?_enter⟩
  have hafter : (body.run site p parent s).2.store.scopes.lookup? scope name = none := by
    have howner := ScopeTree.owner_of_outline hnames name scope
    rw [ScopeTree.lookup?, Option.map_eq_none_iff] at h ⊢
    rw [ScopeTree.owner?] at h
    rwa [h, Option.map_none, Option.map_eq_none_iff] at howner
  rw [evaluate, eval_undeclared hafter]

/-- A block runs bodies, each in a frame of its own, and every body leaves the
scopes hygienic. The value that an assignment gave to a name, wherever it is
made, is there for all frames that see the same name. -/
theorem walk_block_hygienic {node : Node} {parent : ScopeId} {choice : Walk (List Body)}
    (hnode : node.bodies? site parent = some choice) (p : Placement) :
    walk site p parent node = choice >>= (forM · (Body.run site p parent)) ∧
    (∀ (body : Body) (s : WalkState), s.store.scopes.frames ≠ [] →
      let entered := s.store.scopes.enter parent
      let ended := (body.inside site p entered.1
        { s with store := { s.store with scopes := entered.2 } }).2
      Hygienic site s ended (body.run site p parent s).2) ∧
    ∀ (scope owner id : ScopeId) (span nameSpan : Span) (op : AssignOp) (name : String) (e : Expr)
      (s t : WalkState) (value : Value),
      evaluate site scope (.assignment span op (.identifier nameSpan name) e) s = (.ok value, t) →
      (s.store.scopes.owner? scope name).map Prod.fst = some owner →
      (s.store.scopes.owner? id name).map Prod.fst = some owner →
      t.store.scopes.lookup? id name = some value := by
  refine ⟨walk_bodies hnode, fun body s => body.run_hygienic,
    fun scope owner id span nameSpan op name e s t value h howner hid => ?_⟩
  obtain ⟨store, heval, rfl⟩ := evaluate_ok.mp h
  exact eval_assignment_visible heval howner hid

/-- An iteration gives a value to a name outside and one to a name that nothing
else has. -/
theorem walk_block_hygienic_iteration :
    let span : Span := ⟨0, 0, 1, 1⟩
    let site : Site Compiler := ⟨"", standardHost none, fun prompt => .error (.referenceCycle prompt)⟩
    let assign (name : String) := Expr.assignment span .assign (.identifier span name)
      (.identifier span "x")
    let nodes := [Node.mustache span (assign "total"), .mustache span (assign "seen")]
    let item := Pattern.ident ⟨"x", span⟩
    let node := Node.eachBlock span (.identifier span "list") item none nodes none
    let body := Body.iteration item none (.string "b") 0 nodes
    let s : WalkState := ⟨⟨.ofBindings [("list", .array [.string "b"]), ("total", .null)], []⟩, .empty⟩
    let during : WalkState := { s with store := { s.store with
      scopes := ⟨⟨[("x", .string "b")], some 0⟩ :: s.store.scopes.frames⟩ } }
    let after := (body.run site .outermost 0 s).2
    (node.bodies? site 0).isSome ∧
    walk site .outermost 0 node s = (body.run site .outermost 0 s) ∧
    (evaluate site 1 (assign "total") during).2.store.scopes.lookup? 0 "total" = some (.string "b") ∧
    after.store.scopes.lookup? 0 "total" = some (.string "b") ∧
    evaluate site 0 (.identifier span "seen") after = (.error ⟨.notDeclared "seen", span⟩, after) := by
  intro span site assign nodes item node body s during after
  have hnode : node.bodies? site 0 = some _ := rfl
  obtain ⟨hwalk, hbodies, hassign⟩ := walk_block_hygienic hnode .outermost
  have hafter := hbodies body s (List.cons_ne_nil _ _)
  refine ⟨rfl, ?_, ?_, ?_, hafter.undeclared 0 "seen" span rfl⟩
  · rw [hwalk]
    rfl
  · exact hassign 1 0 0 span span .assign "total" (.identifier span "x") during _ (.string "b")
      rfl rfl rfl
  · rw [hafter.values 0 "total" Nat.one_pos]
    rfl

end

end PromptTemplate
