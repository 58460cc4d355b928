import PromptTemplate.Host.Standard
import PromptTemplate.Proofs.Scope.Hygiene
import PromptTemplate.Proofs.Scope.Inserted
import PromptTemplate.Proofs.Walk.Paired

/-!
# Chains of conditions

An if block with alternatives tries its conditions in order and runs the body of
the first one that holds (`Chooses`). Where no later condition writes, the
alternatives can as well be a block of their own inside the else branch
(`walk_ifBlock_chain`): the branch has a frame, but nothing is ever in it.
-/

namespace PromptTemplate

open Walk ScopeTree
open PromptTemplate.Action (Paired)

/-- The conditions and their bodies, up to the alternative that has no condition. -/
def Alternate.branches : List Alternate → List (Expr × List Node)
  | [] => []
  | .elseIf condition body :: rest => (condition, body) :: branches rest
  | .otherwise _ :: _ => []

/-- The body of the alternative that has no condition. -/
def Alternate.last? : List Alternate → Option (List Node)
  | [] => none
  | .elseIf _ _ :: rest => last? rest
  | .otherwise body :: _ => some body

variable {site : Site Compiler} {p : Placement} {scope : ScopeId} {last : Option (List Node)}
  {s t u : WalkState}

/-- Walks the body of the first condition that holds, or the last one. -/
def walkChain (site : Site Compiler) (p : Placement) (scope : ScopeId) (last : Option (List Node)) :
    List (Expr × List Node) → Walk Unit
  | [] => walkFallback site p scope last
  | (condition, body) :: rest => do
    if (← evaluate site scope condition).isTruthy then
      inFrame scope fun inner => walkAll site p inner body
    else walkChain site p scope last rest

theorem walkAlternates_eq (alternates : List Alternate) :
    walkAlternates site p scope alternates =
      walkChain site p scope (Alternate.last? alternates) (Alternate.branches alternates) := by
  induction alternates with
  | nil => simp only [walkAlternates, Alternate.branches, walkChain, Alternate.last?, walkFallback]
  | cons alternate rest ih =>
    cases alternate with
    | elseIf condition body =>
      simp only [walkAlternates, Alternate.branches, walkChain, Alternate.last?, ih]
    | otherwise body =>
      simp only [walkAlternates, Alternate.branches, walkChain, Alternate.last?, walkFallback]

theorem walk_ifBlock_eq (span : Span) (condition : Expr) (consequent : List Node)
    (alternates : List Alternate) :
    walk site p scope (.ifBlock span condition consequent alternates) =
      walkChain site p scope (Alternate.last? alternates)
        ((condition, consequent) :: Alternate.branches alternates) := by
  simp only [walk, walkChain, walkAlternates_eq]

-- ---------------------------------------------------------------------------
-- Which branch runs
-- ---------------------------------------------------------------------------

/-- The conditions are evaluated one after the other, each once, and none holds. -/
inductive Refused (site : Site Compiler) (scope : ScopeId) : List Expr → WalkState → WalkState → Prop
  | nil (s : WalkState) : Refused site scope [] s s
  | cons {condition : Expr} {rest : List Expr} {s t u : WalkState} {value : Value} :
    evaluate site scope condition s = (.ok value, t) → value.isTruthy = false →
      Refused site scope rest t u → Refused site scope (condition :: rest) s u

/-- What a chain of conditions comes to from the state `s`. Conditions behind the one that holds, or
that fails, have no part in it. -/
inductive Chooses (site : Site Compiler) (p : Placement) (scope : ScopeId)
    (branches : List (Expr × List Node)) (last : Option (List Node)) (s : WalkState) :
    Except CompileError Unit × WalkState → Prop
  | holds {before after : List (Expr × List Node)} {condition : Expr} {body : List Node}
    {value : Value} {t u : WalkState} :
    branches = before ++ (condition, body) :: after →
      Refused site scope (before.map Prod.fst) s t →
      evaluate site scope condition t = (.ok value, u) → value.isTruthy = true →
      Chooses site p scope branches last s (inFrame scope (fun inner => walkAll site p inner body) u)
  | fails {before after : List (Expr × List Node)} {condition : Expr} {body : List Node}
    {error : CompileError} {t u : WalkState} :
    branches = before ++ (condition, body) :: after →
      Refused site scope (before.map Prod.fst) s t →
      evaluate site scope condition t = (.error error, u) →
      Chooses site p scope branches last s (.error error, u)
  | none {t : WalkState} :
    Refused site scope (branches.map Prod.fst) s t →
      Chooses site p scope branches last s (walkFallback site p scope last t)

theorem walkChain_refused {before : List (Expr × List Node)}
    (h : Refused site scope (before.map Prod.fst) s t) (after : List (Expr × List Node)) :
    walkChain site p scope last (before ++ after) s = walkChain site p scope last after t := by
  induction before generalizing s with
  | nil =>
    cases h
    rfl
  | cons branch rest ih =>
    obtain ⟨condition, body⟩ := branch
    cases h with
    | @cons _ _ _ u _ value hvalue hfalsy hrest =>
      rw [List.cons_append, walkChain, Action.run_bind, hvalue]
      dsimp only
      rw [hfalsy]
      exact ih hrest

/-- A condition in front of the chain that does not hold changes the state that the chain starts
from. -/
theorem Chooses.cons {branches : List (Expr × List Node)} {condition : Expr} {body : List Node}
    {value : Value} {outcome : Except CompileError Unit × WalkState}
    (hvalue : evaluate site scope condition s = (.ok value, t)) (hfalsy : value.isTruthy = false)
    (h : Chooses site p scope branches last t outcome) :
    Chooses site p scope ((condition, body) :: branches) last s outcome := by
  cases h with
  | holds hbranches hrefused heval htruthy =>
    subst hbranches
    exact .holds (List.cons_append ..).symm (.cons hvalue hfalsy hrefused) heval htruthy
  | fails hbranches hrefused heval =>
    subst hbranches
    exact .fails (List.cons_append ..).symm (.cons hvalue hfalsy hrefused) heval
  | none hrefused => exact .none (.cons hvalue hfalsy hrefused)

theorem chooses_walkChain (branches : List (Expr × List Node)) (s : WalkState) :
    Chooses site p scope branches last s (walkChain site p scope last branches s) := by
  induction branches generalizing s with
  | nil => exact .none (.nil s)
  | cons branch rest ih =>
    obtain ⟨condition, body⟩ := branch
    rw [walkChain, Action.run_bind]
    cases hrun : evaluate site scope condition s with
    | mk result t =>
      cases result with
      | error error => exact .fails (List.nil_append _).symm (.nil s) hrun
      | ok value =>
        dsimp only
        cases htruthy : value.isTruthy with
        | true => exact .holds (List.nil_append _).symm (.nil s) hrun htruthy
        | false => exact (ih t).cons hrun htruthy

theorem Chooses.eq {branches : List (Expr × List Node)}
    {outcome : Except CompileError Unit × WalkState}
    (h : Chooses site p scope branches last s outcome) :
    walkChain site p scope last branches s = outcome := by
  cases h with
  | holds hbranches hrefused heval htruthy =>
    rw [hbranches, walkChain_refused hrefused, walkChain, Action.run_bind, heval]
    dsimp only
    rw [htruthy]
    rfl
  | fails hbranches hrefused heval =>
    rw [hbranches, walkChain_refused hrefused, walkChain, Action.run_bind, heval]
  | none hrefused =>
    have hchain : walkChain site p scope last (branches ++ []) s = walkFallback site p scope last _ :=
      walkChain_refused hrefused []
    rwa [List.append_nil] at hchain

theorem walkChain_iff (branches : List (Expr × List Node)) (s : WalkState)
    (outcome : Except CompileError Unit × WalkState) :
    walkChain site p scope last branches s = outcome ↔
      Chooses site p scope branches last s outcome :=
  ⟨fun h => h ▸ chooses_walkChain branches s, Chooses.eq⟩

-- ---------------------------------------------------------------------------
-- The chain in a frame of its own
-- ---------------------------------------------------------------------------

section
variable {n : Nat} {outer : ScopeId}

theorem Site.inserted_alike (site : Site Compiler) (houter : outer < n) :
    Site.Alike (fun _ => True) (Moved n) (HasEmpty n outer) (.moving id) site site where
  scopes := ScopeTree.inserted_alike _ houter
  call := rfl
  snippet _ _ _ := rfl

theorem evaluate_inserted (houter : outer < n) {e : Expr} (he : e.writes = false) :
    Paired (.moving id) (WalkState.Alike (HasEmpty n outer)) (evaluate site outer e)
      (evaluate site n e) := by
  have hscene : Scene.Alike (fun _ => True) (Beside n outer) (HasEmpty n outer) (.moving id)
      ⟨site.source, site.host, outer⟩ ⟨site.source, site.host, n⟩ :=
    ⟨inserted_sees _ houter, .empty, rfl, fun _ _ _ => rfl⟩
  have h := evaluate_paired_of_scene hscene (e := e) (fun _ _ => trivial) (by
    rw [e.targets_eq_nil.2 he]
    exact List.forall_mem_nil _)
  rwa [Action.Pairing.moving_span, e.mapSpans_id] at h

theorem inFrame_inserted (houter : outer < n) (body : List Node) :
    Paired (.moving id) (WalkState.Alike (HasEmpty n outer))
      (inFrame outer fun inner => walkAll site p inner body)
      (inFrame n fun inner => walkAll site p inner body) := by
  have hsite := site.inserted_alike houter
  refine inFrame_paired hsite.scopes (fun h => h.enter houter .empty) fun hscope _ => ?_
  have hrefers : site.RefersAlike (Moved n) (HasEmpty n outer) site :=
    ⟨rfl, rfl, fun h _ _ hscope => h.snapshot houter hscope.beside⟩
  have h := walkAll_paired hsite p hscope body (fun _ _ => trivial) fun _ => hrefers
  rwa [Action.Pairing.moving_span, Node.mapSpansAll_id] at h

theorem walkChain_inserted (houter : outer < n) {branches : List (Expr × List Node)}
    (hwrites : ∀ branch ∈ branches, branch.1.writes = false) :
    Paired (.moving id) (WalkState.Alike (HasEmpty n outer))
      (walkChain site p outer last branches) (walkChain site p n last branches) := by
  induction branches with
  | nil =>
    cases last with
    | none =>
      simp only [walkChain, walkFallback]
      exact .pure _
    | some body =>
      simp only [walkChain, walkFallback]
      exact inFrame_inserted houter body
  | cons branch rest ih =>
    obtain ⟨hbranch, hrest⟩ := List.forall_mem_cons.1 hwrites
    refine .bind (evaluate_inserted houter hbranch) fun value => ?_
    split
    · exact inFrame_inserted houter branch.2
    · exact ih hrest

end

/-- In an empty frame inside `scope` the alternatives do what they do in `scope`. -/
theorem inFrame_walkAlternates {alternates : List Alternate}
    (hscope : scope < s.store.scopes.frames.length)
    (hwrites : ∀ branch ∈ Alternate.branches alternates, branch.1.writes = false) :
    inFrame scope (fun inner => walkAlternates site p inner alternates) s =
      walkAlternates site p scope alternates s := by
  have hkeeps : KeepsFrames scope (walkAlternates site p scope alternates) :=
    walkAlternates_closed (.keepsFrames site) p scope alternates
  have hroot : s.store.scopes.frames ≠ [] := List.length_pos_iff.1 (Nat.zero_lt_of_lt hscope)
  have hlength := (hkeeps s hroot).length
  have hroot' := (hkeeps s hroot).nonempty hroot
  rw [walkAlternates_eq] at hlength hroot'
  simp only [run_inFrame, walkAlternates_eq]
  obtain ⟨houtcome, hafter⟩ := @walkChain_inserted site p (Alternate.last? alternates) _ _ hscope _
    hwrites s { s with store := { s.store with scopes := (s.store.scopes.enter scope).2 } }
    ⟨⟨.empty rfl, rfl⟩, rfl⟩
  have hid : (s.store.scopes.enter scope).1 = s.store.scopes.frames.length := rfl
  rw [hid]
  generalize walkChain site p scope _ _ s = first at *
  generalize walkChain site p s.store.scopes.frames.length _ _ _ = second at *
  obtain ⟨result, after⟩ := first
  obtain ⟨result', after'⟩ := second
  dsimp only at houtcome hafter hlength hroot' ⊢
  obtain rfl : result' = result := houtcome.eq_of_id
  obtain ⟨⟨hscopes, hhistory⟩, hbuilder⟩ := hafter
  rw [← hlength] at hscopes ⊢
  obtain ⟨⟨scopes, history⟩, builder⟩ := after
  obtain ⟨⟨scopes', history'⟩, builder'⟩ := after'
  obtain rfl : history' = history := hhistory
  obtain rfl : builder' = builder := hbuilder
  rw [hscopes.exit_length hroot']

/-- An if block with an alternative condition does the same as the block whose else branch is a
block of the other conditions, if those write nothing. Whatever the conditions do, the body of the
first one that holds runs, from the state that the conditions before it leave one after the other;
if none holds it is the last body, and a condition that fails ends the chain. -/
theorem walk_ifBlock_chain (span inner : Span) (condition other : Expr)
    (consequent body : List Node) (rest : List Alternate) :
    let chain := Alternate.elseIf other body :: rest
    let block := Node.ifBlock span condition consequent chain
    (scope < s.store.scopes.frames.length →
      (∀ branch ∈ Alternate.branches chain, branch.1.writes = false) →
      walk site p scope (.ifBlock span condition consequent
        [.otherwise [.ifBlock inner other body rest]]) s = walk site p scope block s) ∧
    ∀ outcome, walk site p scope block s = outcome ↔
      Chooses site p scope ((condition, consequent) :: Alternate.branches chain)
        (Alternate.last? chain) s outcome := by
  intro chain block
  refine ⟨fun hscope hwrites => ?_, fun outcome => ?_⟩
  · have hchain : ∀ scope, walkAll site p scope [.ifBlock inner other body rest] =
        walkAlternates site p scope chain := by
      intro scope
      simp only [walkAll, walk, chain, walkAlternates]
      exact bind_pure _
    simp only [block, walk, walkAlternates, hchain, Action.run_bind]
    cases hrun : evaluate site scope condition s with
    | mk result t =>
      cases result with
      | error error => rfl
      | ok value =>
        dsimp only
        split
        · rfl
        · have hkept := (StepClosed.keepsFrames site scope).evaluate condition s
            (List.length_pos_iff.1 (Nat.zero_lt_of_lt hscope))
          rw [hrun] at hkept
          exact inFrame_walkAlternates (hkept.length ▸ hscope) hwrites
  · rw [walk_ifBlock_eq]
    exact walkChain_iff _ _ _

/-- The second condition holds. Its body gives a value to a variable outside and makes one that is
gone after the block. -/
theorem walk_ifBlock_chain_second :
    let span : Span := ⟨0, 0, 1, 1⟩
    let site : Site Compiler := ⟨"", standardHost none, fun prompt => .error (.referenceCycle prompt)⟩
    let name (x : String) := Expr.identifier span x
    let assign (x : String) := Node.mustache span (.assignment span .assign (name x) (name "b"))
    let body := [assign "total", assign "seen"]
    let rest := [Alternate.elseIf (name "missing") [], .otherwise [.text span "c"]]
    let block := Node.ifBlock span (name "a") [.text span "a"] (.elseIf (name "b") body :: rest)
    let nested := Node.ifBlock span (name "a") [.text span "a"]
      [.otherwise [.ifBlock span (name "b") body rest]]
    let s : WalkState :=
      ⟨⟨.ofBindings [("a", .null), ("b", .bool true), ("total", .null)], []⟩, .empty⟩
    let after := (walk site .outermost 0 nested s).2
    walk site .outermost 0 nested s = walk site .outermost 0 block s ∧
      Chooses site .outermost 0 [(name "a", [.text span "a"]), (name "b", body),
        (name "missing", [])] (some [.text span "c"]) s (.ok (), after) ∧
      after.store.scopes.lookup? 0 "total" = some (.bool true) ∧
      after.store.scopes.lookup? 0 "seen" = none := by
  intro span site name assign body rest block nested s after
  obtain ⟨hnested, hchooses⟩ := @walk_ifBlock_chain site .outermost 0 s span span (name "a") (name "b") [.text span "a"] body rest
  have heq : walk site .outermost 0 nested s = walk site .outermost 0 block s :=
    hnested (by decide) (by simp [Alternate.branches, rest, name, Expr.writes])
  refine ⟨heq, (hchooses _).1 (heq.symm.trans (Prod.ext ?_ rfl)), rfl, rfl⟩
  show (walk site .outermost 0 nested s).1 = .ok ()
  rfl

end PromptTemplate
