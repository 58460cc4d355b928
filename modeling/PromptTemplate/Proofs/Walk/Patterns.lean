import Mathlib.Data.List.Induction
import PromptTemplate.Host.Standard
import PromptTemplate.Proofs.Scope.Hygiene
import PromptTemplate.Proofs.Scope.Write

/-!
# What loops bind

The names of a loop are those of its pattern, in their order, and the one of the
number of the iteration. Each name of the pattern has a path, and is bound to what
the path leads to in the item (`bindIteration_eq`). The frame of an iteration starts
with these bindings if no name is there twice, and otherwise the loop ends with the
first name that is there again (`walk_eachBlock`).
-/

namespace PromptTemplate

open Walk

/-- What a pattern takes of a value: a field of an object, or an item of an array. -/
inductive Pattern.Step where
  | field (name : String)
  | item (index : Nat)

/-- A part of a value, null if the value has none. -/
def Value.part (value : Value) : Pattern.Step → Value
  | .field name => value.fieldOrNull name
  | .item index => value.itemOrNull index

/-- What steps from a value lead to. -/
def Value.follow (value : Value) (path : List Pattern.Step) : Value := path.foldl Value.part value

mutual

/-- The names of a pattern in their order, each with the steps to its part of the value. -/
def Pattern.places : Pattern → List (Ident × List Pattern.Step)
  | .ident name => [(name, [])]
  | .object entries => Pattern.placesFields entries
  | .array items => Pattern.placesItems 0 items

def Pattern.placesFields : List (Ident × Pattern) → List (Ident × List Pattern.Step)
  | [] => []
  | (key, pattern) :: rest =>
    pattern.places.map (Prod.map id (.field key.name :: ·)) ++ Pattern.placesFields rest

def Pattern.placesItems (index : Nat) : List Pattern → List (Ident × List Pattern.Step)
  | [] => []
  | pattern :: rest =>
    pattern.places.map (Prod.map id (.item index :: ·)) ++ Pattern.placesItems (index + 1) rest

end

/-- The names that a loop binds, in the order in which it does. -/
def Pattern.loopNames (pattern : Pattern) (number : Option Ident) : List Ident :=
  pattern.places.map Prod.fst ++ number.toList

/-- What a loop binds its names to in one iteration. -/
def Pattern.loopParts (pattern : Pattern) (number : Option Ident) (item : Value) (count : Nat) :
    List (Ident × Value) :=
  pattern.places.map (Prod.map id item.follow) ++
    number.toList.map (·, Value.countToNumber count)

/-- The parts of a loop as bindings. -/
def Ident.bindings (parts : List (Ident × Value)) : Dict Value := parts.map (Prod.map Ident.name id)

/-- A state with one more frame, which has the bindings. -/
def WalkState.within (s : WalkState) (bindings : Dict Value) (parent : ScopeId) : WalkState :=
  { s with store := { s.store with
    scopes := ⟨⟨bindings, some parent⟩ :: s.store.scopes.frames⟩ } }

/-- A state after the end of a frame. -/
def WalkState.leave (s : WalkState) (scope : ScopeId) : WalkState :=
  { s with store := { s.store with scopes := s.store.scopes.exit scope } }

/-- Runs in a new frame inside `parent` that starts with bindings. -/
def Walk.inFrameWith (bindings : Dict Value) (parent : ScopeId) (body : ScopeId → Walk Unit) :
    Walk Unit := fun s =>
  let after := body s.store.scopes.frames.length (s.within bindings parent)
  (after.1, after.2.leave s.store.scopes.frames.length)

theorem Pattern.loopParts_names (pattern : Pattern) (number : Option Ident) (item : Value)
    (count : Nat) : (pattern.loopParts number item count).map Prod.fst = pattern.loopNames number := by
  cases number <;> simp [loopParts, loopNames]

-- ---------------------------------------------------------------------------
-- Binding is declaring
-- ---------------------------------------------------------------------------

/-- Declares names one after the other. -/
def declareAll (scope : ScopeId) (parts : List (Ident × Value)) : Walk Unit :=
  forM parts fun part => declare scope part.1 part.2

theorem declareAll_append (scope : ScopeId) (first second : List (Ident × Value)) :
    declareAll scope (first ++ second) =
      (do declareAll scope first; declareAll scope second) := by
  simp [declareAll, List.forM_append]

/-- The names below a step have the parts of the value that the step leads to. -/
theorem follow_step (value : Value) (step : Pattern.Step)
    (places : List (Ident × List Pattern.Step)) :
    (places.map (Prod.map id (step :: ·))).map (Prod.map id value.follow) =
      places.map (Prod.map id (value.part step).follow) := by
  rw [List.map_map]
  rfl

mutual

theorem bindPattern_eq (scope : ScopeId) (value : Value) : (pattern : Pattern) →
    bindPattern scope value pattern =
      declareAll scope (pattern.places.map (Prod.map id value.follow))
  | .ident name => by
    simp [bindPattern, Pattern.places, declareAll, Value.follow]
  | .object entries => by
    rw [bindPattern, Pattern.places, bindFields_eq scope value entries]
  | .array items => by
    rw [bindPattern, Pattern.places, bindItems_eq scope value 0 items]

theorem bindFields_eq (scope : ScopeId) (value : Value) : (entries : List (Ident × Pattern)) →
    bindFields scope value entries =
      declareAll scope ((Pattern.placesFields entries).map (Prod.map id value.follow))
  | [] => by simp [bindFields, Pattern.placesFields, declareAll]
  | (key, pattern) :: rest => by
    rw [bindFields, Pattern.placesFields, List.map_append, declareAll_append, follow_step,
      bindPattern_eq scope _ pattern, bindFields_eq scope value rest]
    rfl

theorem bindItems_eq (scope : ScopeId) (value : Value) (index : Nat) : (items : List Pattern) →
    bindItems scope value index items =
      declareAll scope ((Pattern.placesItems index items).map (Prod.map id value.follow))
  | [] => by simp [bindItems, Pattern.placesItems, declareAll]
  | pattern :: rest => by
    rw [bindItems, Pattern.placesItems, List.map_append, declareAll_append, follow_step,
      bindPattern_eq scope _ pattern, bindItems_eq scope value (index + 1) rest]
    rfl

end

/-- An iteration declares its names with the parts of the item. -/
theorem bindIteration_eq (scope : ScopeId) (pattern : Pattern) (number : Option Ident)
    (item : Value) (count : Nat) :
    bindIteration scope pattern number item count =
      declareAll scope (pattern.loopParts number item count) := by
  unfold bindIteration Pattern.loopParts
  rw [bindPattern_eq, declareAll_append]
  refine congrArg _ (funext fun _ => ?_)
  cases number <;> simp [declareAll]

-- ---------------------------------------------------------------------------
-- Declaring in the newest frame
-- ---------------------------------------------------------------------------

variable {s : WalkState} {parent : ScopeId} {bindings : Dict Value}

theorem run_declare_within (name : Ident) (value : Value) :
    declare s.store.scopes.frames.length name value (s.within bindings parent) =
      if name.name ∈ Dict.keys bindings then
        (.error ⟨.alreadyDeclared name.name, name.span⟩, s.within bindings parent)
      else (.ok (), s.within (bindings ++ [(name.name, value)]) parent) := by
  have hframe : (s.within bindings parent).store.scopes.frame? s.store.scopes.frames.length =
      some ⟨bindings, some parent⟩ := ScopeTree.frameIn?_newest
  rw [run_declare]
  unfold ScopeTree.declare?
  rw [hframe, Option.any_some]
  by_cases hname : name.name ∈ Dict.keys bindings
  · have hcontains : Dict.contains bindings name.name = true :=
      (Dict.get?_isSome_iff_mem_keys ..).2 hname
    rw [if_pos hname, hcontains]
    rfl
  · have hcontains : Dict.contains bindings name.name = false := by
      rw [Dict.contains, Dict.notMem_keys_iff.1 hname]
      rfl
    have hbind : (s.within bindings parent).store.scopes.bind s.store.scopes.frames.length
        name.name value =
          (s.within (bindings ++ [(name.name, value)]) parent).store.scopes :=
      @ScopeTree.bind_added _ _ [] _ _ _ rfl hname value
    rw [if_neg hname, hcontains]
    dsimp only [Bool.false_eq_true, if_false]
    rw [hbind]
    rfl

/-- Names that are all new are declared in their order. -/
theorem run_declareAll_within (parts : List (Ident × Value))
    (h : (Dict.keys bindings ++ parts.map (Ident.name ∘ Prod.fst)).Nodup) :
    declareAll s.store.scopes.frames.length parts (s.within bindings parent) =
      (.ok (), s.within (bindings ++ Ident.bindings parts) parent) := by
  induction parts generalizing bindings with
  | nil => simp [declareAll, Ident.bindings]
  | cons part rest ih =>
    obtain ⟨name, value⟩ := part
    have hname : name.name ∉ Dict.keys bindings := fun hmem =>
      (List.nodup_append.1 h).2.2 _ hmem _ (.head _) rfl
    have hrest : (Dict.keys (bindings ++ [(name.name, value)]) ++
        rest.map (Ident.name ∘ Prod.fst)).Nodup := by
      simpa [Dict.keys] using h
    have hbindings : bindings ++ Ident.bindings ((name, value) :: rest) =
        bindings ++ [(name.name, value)] ++ Ident.bindings rest := by
      simp [Ident.bindings]
    rw [declareAll, List.forM_cons, Action.run_bind, run_declare_within, if_neg hname]
    exact (ih hrest).trans (by rw [hbindings])

/-- The first name that is there already ends it, and nothing behind it matters. -/
theorem run_declareAll_repeat {before after : List (Ident × Value)} {name : Ident} {value : Value}
    (h : (before.map (Ident.name ∘ Prod.fst)).Nodup)
    (hname : name.name ∈ before.map (Ident.name ∘ Prod.fst)) :
    declareAll s.store.scopes.frames.length (before ++ (name, value) :: after) (s.within [] parent) =
      (.error ⟨.alreadyDeclared name.name, name.span⟩,
        s.within (Ident.bindings before) parent) := by
  have hkeys : Dict.keys (Ident.bindings before) = before.map (Ident.name ∘ Prod.fst) := by
    simp [Dict.keys, Ident.bindings]
  rw [declareAll_append, Action.run_bind, run_declareAll_within before (by simpa [Dict.keys] using h)]
  dsimp only [List.nil_append]
  rw [declareAll, List.forM_cons, Action.run_bind, run_declare_within, hkeys, if_pos hname]

/-- A list with a repetition has a first one. -/
theorem exists_first_repeat {α β : Type} (f : α → β) (l : List α) (h : ¬ (l.map f).Nodup) :
    ∃ before a after, l = before ++ a :: after ∧ (before.map f).Nodup ∧ f a ∈ before.map f := by
  induction l using List.reverseRecOn with
  | nil => exact absurd List.nodup_nil h
  | append_singleton earlier a ih =>
    by_cases hearlier : (earlier.map f).Nodup
    · refine ⟨earlier, a, [], rfl, hearlier, Classical.not_not.1 fun hnew => h ?_⟩
      rw [List.map_append, List.map_singleton, List.nodup_append]
      refine ⟨hearlier, List.pairwise_singleton .., fun x hx y hy hxy => hnew ?_⟩
      rwa [← List.mem_singleton.1 hy, ← hxy]
    · obtain ⟨before, b, after, rfl, hbefore, hb⟩ := ih hearlier
      exact ⟨before, b, after ++ [a], by simp, hbefore, hb⟩

-- ---------------------------------------------------------------------------
-- Iterations
-- ---------------------------------------------------------------------------

section
variable {site : Site Compiler} {p : Placement} {scope : ScopeId} {pattern : Pattern}
  {number : Option Ident}

theorem Pattern.loopParts_map (f : Ident → β) (item : Value) (count : Nat) :
    (pattern.loopParts number item count).map (f ∘ Prod.fst) =
      (pattern.loopNames number).map f := by
  rw [← loopParts_names pattern number item count, List.map_map]

theorem run_inFrame_within (parent : ScopeId) (body : ScopeId → Walk Unit) (s : WalkState) :
    inFrame parent body s = inFrameWith [] parent body s := rfl

theorem leave_within {s : WalkState} (hroot : s.store.scopes.frames ≠ []) (bindings : Dict Value)
    (parent : ScopeId) : (s.within bindings parent).leave s.store.scopes.frames.length = s := by
  rw [WalkState.leave, WalkState.within, ScopeTree.exit_newest _ hroot]

/-- With distinct names a frame starts with what they are bound to. -/
theorem inFrame_bindIteration (h : ((pattern.loopNames number).map Ident.name).Nodup)
    (item : Value) (count : Nat) (body : ScopeId → Walk Unit) :
    (inFrame scope fun inner => do bindIteration inner pattern number item count; body inner) =
      inFrameWith (Ident.bindings (pattern.loopParts number item count)) scope body := by
  funext s
  have hrun := @run_declareAll_within s scope [] (pattern.loopParts number item count) (by
    rw [Pattern.loopParts_map]
    simpa [Dict.keys] using h)
  rw [run_inFrame_within, inFrameWith, bindIteration_eq, Action.run_bind, hrun]
  rfl

/-- The first name that is there again ends an iteration, and the frame with it. -/
theorem inFrame_bindIteration_repeat {before after : List Ident} {name : Ident} {s : WalkState}
    (hnames : pattern.loopNames number = before ++ name :: after)
    (hbefore : (before.map Ident.name).Nodup) (hname : name.name ∈ before.map Ident.name)
    (hroot : s.store.scopes.frames ≠ []) (item : Value) (count : Nat)
    (body : ScopeId → Walk Unit) :
    (inFrame scope fun inner => do bindIteration inner pattern number item count; body inner) s =
      (.error ⟨.alreadyDeclared name.name, name.span⟩, s) := by
  rw [← Pattern.loopParts_names pattern number item count] at hnames
  obtain ⟨first, others, hparts, rfl, hothers⟩ := List.map_eq_append_iff.1 hnames
  obtain ⟨⟨_, value⟩, last, rfl, rfl, -⟩ := List.map_eq_cons_iff.1 hothers
  rw [List.map_map] at hbefore hname
  have hrun := @run_declareAll_repeat s scope _ last _ value hbefore hname
  rw [run_inFrame_within, inFrameWith, bindIteration_eq, hparts, Action.run_bind, hrun]
  dsimp only
  rw [leave_within hroot]

end

/-- A loop over an array that has items. If its names are distinct, each iteration runs the body in
a frame that starts with exactly these names: those of the pattern with the parts of the item that
their steps lead to, and the other one with the number of the iteration. If a name is there twice,
the first one that is there again is the error of the loop, which has done nothing then but
evaluate what it loops over. -/
theorem walk_eachBlock {site : Site Compiler} {p : Placement} {scope : ScopeId} {s t : WalkState}
    (hroot : s.store.scopes.frames ≠ []) (span : Span) {iterable : Expr} (pattern : Pattern)
    (number : Option Ident) (body : List Node) (fallback : Option (List Node)) {first : Value}
    {rest : List Value}
    (hitems : evaluate site scope iterable s = (.ok (.array (first :: rest)), t)) :
    let block := Node.eachBlock span iterable pattern number body fallback
    let names := pattern.loopNames number
    ((names.map Ident.name).Nodup →
      walk site p scope block s = iterate (fun item count =>
        inFrameWith (Ident.bindings (pattern.loopParts number item count)) scope fun inner =>
          walkAll site p inner body) 0 (first :: rest) t) ∧
    (¬ (names.map Ident.name).Nodup →
      ∃ before name after, names = before ++ name :: after ∧ (before.map Ident.name).Nodup ∧
        name.name ∈ before.map Ident.name ∧
        walk site p scope block s = (.error ⟨.alreadyDeclared name.name, name.span⟩, t)) := by
  intro block names
  have hwalk : walk site p scope block s = iterate (fun item count => inFrame scope fun inner => do
      bindIteration inner pattern number item count
      walkAll site p inner body) 0 (first :: rest) t := by
    simp only [block, walk, Action.run_bind, hitems]
    rfl
  refine ⟨fun hnames => ?_, fun hnames => ?_⟩
  · rw [hwalk]
    simp only [inFrame_bindIteration hnames]
  · obtain ⟨before, name, after, hsplit, hbefore, hname⟩ := exists_first_repeat _ _ hnames
    refine ⟨before, name, after, hsplit, hbefore, hname, ?_⟩
    have hkept := (StepClosed.keepsFrames site scope).evaluate iterable s hroot
    rw [hitems] at hkept
    rw [hwalk, iterate, Action.run_bind,
      inFrame_bindIteration_repeat hsplit hbefore hname (hkept.nonempty hroot) first 0]

/-- An array in an object, where the second item has a text instead of the array. In the second
block the last name is the first one again. -/
theorem walk_eachBlock_users :
    let span : Span := ⟨0, 0, 1, 1⟩
    let place : Span := ⟨20, 21, 1, 21⟩
    let site : Site Compiler := ⟨"", standardHost none, fun prompt => .error (.referenceCycle prompt)⟩
    let ident (name : String) : Ident := ⟨name, span⟩
    let pattern (last : Ident) := Pattern.object [(ident "id", .ident (ident "id")),
      (ident "tags", .array [.ident (ident "tag"), .object [(ident "x", .ident last)]])]
    let body := [Node.mustache span (.identifier span "n"), .mustache span (.identifier span "y")]
    let block (last : Ident) :=
      Node.eachBlock span (.identifier span "users") (pattern last) (some (ident "n")) body none
    let users := [Value.object [("id", .string "a"),
      ("tags", .array [.string "b", .object [("x", .string "c")]])],
      .object [("tags", .string "d")]]
    let s : WalkState := ⟨⟨.ofBindings [("users", .array users)], []⟩, .empty⟩
    walk site .outermost 0 (block (ident "y")) s = iterate (fun item count =>
        inFrameWith (Ident.bindings ((pattern (ident "y")).loopParts (some (ident "n")) item count)) 0
          fun inner => walkAll site .outermost inner body) 0 users s ∧
      (walk site .outermost 0 (block (ident "y")) s).2.builder.text = "0c1" ∧
      walk site .outermost 0 (block ⟨"id", place⟩) s = (.error ⟨.alreadyDeclared "id", place⟩, s) := by
  intro span place site ident pattern body block users s
  have hblock (last : Ident) := @walk_eachBlock site .outermost 0 s s (List.cons_ne_nil _ _) span
    (.identifier span "users") (pattern last) (some (ident "n")) body none _ _ rfl
  refine ⟨(hblock (ident "y")).1 (by decide), by decide +kernel, ?_⟩
  obtain ⟨before, name, after, hnames, hbefore, hname, hwalk⟩ :=
    (hblock ⟨"id", place⟩).2 (by decide)
  -- The names are `id`, `tag`, `id` again and `n`, so there are two in front of the repetition.
  rcases before with _ | ⟨a, _ | ⟨b, _ | ⟨c, rest⟩⟩⟩
  · cases hname
  · cases hnames
    exact absurd hname (by decide)
  · cases hnames
    exact hwalk
  · obtain ⟨rfl, rfl, rfl, -⟩ : a = ident "id" ∧ b = ident "tag" ∧ c = ⟨"id", place⟩ ∧ True := by
      simpa [Pattern.loopNames, pattern, Pattern.places, Pattern.placesFields, Pattern.placesItems,
        eq_comm] using (congrArg (List.take 3) hnames)
    exact absurd hbefore (by simp [ident])

end PromptTemplate
