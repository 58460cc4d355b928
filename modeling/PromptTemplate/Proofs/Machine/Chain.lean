import PromptTemplate.Host.Standard
import PromptTemplate.Proofs.Machine.Agreement
import PromptTemplate.Proofs.Machine.Moves

/-!
# References end

Whatever the host answers, no prompt is resolved inside itself and no more
prompts than allowed are at a time. So a machine comes to an end, and it is
the one that compiling says (`compile_resolves_bounded`).
-/

namespace PromptTemplate

open Walk

-- ---------------------------------------------------------------------------
-- What tasks ask for
-- ---------------------------------------------------------------------------

theorem performTag_refers (site : Site String) (p : Placement) (scope : ScopeId) (tag : Tag)
    (children : List Node) : Refers site (performTag site p scope tag children) := by
  have hS := StepClosed.calls site scope
  unfold performTag
  cases tag.kind with
  | message given => exact .of_calls (hS.bind (hS.openMessage p tag given) fun _ => hS.pure _)
  | content given => exact .of_calls (hS.bind (hS.openContent p tag given) fun _ => hS.pure _)
  | toolCall =>
    refine .of_calls (hS.bind (hS.openToolCall p tag _) fun call => ?_)
    cases call.arguments with
    | some arguments => exact hS.bind (hS.build (.pushBlock _)) fun _ => hS.pure _
    | none => exact hS.pure _
  | reference => exact (openReference_refers site p scope tag _).map
  | generic => exact .of_calls (hS.fail _ _)

theorem performNode_refers (site : Site String) (p : Placement) (scope : ScopeId) (node : Node) :
    Refers site (performNode site p scope node) := by
  have hS := StepClosed.calls site scope
  cases node with
  | config => exact .of_calls (hS.fail _ _)
  | text _ value => exact .of_calls (hS.bind (hS.build (.pushText value)) fun _ => hS.pure _)
  | mustache _ e =>
    refine .of_calls (hS.bind (hS.evaluate e) fun value => ?_)
    split
    · exact hS.bind (hS.build (.pushText _)) fun _ => hS.pure _
    · exact hS.pure _
  | ifBlock _ condition =>
    refine .of_calls (hS.bind (hS.evaluate condition) fun value => ?_)
    split <;> exact hS.pure _
  | eachBlock _ iterable =>
    refine .of_calls (hS.bind (hS.evaluate iterable) fun value => ?_)
    cases value.loopItems <;> exact hS.pure _
  | tag tag children => exact performTag_refers site p scope tag children

theorem StepClosed.close {site : Site γ} {scope : ScopeId} {P : {α : Type} → Walk α → Prop}
    (hP : StepClosed site scope P) (opened : OpenTag) : P opened.close := by
  obtain ⟨tag, kind⟩ := opened
  cases kind with
  | message => exact hP.build .endMessage
  | content kind => exact hP.closeContent kind
  | toolCall id name => exact hP.closeToolCall tag.span id name

/-- A task asks for no prompt but the one that it enters. -/
theorem perform_refers (site : Site String) (p : Placement) (task : Task) :
    Refers site (task.perform site p) := by
  have hS := StepClosed.calls site
  cases task with
  | node scope n => exact performNode_refers site p scope n
  | block scope body =>
    exact .of_calls ((hS scope).bind (fun _ => .refl _) fun _ => (hS scope).pure _)
  | alternates scope alternates =>
    cases alternates with
    | nil => exact .of_calls ((hS scope).pure _)
    | cons first rest =>
      cases first with
      | elseIf condition body =>
        refine .of_calls ((hS scope).bind ((hS scope).evaluate condition) fun value => ?_)
        split <;> exact (hS scope).pure _
      | otherwise body => exact .of_calls ((hS scope).pure _)
  | items scope item index body count values =>
    cases values with
    | nil => exact .of_calls ((hS scope).pure _)
    | cons value rest =>
      refine .of_calls ((hS scope).bind (fun _ => .refl _) fun inner => ?_)
      exact (hS inner).bind ((DeclareClosed.calls inner).iteration item index value count)
        fun _ => (hS inner).pure _
  | leave scope =>
    exact .of_calls ((hS scope).bind (fun _ => .refl _) fun _ => (hS scope).pure _)
  | close opened outside =>
    have hroot := hS ScopeTree.root
    exact .of_calls (hroot.bind (hroot.close opened) fun _ => hroot.pure _)

-- ---------------------------------------------------------------------------
-- The prompts being resolved
-- ---------------------------------------------------------------------------

/-- The waiting documents refer to distinct prompts, and not too many. -/
structure Waiting.Bounded (depth : Nat) (waiting : List Waiting) : Prop where
  nodup : (resolving waiting).Nodup
  length : (resolving waiting).length ≤ depth

theorem Waiting.Bounded.of_suffix {depth : Nat} {ws waiting : List Waiting}
    (hb : Bounded depth waiting) (h : ws <:+ waiting) : Bounded depth ws where
  nodup := by
    have hmap := (h.sublist.map Waiting.prompt).reverse
    exact hb.nodup.sublist hmap
  length := by
    have hlength := h.length_le
    have hbound := hb.length
    simp only [resolving, List.length_reverse, List.length_map] at hbound ⊢
    omega

theorem Waiting.Bounded.enter {depth : Nat} {waiting : List Waiting} (hb : Bounded depth waiting)
    {w : Waiting} {prompt : String}
    (h : enterNext depth (resolving waiting) prompt = .ok w.prompt) :
    Bounded depth (w :: waiting) := by
  obtain ⟨hfresh, hfree, rfl⟩ := enterNext_ok.mp h
  refine ⟨?_, ?_⟩
  · rw [resolving_cons]
    refine List.nodup_append.mpr ⟨hb.nodup, by simp, ?_⟩
    rintro a ha b hb rfl
    exact hfresh (List.mem_singleton.mp hb ▸ ha)
  · rw [resolving_cons, List.length_append]
    exact hfree

namespace Machine

theorem bounded_advance {context : Context} {waiting : List Waiting} {active : Activation}
    {task : Task} {source : String} {p : Placement} (hb : Waiting.Bounded context.depth waiting)
    (state : WalkState) :
    Waiting.Bounded context.depth
      (advance waiting active (task.perform (site context waiting source) p state)).waiting := by
  cases h : task.perform (site context waiting source) p state with
  | mk result t =>
    cases result with
    | error => exact hb.of_suffix (waiting_resume ..)
    | ok move =>
      cases move with
      | go => exact hb
      | refer span referral =>
        obtain ⟨prompt, henter⟩ := perform_refer h
        have hw : Waiting.Bounded context.depth (⟨span, referral.entered, active, t⟩ :: waiting) :=
          hb.enter henter
        exact hw.of_suffix (waiting_begin ..)

theorem bounded_step {context : Context} {m m' : Machine}
    (hb : Waiting.Bounded context.depth m.waiting) (h : Step context m m') :
    Waiting.Bounded context.depth m'.waiting := by
  rcases step_cases h with ⟨_, _, _, state, waiting, rfl, rfl⟩ |
    ⟨source, _, p, task, rest, state, waiting, rfl, rfl⟩
  · exact hb.of_suffix (waiting_resume ..)
  · exact bounded_advance hb state

theorem bounded_steps {context : Context} {source : String} {m : Machine}
    (h : Steps context (start context source) m) : Waiting.Bounded context.depth m.waiting := by
  induction h with
  | refl =>
    have hnone : Waiting.Bounded context.depth [] := ⟨List.nodup_nil, Nat.zero_le _⟩
    exact hnone.of_suffix (waiting_begin ..)
  | tail _ hstep ih => exact bounded_step ih hstep

/-- A step asks the host for a prompt only if that is not being resolved and
one more may be. -/
theorem step_asks {context : Context} {m m' : Machine} (h : Step context m m') :
    m.history.Calls m'.history ∨ ∃ prompt asked, m.history.Calls asked ∧
      m'.history = asked ++ [.resolve prompt] ∧ prompt ∉ resolving m.waiting ∧
      (resolving m.waiting).length < context.depth := by
  rcases step_cases h with ⟨_, _, _, state, waiting, rfl, rfl⟩ |
    ⟨source, _, p, task, rest, state, waiting, rfl, rfl⟩
  · rw [history_resume]
    exact .inl (.refl _)
  · rw [history_advance]
    rcases perform_refers (site context waiting source) p task state with hcalls |
      ⟨prompt, entered, asked, henter, hcalls, hasked⟩
    · exact .inl hcalls
    · obtain ⟨hfresh, hfree, -⟩ := enterNext_ok.mp henter
      exact .inr ⟨prompt, asked, hcalls, hasked, hfresh, hfree⟩

/-- Every run of the machine ends, where compiling says, whatever the host
answers. Along it the prompts being resolved are distinct and no more than
the depth, and a prompt is asked for only if it is none of them and they are
fewer than the depth. -/
theorem compile_resolves_bounded (context : Context) (source : String) :
    Acc (fun after before => Step context before after) (start context source) ∧
      ∀ m, Steps context (start context source) m →
        Steps context m (.halted (compile context source).1 (compile context source).2) ∧
        (resolving m.waiting).Nodup ∧ (resolving m.waiting).length ≤ context.depth ∧
        ∀ m', Step context m m' →
          m.history.Calls m'.history ∨ ∃ prompt asked, m.history.Calls asked ∧
            m'.history = asked ++ [.resolve prompt] ∧ prompt ∉ resolving m.waiting ∧
            (resolving m.waiting).length < context.depth := by
  refine ⟨acc_of_steps (start_steps context source) rfl, fun m hm => ?_⟩
  have hb := bounded_steps hm
  exact ⟨steps_to_end hm (start_steps context source) rfl, hb.nodup, hb.length,
    fun m' hstep => step_asks hstep⟩

/-- A prompt that refers to itself is resolved once. -/
theorem compile_resolves_bounded_cycle :
    let context : Context :=
      ⟨[], standardHost (some [("a", .source "<ref prompt=\"a\"/>")]), 3⟩
    ∃ m, Steps context (start context "<ref prompt=\"a\"/>") m ∧ resolving m.waiting = ["a"] ∧
      Steps context m (.halted (compile context "<ref prompt=\"a\"/>").1
        (compile context "<ref prompt=\"a\"/>").2) ∧
      (compile context "<ref prompt=\"a\"/>").2.length = 1 := by
  intro context
  have hstep : ((start context "<ref prompt=\"a\"/>").step context).map
      (fun m => resolving m.waiting) = some ["a"] := by
    unfold context
    decide +kernel
  have hlength : (compile context "<ref prompt=\"a\"/>").2.length = 1 := by
    unfold context
    decide +kernel
  obtain ⟨m, hm, hresolving⟩ := Option.map_eq_some_iff.mp hstep
  have hsteps : Steps context (start context "<ref prompt=\"a\"/>") m := .single hm
  obtain ⟨hend, -⟩ := (compile_resolves_bounded context "<ref prompt=\"a\"/>").2 m hsteps
  exact ⟨m, hsteps, hresolving, hend, hlength⟩

end Machine

end PromptTemplate
