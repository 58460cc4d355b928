import PromptTemplate.Host.Standard
import PromptTemplate.Proofs.Machine.Chain
import PromptTemplate.Proofs.Machine.Nesting

/-!
# Failures inside references

A document that fails is left, and so is every document that waits for it.
On the way out the error becomes one of the tag that each of them waits at:
the root compile fails at a tag of its own source, and its message still has
the code and the message of what went wrong innermost, or the very cause if
that is a limit on references (`compile_reports_innermost`).
-/

namespace PromptTemplate

open Walk

-- ---------------------------------------------------------------------------
-- Errors on the way out
-- ---------------------------------------------------------------------------

/-- A cause that every enclosing document fails with, too. -/
def Cause.isReferenceLimit : Cause → Bool
  | .referenceCycle _ | .referenceTooDeep _ => true
  | _ => false

theorem causeOfReference_limit {error : CompileError} (h : error.cause.isReferenceLimit = true) :
    causeOfReference error = error.cause := by
  unfold Cause.isReferenceLimit at h
  unfold causeOfReference
  split at h <;> simp_all

theorem causeOfReference_failed {error : CompileError} (h : error.cause.isReferenceLimit = false) :
    causeOfReference error = .referenceFailed error.toHostError := by
  unfold causeOfReference
  split <;> simp_all [Cause.isReferenceLimit]

/-- The error is one of a reference, and its message tells a name and a text. -/
structure CompileError.Tells (error : CompileError) (name text : String) : Prop where
  code : error.code = "reference-error"
  name : name.toList <:+: error.message.toList
  text : text.toList <:+: error.message.toList

theorem infix_append (a b c : String) : b.toList <:+: (a ++ b ++ c).toList := by
  rw [String.toList_append, String.toList_append]
  exact List.infix_append ..

theorem suffix_append (a b : String) : b.toList <:+: (a ++ b).toList := by
  rw [String.toList_append]
  exact (List.suffix_append ..).isInfix

theorem tells_referenceFailed (failure : HostError) (span : Span) :
    CompileError.Tells ⟨.referenceFailed failure, span⟩ failure.name failure.message := by
  have hmessage : CompileError.message ⟨.referenceFailed failure, span⟩ =
      "There was an error referencing the prompt: \n" ++ failure.name ++ " " ++ failure.message := rfl
  refine ⟨rfl, ?_, ?_⟩
  · rw [hmessage, String.append_assoc]
    exact infix_append ..
  · rw [hmessage]
    exact suffix_append ..

theorem CompileError.Tells.isReferenceLimit {error : CompileError} {name text : String}
    (h : error.Tells name text) : error.cause.isReferenceLimit = false := by
  have hcode : error.cause.code = "reference-error" := h.code
  unfold Cause.isReferenceLimit
  split
  · rename_i hcause
    simp [hcause, Cause.code] at hcode
  · rename_i hcause
    simp [hcause, Cause.code] at hcode
  · rfl

/-- An error is told by its code and its message. -/
theorem tells_causeOfReference {error : CompileError} (span : Span)
    (h : error.cause.isReferenceLimit = false) :
    CompileError.Tells ⟨causeOfReference error, span⟩ error.code error.message := by
  rw [causeOfReference_failed h]
  obtain ⟨hcode, -, htext⟩ := tells_referenceFailed error.toHostError span
  have hmessage : error.toHostError.message = "[" ++ error.code ++ ("] " ++ error.message) :=
    String.append_assoc
  refine ⟨hcode, .trans ?_ htext, .trans ?_ htext⟩
  · rw [hmessage]
    exact infix_append ..
  · exact suffix_append ..

/-- What an error tells, the one that it becomes outside tells, too. -/
theorem CompileError.Tells.outside {error : CompileError} {name text : String}
    (h : error.Tells name text) (span : Span) :
    CompileError.Tells ⟨causeOfReference error, span⟩ name text :=
  have htold := tells_causeOfReference span h.isReferenceLimit
  ⟨htold.code, h.name.trans htold.text, h.text.trans htold.text⟩

namespace Machine

/-- What an error becomes when all waiting documents are left. -/
def raise : List Waiting → CompileError → CompileError
  | [], error => error
  | w :: waiting, error => raise waiting ⟨causeOfReference error, w.span⟩

theorem resume_error (waiting : List Waiting) (error : CompileError) (history : History) :
    resume waiting (.error error) history = .halted (.error (raise waiting error)) history := by
  induction waiting generalizing error with
  | nil => rfl
  | cons w waiting ih => exact ih _

theorem raise_tells {error : CompileError} {name text : String} (h : error.Tells name text)
    (waiting : List Waiting) : (raise waiting error).Tells name text := by
  induction waiting generalizing error with
  | nil => exact h
  | cons w waiting ih => exact ih (h.outside w.span)

theorem raise_limit {error : CompileError} (h : error.cause.isReferenceLimit = true)
    (waiting : List Waiting) : (raise waiting error).cause = error.cause := by
  induction waiting generalizing error with
  | nil => rfl
  | cons w waiting ih =>
    have hcause := causeOfReference_limit h
    have hrest := @ih ⟨causeOfReference error, w.span⟩ (hcause ▸ h)
    exact hrest.trans hcause

/-- The root document is left last. -/
theorem raise_location (waiting : List Waiting) (error : CompileError) :
    (raise waiting error).location = ((waiting.map Waiting.span).getLast?).getD error.location := by
  induction waiting generalizing error with
  | nil => rfl
  | cons w waiting ih =>
    rw [raise, ih, List.map_cons, List.getLast?_cons]
    rfl

end Machine

-- ---------------------------------------------------------------------------
-- The tags that documents wait at
-- ---------------------------------------------------------------------------

/-- The tag is a reference in the document that the source is the text of. -/
def RefersIn (source : String) (tag : Tag) : Prop :=
  tag.kind = .reference ∧ ∃ document path children, parseDocument source = .ok document ∧
    StandsIn document.split.2 path (.tag tag children)

/-- A document waits at a tag of its own. -/
def Waiting.AtTag (w : Waiting) : Prop := ∃ tag, RefersIn w.active.source tag ∧ w.span = tag.span

theorem perform_refer_tag {site : Site String} {p : Placement} {task : Task} {s t : WalkState}
    {span : Span} {referral : Referral String}
    (h : task.perform site p s = (.ok (.refer span referral), t)) :
    ∃ scope tag children, task = .node scope (.tag tag children) ∧ tag.kind = .reference ∧
      span = tag.span ∧
      openReference site p scope tag (children.all Node.isBlankText) s = (.ok referral, t) := by
  cases perform_moves h with
  | refer henter =>
    cases performTag_opening h with
    | reference hkind hopen => exact ⟨_, _, _, rfl, hkind, rfl, hopen⟩

theorem Activation.Sound.refersIn {active : Activation} {scope : ScopeId} {tag : Tag}
    {children : List Node} {rest : List Task} (h : active.Sound)
    (htasks : active.tasks = .node scope (.tag tag children) :: rest)
    (hkind : tag.kind = .reference) : RefersIn active.source tag := by
  obtain ⟨text, config, p, tasks⟩ := active
  obtain rfl : tasks = _ := htasks
  obtain ⟨document, path, hparse, hnested⟩ := h
  cases hnested with
  | task _ hstands _ => exact ⟨hkind, document, _, children, hparse, hstands⟩

namespace Machine

/-- All documents but the innermost wait at a tag, and the outermost one is that of `source`. -/
def Rooted (source : String) : Machine → Prop
  | running active _ waiting => (∀ w ∈ waiting, w.AtTag) ∧
      ((active :: waiting.map Waiting.active).getLast?.map Activation.source) = some source
  | halted _ _ => True

variable {context : Context} {source : String} {active : Activation} {waiting : List Waiting}

theorem rooted_resume (hroot : (active :: waiting.map Waiting.active).getLast?.map
      Activation.source = some source) (hwaiting : ∀ w ∈ waiting, w.AtTag)
    (result : Except CompileError Conversation) (history : History) :
    (resume waiting result history).Rooted source := by
  cases result with
  | error error =>
    rw [resume_error]
    trivial
  | ok conversation =>
    cases waiting with
    | nil => trivial
    | cons w waiting => exact ⟨fun v hv => hwaiting v (List.mem_cons_of_mem _ hv), hroot⟩

theorem rooted_begin {text : String} (hroot : ∀ inner : Activation, inner.source = text →
      (inner :: waiting.map Waiting.active).getLast?.map Activation.source = some source)
    (hwaiting : ∀ w ∈ waiting, w.AtTag) (bindings : Dict Value) (history : History) :
    (begin waiting text bindings history).Rooted source := by
  unfold begin
  split
  · exact rooted_resume (hroot ⟨text, [], .outermost, []⟩ rfl) hwaiting _ _
  · exact ⟨hwaiting, hroot _ rfl⟩

theorem rooted_step {m m' : Machine} (hsound : m.Sound) (hm : m.Rooted source)
    (h : Step context m m') : m'.Rooted source := by
  rcases step_cases h with ⟨_, _, _, state, waiting, rfl, rfl⟩ |
    ⟨text, config, p, task, rest, state, waiting, rfl, rfl⟩
  · exact rooted_resume hm.2 hm.1 _ _
  · cases hperform : task.perform (site context waiting text) p state with
    | mk result t =>
      cases result with
      | error => exact rooted_resume hm.2 hm.1 _ _
      | ok move =>
        cases move with
        | go tasks q =>
          refine ⟨hm.1, ?_⟩
          have hroot := hm.2
          cases waiting with
          | nil => exact hroot
          | cons => exact hroot
        | refer span referral =>
          obtain ⟨scope, tag, children, rfl, hkind, rfl, -⟩ := perform_refer_tag hperform
          have htag : RefersIn text tag := hsound.1.refersIn rfl hkind
          refine rooted_begin (fun inner _ => ?_) ?_ _ _
          · have hroot := hm.2
            cases waiting with
            | nil => exact hroot
            | cons => exact hroot
          · exact List.forall_mem_cons.mpr ⟨⟨tag, htag, rfl⟩, hm.1⟩

theorem rooted_steps {m : Machine} (h : Steps context (start context source) m) :
    m.Rooted source := by
  induction h with
  | refl =>
    refine rooted_begin (fun inner hinner => ?_) (by simp) _ _
    simp [hinner]
  | tail hsteps hstep ih => exact rooted_step (sound_steps hsteps) ih hstep

/-- The outermost of the tags at which documents wait is one of the root document. -/
theorem outermost_refersIn {state : WalkState} {scope : ScopeId} {tag : Tag}
    {children : List Node} {rest : List Task}
    (h : Steps context (start context source) (.running active state waiting))
    (htasks : active.tasks = .node scope (.tag tag children) :: rest)
    (hkind : tag.kind = .reference) :
    ∃ root, RefersIn source root ∧
      root.span = ((waiting.map Waiting.span).getLast?).getD tag.span := by
  obtain ⟨hwaiting, hroot⟩ := rooted_steps h
  have htag := (sound_steps h).1.refersIn htasks hkind
  rcases List.eq_nil_or_concat waiting with rfl | ⟨front, last, rfl⟩
  · obtain rfl : active.source = source := Option.some.inj hroot
    exact ⟨tag, htag, rfl⟩
  · obtain ⟨root, hrefers, hspan⟩ := hwaiting last (by simp)
    rw [List.concat_eq_append, List.map_append, List.map_singleton, ← List.cons_append,
      List.getLast?_concat] at hroot
    obtain rfl : last.active.source = source := Option.some.inj hroot
    exact ⟨root, hrefers, by simp [hspan]⟩

-- ---------------------------------------------------------------------------
-- Failing references
-- ---------------------------------------------------------------------------

end Machine

/-- What goes wrong innermost: a document does not compile, or the host does not give it. -/
inductive Failure where
  | document (error : CompileError)
  | resolver (error : HostError)

namespace Failure

/-- The cause in the document with the reference. -/
def cause : Failure → Cause
  | document error => causeOfReference error
  | resolver error => .referenceFailed error

/-- Limits on references are passed on as they are; all else is told in the message. -/
def ReportedBy (error : CompileError) : Failure → Prop
  | document inner =>
    if inner.cause.isReferenceLimit then error.cause = inner.cause
    else error.Tells inner.code inner.message
  | resolver inner => error.Tells inner.name inner.message

theorem reportedBy_raise (failure : Failure) (waiting : List Waiting) (span : Span) :
    failure.ReportedBy (Machine.raise waiting ⟨failure.cause, span⟩) := by
  cases failure with
  | document inner =>
    by_cases hlimit : inner.cause.isReferenceLimit = true
    · have hcause := causeOfReference_limit hlimit
      simp only [ReportedBy, hlimit, if_true, cause]
      exact (Machine.raise_limit (hcause ▸ hlimit) waiting).trans hcause
    · simp only [ReportedBy, hlimit, cause]
      exact Machine.raise_tells (tells_causeOfReference span (by simpa using hlimit)) waiting
  | resolver inner => exact Machine.raise_tells (tells_referenceFailed inner span) waiting

end Failure

/-- A reference passes its checks, but the host has no text for the prompt, or the text does not
compile. -/
inductive ReferenceFails (context : Context) (active : Activation) (state : WalkState)
    (waiting : List Waiting) (scope : ScopeId) (tag : Tag) (children : List Node) : Failure → Prop
  | document {referral : Referral String} {opened : WalkState} {error : CompileError}
      (hopen : openReference (Machine.site context waiting active.source) active.placement scope tag
        (children.all Node.isBlankText) state = (.ok referral, opened))
      (hcompile : (compileWithin context.host context.depth (resolving waiting ++ [referral.entered])
        referral.source referral.bindings opened.store.history).1 = .error error) :
      ReferenceFails context active state waiting scope tag children (.document error)
  | resolver {prompt : String} {answer : History → String → Except HostError String}
      {extra : Dict Value} {read : WalkState} {error : HostError}
      (hplacement : active.placement.admitsReference = .ok ())
      (hblank : children.all Node.isBlankText = true)
      (hprompt : (tag.attribute? "prompt").map Attribute.value = some (.literal prompt))
      (hanswer : context.host.resolve? = some answer)
      (henter : enterNext context.depth (resolving waiting) prompt = .ok prompt)
      (hextra : extraBindings (Machine.site context waiting active.source) scope tag.attributes
        state = (.ok extra, read))
      (herror : answer read.store.history prompt = .error error) :
      ReferenceFails context active state waiting scope tag children (.resolver error)

namespace Machine

variable {context : Context} {source : String} {active : Activation} {state : WalkState}
  {waiting : List Waiting} {scope : ScopeId} {tag : Tag} {children : List Node} {rest : List Task}
  {failure : Failure}

theorem openReference_unanswered {site : Site String} {p : Placement} {isBlank : Bool}
    {prompt : String} {answer : History → String → Except HostError String} {extra : Dict Value}
    {read : WalkState} {error : HostError} (hplacement : p.admitsReference = .ok ())
    (hblank : isBlank = true)
    (hprompt : (tag.attribute? "prompt").map Attribute.value = some (.literal prompt))
    (hanswer : site.host.resolve? = some answer) (henter : site.enter prompt = .ok prompt)
    (hextra : extraBindings site scope tag.attributes state = (.ok extra, read))
    (herror : answer read.store.history prompt = .error error) :
    openReference site p scope tag isBlank state =
      (.error ⟨.referenceFailed error, tag.span⟩, { read with
        store := { read.store with
          history := read.store.history ++ [Request.resolve prompt] } }) := by
  simp only [openReference, promptName, hplacement, hblank, hprompt, hanswer, henter,
    located_of_ok, if_true, Action.run_bind, Action.run_pure, Action.run_get, hextra, run_resolve,
    herror]

/-- The document with the reference is left with an error at the tag. -/
theorem steps_of_referenceFails 
    (htasks : active.tasks = .node scope (.tag tag children) :: rest)
    (hkind : tag.kind = .reference)
    (hfails : ReferenceFails context active state waiting scope tag children failure) :
    ∃ history, Steps context (.running active state waiting)
      (resume waiting (.error ⟨failure.cause, tag.span⟩) history) := by
  obtain ⟨text, config, p, tasks⟩ := active
  obtain rfl : tasks = _ := htasks
  cases hfails with
  | @document referral opened error hopen hcompile =>
    obtain ⟨-, -, prompt, _, _, _, -, -, henter, -⟩ := openReference_ok.mp hopen
    obtain ⟨-, hroom, rfl⟩ := enterNext_ok.mp henter
    have hperform : (Task.node scope (.tag tag children)).perform (site context waiting text) p
        state = (.ok (.refer tag.span referral), opened) := by
      simp only [Task.perform, performNode, performTag, hkind]
      exact Action.bind_ok.mpr ⟨_, _, hopen, rfl⟩
    have hstep : Step context (.running ⟨text, config, p, .node scope (.tag tag children) :: rest⟩
        state waiting) (begin (⟨tag.span, referral.entered, ⟨text, config, p, rest⟩, opened⟩ ::
          waiting) referral.source referral.bindings opened.store.history) := by
      simp only [Step, step, hperform, advance]
    have hinner := @begin_steps context
      (⟨tag.span, referral.entered, ⟨text, config, p, rest⟩, opened⟩ :: waiting)
      (by rw [resolving_cons, List.length_append]; exact hroom) referral.source referral.bindings
      opened.store.history
    dsimp only at hinner
    rw [resolving_cons, hcompile] at hinner
    exact ⟨_, .head hstep hinner⟩
  | @resolver prompt answer extra read error hplacement hblank hprompt hanswer henter hextra herror =>
    have hopen := openReference_unanswered hplacement hblank hprompt hanswer henter hextra herror
    have hperform : (Task.node scope (.tag tag children)).perform (site context waiting text) p
        state = (.error ⟨.referenceFailed error, tag.span⟩, { read with
          store := { read.store with
            history := read.store.history ++ [Request.resolve prompt] } }) := by
      simp only [Task.perform, performNode, performTag, hkind]
      rw [Action.run_bind, hopen]
    refine ⟨read.store.history ++ [Request.resolve prompt], .single ?_⟩
    simp only [Step, step, hperform, advance]
    rfl

/-- There is one end to a run. -/
theorem steps_to_halted {m : Machine} {result : Except CompileError Conversation}
    {history : History} (h : Steps context (start context source) m)
    (hhalted : Steps context m (.halted result history)) :
    compile context source = (result, history) := by
  have hend := steps_to_end (h.trans hhalted) (start_steps context source) rfl
  cases hend.cases_head with
  | inl heq =>
    cases heq
    rfl
  | inr hstep =>
    obtain ⟨next, hnext, -⟩ := hstep
    cases hnext

/-- Wherever a run comes to a reference that fails, however many documents wait for the one that
it is in, the compile fails at the outermost reference, which is one of its own source. If a
limit on references is exceeded that stays the cause; else the error is one of a reference, and
tells what failed innermost. -/
theorem compile_reports_innermost
    (h : Steps context (start context source) (.running active state waiting))
    (htasks : active.tasks = .node scope (.tag tag children) :: rest)
    (hkind : tag.kind = .reference)
    (hfails : ReferenceFails context active state waiting scope tag children failure) :
    ∃ error root, (compile context source).1 = .error error ∧
      RefersIn source root ∧ root.span = ((waiting.map Waiting.span).getLast?).getD tag.span ∧
      error.location = root.span ∧ failure.ReportedBy error := by
  obtain ⟨root, hrefers, hspan⟩ := outermost_refersIn h htasks hkind
  obtain ⟨history, hsteps⟩ := steps_of_referenceFails htasks hkind hfails
  rw [resume_error] at hsteps
  have hcompile := steps_to_halted h hsteps
  refine ⟨_, root, congrArg Prod.fst hcompile, hrefers, hspan, ?_, failure.reportedBy_raise _ _⟩
  rw [raise_location, hspan]

/-- How many documents wait where a machine has come to a reference to a document that does not
compile, and the code of its error. -/
def failing? (context : Context) : Machine → Option (Nat × String)
  | running ⟨source, _, p, .node scope (.tag tag children) :: _⟩ state waiting =>
    match tag.kind, openReference (site context waiting source) p scope tag
        (children.all Node.isBlankText) state with
    | .reference, (.ok referral, opened) =>
      match (compileWithin context.host context.depth (resolving waiting ++ [referral.entered])
          referral.source referral.bindings opened.store.history).1 with
      | .error error => some (waiting.length, error.code)
      | .ok _ => none
    | _, _ => none
  | _ => none

/-- A name is missing in a prompt that a prompt of the root document refers to. -/
theorem compile_reports_innermost_nested :
    let context : Context := ⟨[], standardHost (some
      [("a", .source "<ref prompt=\"b\"/>"), ("b", .source "\x7bx\x7d")]), 3⟩
    let source := "<ref prompt=\"a\"/>"
    ∃ active state waiting scope tag children rest inner,
      Steps context (start context source) (.running active state waiting) ∧ waiting.length = 1 ∧
      active.tasks = .node scope (.tag tag children) :: rest ∧ tag.kind = .reference ∧
      ReferenceFails context active state waiting scope tag children (.document inner) ∧
      inner.code = "variable-not-declared" ∧
      ∃ error root, (compile context source).1 = .error error ∧ RefersIn source root ∧
        error.location = root.span ∧ (Failure.document inner).ReportedBy error := by
  intro context source
  have hfailing : ((start context source).step context).bind (failing? context) =
      some (1, "variable-not-declared") := by
    unfold context
    decide +kernel
  obtain ⟨m, hstep, hm⟩ := Option.bind_eq_some_iff.mp hfailing
  unfold failing? at hm
  split at hm
  · rename_i text config p scope tag children rest state waiting
    split at hm
    · rename_i referral opened hkind hopen
      split at hm
      · rename_i inner hcompile
        obtain ⟨hlength, hcode⟩ := Prod.mk.inj (Option.some.inj hm)
        have hfails : ReferenceFails context
            ⟨text, config, p, .node scope (.tag tag children) :: rest⟩ state waiting scope tag
            children (.document inner) := .document hopen hcompile
        obtain ⟨error, root, herror, hrefers, -, hlocation, hreported⟩ :=
          compile_reports_innermost (.single hstep) rfl hkind hfails
        exact ⟨_, state, waiting, scope, tag, children, rest, inner, .single hstep, hlength, rfl,
          hkind, hfails, hcode, error, root, herror, hrefers, hlocation, hreported⟩
      · cases hm
    · cases hm
  · cases hm

end Machine

end PromptTemplate
