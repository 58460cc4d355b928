import PromptTemplate.Host.Standard
import PromptTemplate.Proofs.Machine.Failure
import PromptTemplate.Proofs.Machine.Trace

/-!
# No text is lost

Step by step, what a machine has in its builders is what hearing the events
so far makes (`step_hears`): text goes to the end of the innermost builder,
and the documents that wait have ended their runs. Only tags that hold data
take text for something else. So without these the texts of the conversation
are what was said, run by run (`compile_texts`).
-/

namespace PromptTemplate

open Walk

-- ---------------------------------------------------------------------------
-- Tags that hold data
-- ---------------------------------------------------------------------------

/-- The text inside is an address or arguments. -/
def Tag.holdsData (tag : Tag) : Bool :=
  match tag.kind with
  | .toolCall => true
  | .content (some kind) => kind = .image
  | .content none =>
    match (tag.attribute? "type").map Attribute.value with
    | some (.literal name) => ContentKind.ofName? name = some .image
    | _ => false
  | .message _ | .reference | .generic => false

def Event.holdsData : Event → Bool
  | .start tag => tag.holdsData
  | .piece _ | .stop => false

def OpenKind.holdsData : OpenKind → Bool
  | content kind => kind = .image
  | toolCall _ _ => true
  | message _ => false

theorem contentKind_type {tag : Tag} {kind : ContentKind} {s t : WalkState}
    (h : contentKind tag none s = (.ok kind, t)) :
    (tag.attribute? "type" = none ∧ kind = .text) ∨
      ∃ name, (tag.attribute? "type").map Attribute.value = some (.literal name) ∧
        ContentKind.ofName? name = some kind := by
  simp only [contentKind] at h
  cases hfound : tag.attribute? "type" with
  | none =>
    rw [hfound] at h
    exact .inl ⟨rfl, (Action.pure_ok.mp h).1.symm⟩
  | some found =>
    obtain ⟨key, span, value⟩ := found
    rw [hfound] at h
    cases value with
    | literal name =>
      cases hread : ContentKind.ofName? name with
      | none => simp [hread] at h
      | some read =>
        simp only [hread, Action.pure_ok] at h
        exact .inr ⟨name, rfl, hread.trans (congrArg some h.1)⟩
    | flag | expression =>
      have hread : ContentKind.ofName? "" = none := by decide
      simp [hread] at h

theorem OpenKind.Opens.holdsData {tag : Tag} {kind : OpenKind} (h : OpenKind.Opens tag kind) :
    kind.holdsData = tag.holdsData := by
  unfold Tag.holdsData
  cases h with
  | message hkind _ =>
    rw [hkind]
    rfl
  | toolCall hkind =>
    rw [hkind]
    rfl
  | @content given kind _ _ hkind hread =>
    rw [hkind]
    cases given with
    | some given =>
      obtain rfl := (Action.pure_ok.mp hread).1
      rfl
    | none =>
      obtain ⟨hnone, rfl⟩ | ⟨name, hname, hread⟩ := contentKind_type hread
      · simp [hnone, OpenKind.holdsData]
      · simp [hname, hread, OpenKind.holdsData]

-- ---------------------------------------------------------------------------
-- Tasks
-- ---------------------------------------------------------------------------

/-- The events are what was done to the builder, which stands inside a message
or outside afterwards. -/
structure Hears (events : List Event) (inside : Bool) (b b' : Builder) : Prop where
  stands : b'.Stands inside
  tally : b'.tally = events.foldl Tally.hear b.tally

/-- Where a tag begins or ends the run ends. -/
theorem Hears.edge {event : Event} {inside : Bool} {b b' : Builder} (hedge : event.isEdge = true)
    (hstands : b'.Stands inside) (htally : b'.tally = b.tally.cut) :
    Hears [event] inside b b' := by
  refine ⟨hstands, ?_⟩
  rw [htally, List.foldl_cons, List.foldl_nil, Tally.hear_edge hedge]

variable {site : Site String} {p q : Placement} {scope : ScopeId} {s t : WalkState}
  {tasks : List Task}

theorem evaluate_builder {e : Expr} {value : Value} (h : evaluate site scope e s = (.ok value, t)) :
    t.builder = s.builder := ((ReadClosed.builder site scope).evaluate e).builder_eq h

/-- A move that says nothing, from a state with the same builder. -/
theorem Hears.move {tasks' : List Task} {u : WalkState}
    (hstands : s.builder.Stands p.message.isSome) (hb : u.builder = s.builder)
    (h : (pure (.go tasks' p) : Walk Move) u = (.ok (.go tasks q), t)) :
    Hears [] q.message.isSome s.builder t.builder := by
  obtain ⟨hmove, rfl⟩ := Action.pure_ok.mp h
  obtain ⟨-, rfl⟩ := Move.go.inj hmove
  rw [hb]
  exact ⟨hstands, rfl⟩

theorem enterFrame_builder {inner : ScopeId} (h : enterFrame scope s = (.ok inner, t)) :
    t.builder = s.builder := by
  rw [← (Prod.mk.inj h).2]

theorem performTag_hears {tag : Tag} {children : List Node}
    (hstands : s.builder.Stands p.message.isSome) (hdata : tag.holdsData = false)
    (h : performTag site p scope tag children s = (.ok (.go tasks q), t)) :
    Hears [.start tag] q.message.isSome s.builder t.builder := by
  unfold Tag.holdsData at hdata
  cases performTag_opening h with
  | message hkind hopen =>
    obtain ⟨hp, id, -, hb⟩ := openMessage_ok hopen
    rw [Placement.message_of_admitsMessage hp] at hstands
    rw [hb]
    exact .edge rfl (Builder.stands_beginMessage ..) (Builder.tally_beginMessage hstands ..)
  | content hkind hopen =>
    rw [(openContent_ok hopen).2]
    exact .edge rfl hstands.flushText (Builder.tally_flushText hstands)
  | toolCall hkind | wholeToolCall hkind => simp [hkind] at hdata

theorem performNode_hears {node : Node} (hstands : s.builder.Stands p.message.isSome)
    (hdata : ∀ event ∈ node.event? site scope s, event.holdsData = false)
    (h : performNode site p scope node s = (.ok (.go tasks q), t)) :
    Hears (node.event? site scope s).toList q.message.isSome s.builder t.builder := by
  cases node with
  | config => simp only [performNode, fail_ok] at h
  | text span value =>
    simp only [performNode, Action.bind_ok, build_ok, Action.pure_ok] at h
    obtain ⟨_, _, rfl, hmove, rfl⟩ := h
    obtain ⟨-, rfl⟩ := Move.go.inj hmove
    exact ⟨hstands.text _, rfl⟩
  | mustache span e =>
    simp only [performNode, Action.bind_ok] at h
    obtain ⟨value, u, heval, h⟩ := h
    have hb := evaluate_builder heval
    cases hside : e.isSideEffect with
    | true =>
      simp only [hside, Bool.not_true, Bool.false_eq_true, if_false] at h
      simp only [Node.event?, hside, if_true, Option.toList_none]
      exact .move hstands hb h
    | false =>
      simp only [hside, Bool.not_false, if_true, Action.bind_ok, build_ok, Action.pure_ok] at h
      obtain ⟨_, _, rfl, hmove, rfl⟩ := h
      obtain ⟨-, rfl⟩ := Move.go.inj hmove
      simp only [Node.event?, hside, Bool.false_eq_true, if_false, heval, Option.toList_some, hb]
      exact ⟨hstands.text _, rfl⟩
  | ifBlock span condition consequent alternates =>
    simp only [performNode, Action.bind_ok] at h
    obtain ⟨value, u, heval, h⟩ := h
    cases htruthy : value.isTruthy with
    | true =>
      simp only [htruthy, if_true] at h
      exact .move hstands (evaluate_builder heval) h
    | false =>
      simp only [htruthy, Bool.false_eq_true, if_false] at h
      exact .move hstands (evaluate_builder heval) h
  | eachBlock span iterable item index body fallback =>
    simp only [performNode, Action.bind_ok] at h
    obtain ⟨value, u, heval, h⟩ := h
    cases hitems : value.loopItems with
    | nil =>
      rw [hitems] at h
      exact .move hstands (evaluate_builder heval) h
    | cons first rest =>
      rw [hitems] at h
      exact .move hstands (evaluate_builder heval) h
  | tag head children => exact performTag_hears hstands (hdata _ rfl) h

theorem close_hears {opened : OpenTag} {outside : Placement} {u : Unit}
    (hstands : s.builder.Stands (opened.kind.inside outside).message.isSome)
    (hp : outside.admits opened.tag.kind = .ok ())
    (hopens : OpenKind.Opens opened.tag opened.kind) (hdata : opened.tag.holdsData = false)
    (h : opened.close s = (.ok u, t)) :
    Hears [.stop] outside.message.isSome s.builder t.builder := by
  obtain ⟨tag, kind⟩ := opened
  rw [← hopens.holdsData] at hdata
  cases hopens with
  | message hkind _ =>
    rw [hkind] at hp
    have hb : t.builder = s.builder.endMessage := by rw [← build_ok.mp h]
    rw [Placement.message_of_admitsMessage hp, hb]
    exact .edge rfl (Builder.stands_endMessage _) (Builder.tally_endMessage hstands)
  | @content _ kind =>
    cases kind with
    | image => cases hdata
    | text =>
      rw [closeContent_text h]
      exact .edge rfl hstands.flushText (Builder.tally_flushText hstands)
  | toolCall => cases hdata

theorem perform_hears {task : Task} (hstands : s.builder.Stands p.message.isSome)
    (hdata : ∀ event ∈ task.event? site s, event.holdsData = false)
    (hclose : ∀ opened outside, task = .close opened outside →
      p = opened.kind.inside outside ∧ outside.admits opened.tag.kind = .ok () ∧
        OpenKind.Opens opened.tag opened.kind ∧ opened.tag.holdsData = false)
    (h : task.perform site p s = (.ok (.go tasks q), t)) :
    Hears (task.event? site s).toList q.message.isSome s.builder t.builder := by
  cases task with
  | node scope n => exact performNode_hears hstands hdata h
  | block scope body =>
    obtain ⟨inner, u, henter, h⟩ := Action.bind_ok.mp h
    exact .move hstands (enterFrame_builder henter) h
  | alternates scope alternates =>
    cases alternates with
    | nil => exact .move hstands rfl h
    | cons first rest =>
      cases first with
      | elseIf condition body =>
        obtain ⟨value, u, heval, h⟩ := Action.bind_ok.mp h
        cases htruthy : value.isTruthy with
        | true =>
          simp only [htruthy, if_true] at h
          exact .move hstands (evaluate_builder heval) h
        | false =>
          simp only [htruthy, Bool.false_eq_true, if_false] at h
          exact .move hstands (evaluate_builder heval) h
      | otherwise body => exact .move hstands rfl h
  | items scope item index body count values =>
    cases values with
    | nil => exact .move hstands rfl h
    | cons value rest =>
      simp only [Task.perform, Action.bind_ok] at h
      obtain ⟨inner, u, henter, _, v, hbind, h⟩ := h
      have hv := ((DeclareClosed.builder inner).iteration item index value count).builder_eq hbind
      exact .move hstands (hv.trans (enterFrame_builder henter)) h
  | leave scope =>
    obtain ⟨_, u, hleave, h⟩ := Action.bind_ok.mp h
    have hu : u.builder = s.builder := by rw [← (Prod.mk.inj hleave).2]
    exact .move hstands hu h
  | close opened outside =>
    obtain ⟨rfl, hp, hopens, hplain⟩ := hclose opened outside rfl
    obtain ⟨_, u, hdone, h⟩ := Action.bind_ok.mp h
    obtain ⟨hmove, rfl⟩ := Action.pure_ok.mp h
    obtain ⟨-, rfl⟩ := Move.go.inj hmove
    exact close_hears hstands hp hopens hplain hdone

/-- Only the start of a tag brings a task that closes it. -/
theorem closes_of_moves {task : Task} (h : Moves site p task (.go tasks q)) {opened : OpenTag}
    {outside : Placement} (hm : .close opened outside ∈ tasks) :
    task.event? site s = some (.start opened.tag) := by
  have hnodes : ∀ scope body, Task.close opened outside ∉ Task.nodes scope body := by
    simp [Task.nodes]
  cases h with
  | opened =>
    rcases List.mem_append.mp hm with hm | hm
    · exact absurd hm (hnodes _ _)
    · obtain ⟨rfl, -⟩ := Task.close.inj (List.mem_singleton.mp hm)
      rfl
  | fallback => simp at hm
  | block | item =>
    rcases List.mem_append.mp hm with hm | hm
    · exact absurd hm (hnodes _ _)
    · simp at hm
  | _ => simp at hm

-- ---------------------------------------------------------------------------
-- Machines
-- ---------------------------------------------------------------------------

/-- The builder stands where the document is, and no tag that is open holds data. -/
structure Activation.Plain (active : Activation) (b : Builder) : Prop where
  stands : b.Stands active.placement.message.isSome
  closes : ∀ opened outside, .close opened outside ∈ active.tasks → opened.tag.holdsData = false

/-- A document waits outside messages. -/
def Waiting.Plain (w : Waiting) : Prop :=
  w.active.Plain w.state.builder ∧ w.active.placement.message = none

/-- The texts of the waiting documents, whose runs have ended. -/
def textsBefore : List Waiting → List String
  | [] => []
  | w :: waiting => textsBefore waiting ++ w.state.builder.tally.cut.texts

namespace Machine

def Plain : Machine → Prop
  | running active state waiting => active.Plain state.builder ∧ ∀ w ∈ waiting, w.Plain
  | halted _ _ => True

def tally : Machine → Tally
  | running _ state waiting => state.builder.tally.after (textsBefore waiting)
  | halted (.ok conversation) _ => ⟨conversation.texts, ""⟩
  | halted (.error _) _ => .empty

variable {context : Context} {waiting : List Waiting}

/-- A document that ends hands on the texts of all that it heard. -/
theorem resume_hears {conversation : Conversation} {t : Tally}
    (htexts : conversation.texts = t.cut.texts) (hwaiting : ∀ w ∈ waiting, w.Plain)
    (history : History) :
    (resume waiting (.ok conversation) history).Plain ∧
      (resume waiting (.ok conversation) history).tally = (t.after (textsBefore waiting)).cut := by
  rw [← Tally.after_cut]
  cases waiting with
  | nil => exact ⟨trivial, Tally.ext htexts rfl⟩
  | cons w waiting =>
    obtain ⟨⟨⟨hstands, hcloses⟩, hplace⟩, hrest⟩ := List.forall_mem_cons.mp hwaiting
    rw [hplace] at hstands
    have hextend := hstands.extend conversation.messages
    have htally := Builder.tally_extend hstands conversation.messages
    rw [resume, Plain, tally]
    -- What is extended stays a name: comparing builders would run them.
    generalize w.state.builder.extend conversation.messages = b at hextend htally ⊢
    refine ⟨⟨⟨?_, hcloses⟩, hrest⟩, ?_⟩
    · rw [hplace]
      exact hextend
    · have hmessages : conversation.messages.flatMap Message.texts = t.cut.texts := htexts
      rw [htally, hmessages]
      simp [Tally.after, Tally.cut, textsBefore]

theorem begin_hears (hwaiting : ∀ w ∈ waiting, w.Plain) (source : String) (bindings : Dict Value)
    (history : History) :
    (∃ error history', begin waiting source bindings history = .halted (.error error) history') ∨
      (begin waiting source bindings history).Plain ∧
        (begin waiting source bindings history).tally = ⟨textsBefore waiting, ""⟩ := by
  unfold begin
  cases parseDocument source with
  | error error => exact .inl ⟨_, _, resume_error waiting error history⟩
  | ok document =>
    refine .inr ⟨⟨⟨.empty, by simp [Task.nodes]⟩, hwaiting⟩, ?_⟩
    simp [tally, Builder.tally, Builder.empty, Tally.after]

/-- References stand outside all tags, and leave the builder to the messages that will come. -/
theorem refer_hears {active : Activation} {site : Site String} {task : Task} {rest : List Task}
    {s t : WalkState} {span : Span} {referral : Referral String} (hsound : active.Sound)
    (htasks : active.tasks = task :: rest)
    (h : task.perform site active.placement s = (.ok (.refer span referral), t)) :
    t.builder = s.builder ∧ active.placement.message = none ∧
      ∃ tag, task.event? site s = some (.start tag) := by
  obtain ⟨scope, tag, children, rfl, -, -, hopen⟩ := perform_refer_tag h
  obtain ⟨document, path, -, hnested⟩ := hsound
  have hpath : path = [] := by
    have hadmits := (hnested.legal.admits_iff .reference).mp
    rw [← hnested.placement_eq] at hadmits
    exact hadmits (openReference_ok.mp hopen).1
  refine ⟨IgnoresBuilder.builder_eq (openReference_ignoresBuilder _ _ _ _ _) hopen, ?_, tag, rfl⟩
  rw [hnested.placement_eq, hpath]
  rfl

theorem closes_of_sound {active : Activation} {task : Task} {rest : List Task}
    (hsound : active.Sound) (htasks : active.tasks = task :: rest)
    (hcloses : ∀ opened outside, .close opened outside ∈ active.tasks →
      opened.tag.holdsData = false) :
    ∀ opened outside, task = .close opened outside →
      active.placement = opened.kind.inside outside ∧ outside.admits opened.tag.kind = .ok () ∧
        OpenKind.Opens opened.tag opened.kind ∧ opened.tag.holdsData = false := by
  rintro opened outside rfl
  obtain ⟨source, config, p, tasks⟩ := active
  obtain rfl : tasks = _ := htasks
  obtain ⟨document, path, -, hnested⟩ := hsound
  have hdata := hcloses opened outside List.mem_cons_self
  cases hnested with
  | task hclose => cases hclose
  | close _ hkind hp _ => exact ⟨rfl, hp, hkind, hdata⟩

/-- A step does to the tally what is heard in it. -/
theorem step_hears {m m' : Machine} (hsound : m.Sound) (hplain : m.Plain)
    (hdata : ∀ event ∈ m.event? context, event.holdsData = false) (h : Step context m m') :
    (∃ error history, m' = .halted (.error error) history) ∨
      m'.Plain ∧ m'.tally = (m.event? context).toList.foldl Tally.hear m.tally := by
  rcases step_cases h with ⟨source, config, p, state, waiting, rfl, rfl⟩ |
    ⟨source, config, p, task, rest, state, waiting, rfl, rfl⟩
  · have hfinish := Builder.texts_finish hplain.1.stands
    have htexts : (Conversation.mk config state.builder.finish).texts =
        state.builder.tally.cut.texts := by rw [Conversation.texts, hfinish]
    obtain ⟨hplain', htally⟩ := resume_hears htexts hplain.2 state.store.history
    refine .inr ⟨hplain', ?_⟩
    rw [htally]
    simp only [event?, Option.toList_some, List.foldl_cons, List.foldl_nil, Tally.hear, tally]
  · obtain ⟨⟨hstands, hcloses⟩, hwaiting⟩ := hplain
    cases hperform : task.perform (site context waiting source) p state with
    | mk result t =>
      cases result with
      | error error => exact .inl ⟨_, _, resume_error waiting error _⟩
      | ok move =>
        cases move with
        | go tasks q =>
          have hmoves := perform_moves hperform
          have hheard := perform_hears hstands hdata (closes_of_sound hsound.1 rfl hcloses) hperform
          refine .inr ⟨⟨⟨hheard.stands, fun opened outside hm => ?_⟩, hwaiting⟩, ?_⟩
          · rcases List.mem_append.mp hm with hm | hm
            · exact hdata _ (closes_of_moves hmoves hm)
            · exact hcloses opened outside (List.mem_cons_of_mem _ hm)
          · simp only [advance, tally, event?]
            rw [hheard.tally, Tally.after_foldl_hear]
        | refer span referral =>
          obtain ⟨hbuilder, hplace, tag, hevent⟩ := refer_hears hsound.1 rfl hperform
          have hw : Waiting.Plain ⟨span, referral.entered, ⟨source, config, p, rest⟩, t⟩ := by
            refine ⟨⟨?_, fun opened outside hm => ?_⟩, hplace⟩
            · rw [hbuilder]
              exact hstands
            · exact hcloses opened outside (List.mem_cons_of_mem _ hm)
          have hbegin := begin_hears (List.forall_mem_cons.mpr ⟨hw, hwaiting⟩) referral.source
            referral.bindings t.store.history
          refine hbegin.imp id (And.imp id fun htally => ?_)
          simp only [advance, event?, hevent, Option.toList_some, List.foldl_cons, List.foldl_nil]
          rw [htally]
          simp [tally, textsBefore, hbuilder, Tally.hear, Tally.after, Tally.cut]

/-- A run does to the tally what is heard in it. -/
theorem trace_hears {m : Machine} (hsound : m.Sound) (hplain : m.Plain) {n : Nat}
    {events : List Event} {conversation : Conversation} {history : History}
    (h : trace context n m = (events, .halted (.ok conversation) history))
    (hdata : ∀ event ∈ events, event.holdsData = false) :
    ⟨conversation.texts, ""⟩ = events.foldl Tally.hear m.tally := by
  induction n generalizing m events with
  | zero =>
    obtain ⟨rfl, rfl⟩ := Prod.mk.inj h
    rfl
  | succ n ih =>
    cases hstep : m.step context with
    | none =>
      simp only [trace, hstep] at h
      obtain ⟨rfl, rfl⟩ := Prod.mk.inj h
      rfl
    | some next =>
      rw [trace_step hstep] at h
      obtain ⟨rfl, hlast⟩ := Prod.mk.inj h
      obtain ⟨hfirst, hrest⟩ := List.forall_mem_append.mp hdata
      have hfirst : ∀ event ∈ m.event? context, event.holdsData = false := by simpa using hfirst
      obtain ⟨error, history', rfl⟩ | ⟨hplain', htally⟩ := step_hears hsound hplain hfirst hstep
      · rw [trace_halted] at hlast
        cases hlast
      · rw [List.foldl_append, ← htally]
        exact ih (sound_step hsound hstep) hplain' (Prod.ext rfl hlast) hrest

theorem texts_of_trace {source : String} {n : Nat} {events : List Event}
    {conversation : Conversation} {history : History}
    (h : trace context n (start context source) = (events, .halted (.ok conversation) history))
    (hdata : ∀ event ∈ events, event.holdsData = false) :
    conversation.texts = ((Event.runs events).filter (!Text.isAllBlank ·)).map Text.trim := by
  have hsound : (start context source).Sound := sound_steps .refl
  obtain ⟨error, history', hfails⟩ | ⟨hplain, htally⟩ :=
    begin_hears (List.forall_mem_nil _) source context.bindings []
  · rw [start, hfails, trace_halted] at h
    cases h
  · have hheard := trace_hears hsound hplain h hdata
    rw [start, htally] at hheard
    obtain ⟨run, more, hruns⟩ := Event.exists_runs events
    have htexts := Tally.texts_foldl_hear ⟨textsBefore [], ""⟩ hruns
    rw [← hheard, String.empty_append, ← hruns, flatMap_textBlocks] at htexts
    simpa [Tally.cut, textsBefore] using htexts

/-- A compile that succeeds says its text in the order of its run, and if no tag on the way holds
data, it makes one block of each run of text that no tag begins or ends in and no reference
stands in, unless the run is blank. So but for blanks, nothing is lost, said twice, or moved. -/
theorem compile_texts {source : String} {conversation : Conversation} {history : History}
    (h : compile context source = (.ok conversation, history)) :
    (∃ n events, trace context n (start context source) =
      (events, .halted (.ok conversation) history)) ∧
    ∀ n events, trace context n (start context source) =
        (events, .halted (.ok conversation) history) →
      (∀ event ∈ events, event.holdsData = false) →
      conversation.texts = ((Event.runs events).filter (!Text.isAllBlank ·)).map Text.trim ∧
        Text.unblank (String.join conversation.texts) = Text.unblank (Event.said events) := by
  refine ⟨?_, fun n events htrace hdata => ?_⟩
  · have hsteps := start_steps context source
    rw [h] at hsteps
    exact trace_of_steps hsteps
  · have htexts := texts_of_trace htrace hdata
    refine ⟨htexts, ?_⟩
    rw [htexts, unblank_join_trim, Event.join_runs]

/-- The runs that are said until a machine has compiled its source, if no tag holds data. -/
def heard? (context : Context) (n : Nat) (source : String) : Option (List String) :=
  match trace context n (start context source) with
  | (events, .halted (.ok _) _) =>
    if ∀ event ∈ events, event.holdsData = false then some (Event.runs events) else none
  | _ => none

/-- Around a reference, and around content inside a message. -/
theorem compile_texts_reference :
    let context : Context := ⟨[("x", .string "1")], standardHost (some [("p", .source "d")]), 1⟩
    let source := "a\x7bx\x7d <ref prompt=\"p\"/> <user> b<text>c </text></user>"
    ∃ conversation history events, compile context source = (.ok conversation, history) ∧
      trace context 14 (start context source) = (events, .halted (.ok conversation) history) ∧
      (∀ event ∈ events, event.holdsData = false) ∧
      conversation.texts = ["a1", "d", "b", "c"] ∧
      Text.unblank (String.join conversation.texts) = Text.unblank (Event.said events) := by
  intro context source
  have hheard : heard? context 14 source = some ["a1 ", "d", " ", " b", "c ", "", "", ""] := by
    unfold context source
    decide +kernel
  unfold heard? at hheard
  split at hheard
  · rename_i events conversation history htrace
    split at hheard
    · rename_i hdata
      have hcompile := steps_to_halted .refl (steps_of_trace htrace)
      obtain ⟨htexts, hsaid⟩ := (compile_texts hcompile).2 14 events htrace hdata
      refine ⟨conversation, history, events, hcompile, htrace, hdata, ?_, hsaid⟩
      rw [htexts, Option.some.inj hheard]
      decide
    · cases hheard
  · cases hheard

end Machine

end PromptTemplate
