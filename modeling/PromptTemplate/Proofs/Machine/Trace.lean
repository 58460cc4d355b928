import PromptTemplate.Proofs.Conversation.Texts
import PromptTemplate.Proofs.Machine

/-!
# What is said in a run

A machine says pieces of text, and says where tags begin and where tags and
documents end. Between two such ends stands a run of text; hearing all that is
said, one after the other, makes one block of each run that is not blank
(`texts_foldl_hear`).
-/

namespace PromptTemplate

open Walk

-- ---------------------------------------------------------------------------
-- Events
-- ---------------------------------------------------------------------------

inductive Event where
  | piece (text : String)
  | start (tag : Tag)
  /-- The end of a tag or of a document. -/
  | stop

namespace Event

def isEdge : Event → Bool
  | piece _ => false
  | start _ | stop => true

def text : Event → String
  | piece text => text
  | start _ | stop => ""

/-- All the text of events. -/
def said (events : List Event) : String := String.join (events.map text)

@[simp] theorem said_nil : said [] = "" := rfl

@[simp] theorem said_cons (event : Event) (events : List Event) :
    said (event :: events) = event.text ++ said events := String.join_cons

/-- The texts between edges. -/
def runs (events : List Event) : List String := (events.splitOnP isEdge).map said

theorem exists_runs (events : List Event) : ∃ run more, runs events = run :: more := by
  apply List.exists_cons_of_ne_nil
  simp [runs, List.splitOnP_ne_nil]

/-- A piece goes in front of the first run. -/
theorem runs_piece (text : String) {events : List Event} {run : String} {more : List String}
    (h : runs events = run :: more) : runs (piece text :: events) = (text ++ run) :: more := by
  rw [runs] at h
  cases hsplit : events.splitOnP isEdge with
  | nil => simp [hsplit] at h
  | cons first rest =>
    obtain ⟨rfl, rfl⟩ : said first = run ∧ rest.map said = more := by simpa [hsplit] using h
    simp [runs, List.splitOnP_cons_eq_if_modifyHead, hsplit, isEdge, Event.text]

theorem runs_edge {event : Event} (h : event.isEdge = true) (events : List Event) :
    runs (event :: events) = "" :: runs events := by
  simp [runs, List.splitOnP_cons_eq_if_modifyHead, h]

theorem text_edge {event : Event} (h : event.isEdge = true) : event.text = "" := by
  cases event with
  | piece => cases h
  | start | stop => rfl

theorem join_runs (events : List Event) : String.join (runs events) = said events := by
  induction events with
  | nil => rfl
  | cons event events ih =>
    rw [said_cons, ← ih]
    cases hedge : event.isEdge with
    | true => rw [runs_edge hedge, text_edge hedge, String.join_cons]
    | false =>
      obtain ⟨run, more, hruns⟩ := exists_runs events
      cases event with
      | piece text =>
        rw [runs_piece text hruns, hruns, String.join_cons, String.join_cons, Event.text,
          String.append_assoc]
      | start | stop => cases hedge

end Event

open Event

namespace Tally

def hear (t : Tally) : Event → Tally
  | .piece text => t.say text
  | .start _ | .stop => t.cut

theorem hear_edge {event : Event} (h : event.isEdge = true) (t : Tally) : t.hear event = t.cut := by
  cases event with
  | piece => cases h
  | start | stop => rfl

theorem after_hear (texts : List String) (t : Tally) (event : Event) :
    (t.hear event).after texts = (t.after texts).hear event := by
  cases event with
  | piece text => exact after_say texts t text
  | start | stop => exact after_cut texts t

theorem after_foldl_hear (texts : List String) (t : Tally) (events : List Event) :
    (events.foldl hear t).after texts = events.foldl hear (t.after texts) := by
  induction events generalizing t with
  | nil => rfl
  | cons event events ih => rw [List.foldl_cons, ih, after_hear, List.foldl_cons]

/-- The run that has not ended goes on with the first run that is heard. -/
theorem texts_foldl_hear (t : Tally) {events : List Event} {run : String} {more : List String}
    (h : runs events = run :: more) :
    (events.foldl hear t).cut.texts =
      t.texts ++ ((t.run ++ run) :: more).flatMap fun run => textsOf (textBlocks run) := by
  induction events generalizing t run more with
  | nil =>
    obtain ⟨rfl, rfl⟩ := List.cons.inj h
    simp [cut]
  | cons event events ih =>
    obtain ⟨first, rest, hruns⟩ := exists_runs events
    rw [List.foldl_cons, ih _ hruns]
    cases hedge : event.isEdge with
    | true =>
      rw [runs_edge hedge, hruns] at h
      obtain ⟨rfl, rfl⟩ := List.cons.inj h
      simp [hear_edge hedge, cut]
    | false =>
      cases event with
      | piece text =>
        rw [runs_piece text hruns] at h
        obtain ⟨rfl, rfl⟩ := List.cons.inj h
        simp [hear, say, String.append_assoc]
      | start | stop => cases hedge

end Tally

/-- What comes of runs of text. -/
theorem flatMap_textBlocks (runs : List String) :
    runs.flatMap (fun run => textsOf (textBlocks run)) =
      (runs.filter (!Text.isAllBlank ·)).map Text.trim := by
  induction runs with
  | nil => rfl
  | cons run runs ih =>
    rw [List.flatMap_cons, ih, textsOf_textBlocks]
    cases hblank : Text.isAllBlank run <;> simp [hblank]

/-- Blanks apart, nothing of the runs is lost. -/
theorem unblank_join_trim (runs : List String) :
    Text.unblank (String.join ((runs.filter (!Text.isAllBlank ·)).map Text.trim)) =
      Text.unblank (String.join runs) := by
  induction runs with
  | nil => rfl
  | cons run runs ih =>
    cases hblank : Text.isAllBlank run with
    | true => simp [hblank, ih, Text.unblank_eq_nil.mpr hblank]
    | false => simp [hblank, ih]

-- ---------------------------------------------------------------------------
-- Runs of a machine
-- ---------------------------------------------------------------------------

/-- What is said where a node is reached. -/
def Node.event? (site : Site String) (scope : ScopeId) (state : WalkState) : Node → Option Event
  | .text _ value => some (.piece value)
  | .mustache _ e =>
    if e.isSideEffect then none
    else match evaluate site scope e state with
      | (.ok value, _) => some (.piece value.render)
      | (.error _, _) => none
  | .tag head _ => some (.start head)
  | .config .. | .ifBlock .. | .eachBlock .. => none

def Task.event? (site : Site String) (state : WalkState) : Task → Option Event
  | .node scope n => n.event? site scope state
  | .close .. => some .stop
  | .block .. | .alternates .. | .items .. | .leave _ => none

namespace Machine

def event? (context : Context) : Machine → Option Event
  | running ⟨_, _, _, []⟩ _ _ => some .stop
  | running ⟨source, _, _, task :: _⟩ state waiting =>
    task.event? (site context waiting source) state
  | halted _ _ => none

/-- What is said in the first steps from a machine, and where they lead. -/
def trace (context : Context) : Nat → Machine → List Event × Machine
  | 0, m => ([], m)
  | n + 1, m =>
    match m.step context with
    | none => ([], m)
    | some next =>
      let (events, last) := trace context n next
      ((m.event? context).toList ++ events, last)

theorem trace_halted (context : Context) (n : Nat) (result : Except CompileError Conversation)
    (history : History) :
    trace context n (.halted result history) = ([], .halted result history) := by
  cases n <;> rfl

theorem trace_step {context : Context} {m next : Machine} (h : Step context m next) (n : Nat) :
    trace context (n + 1) m =
      ((m.event? context).toList ++ (trace context n next).1, (trace context n next).2) := by
  have hstep : m.step context = some next := h
  simp only [trace, hstep]

theorem steps_of_trace {context : Context} {m last : Machine} {n : Nat} {events : List Event}
    (h : trace context n m = (events, last)) : Steps context m last := by
  induction n generalizing m events with
  | zero =>
    obtain ⟨-, rfl⟩ := Prod.mk.inj h
    exact .refl
  | succ n ih =>
    cases hstep : m.step context with
    | none =>
      simp only [trace, hstep] at h
      obtain ⟨-, rfl⟩ := Prod.mk.inj h
      exact .refl
    | some next =>
      rw [trace_step hstep] at h
      obtain ⟨-, rfl⟩ := Prod.mk.inj h
      exact .head hstep (ih rfl)

theorem trace_of_steps {context : Context} {m last : Machine} (h : Steps context m last) :
    ∃ n events, trace context n m = (events, last) := by
  induction h using Relation.ReflTransGen.head_induction_on with
  | refl => exact ⟨0, [], rfl⟩
  | head hstep _ ih =>
    obtain ⟨n, events, htrace⟩ := ih
    exact ⟨n + 1, _, by rw [trace_step hstep, htrace]⟩

end Machine

end PromptTemplate
