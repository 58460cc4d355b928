import PromptTemplate.Host.Standard
import PromptTemplate.Proofs.Machine.Agreement
import PromptTemplate.Proofs.Machine.Moves

/-!
# Nesting

The tags around a place in a document, outermost first, decide what may
stand there. A machine knows the place by its placement only, which it sets
where it opens a tag and puts back where it closes one; it is always the one
of the tags that are open (`placement_follows_path`), and these are the tags
around the place in the document.
-/

namespace PromptTemplate

open Walk

-- ---------------------------------------------------------------------------
-- Paths
-- ---------------------------------------------------------------------------

/-- Nodes that stand together inside tags, outermost first, whatever blocks
are around them. -/
inductive Encloses (nodes : List Node) : List Tag → List Node → Prop
  | all : Encloses nodes [] nodes
  | tag (h : Encloses nodes path siblings) (hm : .tag tag children ∈ siblings) :
      Encloses nodes (path ++ [tag]) children
  | consequent (h : Encloses nodes path siblings)
      (hm : .ifBlock span condition body alternates ∈ siblings) : Encloses nodes path body
  | alternate (h : Encloses nodes path siblings)
      (hm : .ifBlock span condition body alternates ∈ siblings) (ha : first ∈ alternates) :
      Encloses nodes path first.body
  | body (h : Encloses nodes path siblings)
      (hm : .eachBlock span iterable item index body fallback ∈ siblings) : Encloses nodes path body
  | fallback (h : Encloses nodes path siblings)
      (hm : .eachBlock span iterable item index body (some otherwise) ∈ siblings) :
      Encloses nodes path otherwise

/-- A node stands inside these tags. -/
def StandsIn (nodes : List Node) (path : List Tag) (node : Node) : Prop :=
  ∃ siblings, Encloses nodes path siblings ∧ node ∈ siblings

/-- What a tag of a kind needs around it. -/
def Allowed (path : List OpenTag) : TagKind → Prop
  | .message _ => path = []
  | .content _ => ∃ tag role, path = [⟨tag, .message role⟩]
  | .toolCall => ∃ tag, path = [⟨tag, .message .assistant⟩]
  | .reference => path = []
  | .generic => True

/-- The placement inside tags. -/
def Placement.ofPath (path : List OpenTag) : Placement :=
  path.foldl (fun p opened => opened.kind.inside p) .outermost

theorem Placement.ofPath_append (path : List OpenTag) (opened : OpenTag) :
    Placement.ofPath (path ++ [opened]) = opened.kind.inside (Placement.ofPath path) := by
  simp [ofPath]

/-- The paths that nesting leaves. -/
inductive Legal : List OpenTag → Prop
  | outermost : Legal []
  | message : Legal [⟨tag, .message role⟩]
  | content : Legal [⟨tag, .message role⟩, ⟨tag', .content kind⟩]
  | toolCall {id : String} : Legal [⟨tag, .message .assistant⟩, ⟨tag', .toolCall id name⟩]

/-- On a legal path the flags of a placement say what the path says. -/
theorem Legal.admits_iff (h : Legal path) (kind : TagKind) :
    (Placement.ofPath path).admits kind = .ok () ↔ Allowed path kind := by
  cases h <;> cases kind <;>
    simp [Placement.ofPath, OpenKind.inside, Placement.outermost, Placement.insideMessage,
      Placement.insideContent, Placement.insideToolCall, Placement.admits, Placement.admitsMessage,
      Placement.admitsContent, Placement.admitsToolCall, Placement.admitsReference, Allowed]

theorem Legal.push (h : Legal path) (hkind : OpenKind.Opens opened.tag opened.kind)
    (hp : (Placement.ofPath path).admits opened.tag.kind = .ok ()) : Legal (path ++ [opened]) := by
  rw [h.admits_iff] at hp
  obtain ⟨tag, kind⟩ := opened
  dsimp only at hkind hp
  cases hkind with
  | message hmessage =>
    rw [hmessage] at hp
    obtain rfl : path = [] := hp
    exact .message
  | content hcontent =>
    rw [hcontent] at hp
    obtain ⟨tag', role, rfl⟩ := hp
    exact .content
  | toolCall htoolCall =>
    rw [htoolCall] at hp
    obtain ⟨tag', rfl⟩ := hp
    exact .toolCall

-- ---------------------------------------------------------------------------
-- Tasks
-- ---------------------------------------------------------------------------

def Task.opened? : Task → Option OpenTag
  | .close opened _ => some opened
  | _ => none

theorem Task.opened?_of_isClose {task : Task} (h : task.isClose = false) :
    task.opened? = none := by
  cases task with
  | close => cases h
  | _ => rfl

/-- The tags that are open, outermost first: those that are still to be
closed. -/
def openTags (tasks : List Task) : List OpenTag := (tasks.filterMap Task.opened?).reverse

/-- What a task is about stands inside these tags. -/
def Task.StandsIn (nodes : List Node) (path : List Tag) : Task → Prop
  | .node _ n => PromptTemplate.StandsIn nodes path n
  | .block _ body => Encloses nodes path body
  | .alternates _ branches => ∀ first ∈ branches, Encloses nodes path first.body
  | .items _ _ _ body _ _ => Encloses nodes path body
  | .leave _ | .close .. => True

/-- The tasks of a document and the tags that they close: every tag was
admitted where it stands and is closed to the placement there. -/
inductive Nested (nodes : List Node) : Placement → List OpenTag → List Task → Prop
  | done : Nested nodes .outermost [] []
  | task (hclose : task.isClose = false) (hstands : task.StandsIn nodes (path.map OpenTag.tag))
      (hrest : Nested nodes p path rest) : Nested nodes p path (task :: rest)
  | close (opened : OpenTag) (hkind : OpenKind.Opens opened.tag opened.kind)
      (hp : p.admits opened.tag.kind = .ok ()) (hrest : Nested nodes p path rest) :
      Nested nodes (opened.kind.inside p) (path ++ [opened]) (.close opened p :: rest)

namespace Nested

variable {nodes : List Node} {p : Placement} {path : List OpenTag} {tasks rest : List Task}

theorem openTags_eq (h : Nested nodes p path tasks) : openTags tasks = path := by
  induction h with
  | done => rfl
  | task hclose _ _ ih => simpa [openTags, Task.opened?_of_isClose hclose] using ih
  | close _ _ _ _ ih => simpa [openTags, Task.opened?] using ih

theorem placement_eq (h : Nested nodes p path tasks) : p = Placement.ofPath path := by
  induction h with
  | done => rfl
  | task _ _ _ ih => exact ih
  | close _ _ _ _ ih => rw [Placement.ofPath_append, ← ih]

theorem opens (h : Nested nodes p path tasks) :
    ∀ opened ∈ path, OpenKind.Opens opened.tag opened.kind := by
  induction h with
  | done => simp
  | task _ _ _ ih => exact ih
  | close _ hkind _ _ ih => exact List.forall_mem_append.mpr ⟨ih, by simpa using hkind⟩

theorem legal (h : Nested nodes p path tasks) : Legal path := by
  induction h with
  | done => exact .outermost
  | task _ _ _ ih => exact ih
  | close _ hkind hp hrest ih => exact ih.push hkind (hrest.placement_eq ▸ hp)

/-- Nodes that stand together go in front of what is to be done after them. -/
theorem append_nodes (h : Nested nodes p path rest)
    (hsiblings : Encloses nodes (path.map OpenTag.tag) siblings) (scope : ScopeId) :
    Nested nodes p path (Task.nodes scope siblings ++ rest) := by
  -- The siblings get fewer while the place of each stays the same.
  suffices hsub : ∀ part ⊆ siblings, Nested nodes p path (Task.nodes scope part ++ rest) from
    hsub siblings (List.Subset.refl _)
  intro part
  induction part with
  | nil => exact fun _ => h
  | cons node part ih =>
    intro hpart
    obtain ⟨hnode, hpart⟩ := List.cons_subset.mp hpart
    exact .task rfl ⟨siblings, hsiblings, hnode⟩ (ih hpart)

theorem frame (h : Nested nodes p path rest) (hbody : Encloses nodes (path.map OpenTag.tag) body)
    (inner : ScopeId) : Nested nodes p path (Task.nodes inner body ++ (.leave inner :: rest)) := by
  have hleave : Nested nodes p path (.leave inner :: rest) := .task rfl trivial h
  exact hleave.append_nodes hbody inner

theorem opened (h : Nested nodes p path rest)
    (hstands : StandsIn nodes (path.map OpenTag.tag) (.tag tag children))
    (hkind : OpenKind.Opens tag kind) (hp : p.admits tag.kind = .ok ()) (scope : ScopeId) :
    Nested nodes (kind.inside p) (path ++ [⟨tag, kind⟩])
      (Task.nodes scope children ++ (.close ⟨tag, kind⟩ p :: rest)) := by
  obtain ⟨siblings, hsiblings, hm⟩ := hstands
  have hclose : Nested nodes (kind.inside p) (path ++ [⟨tag, kind⟩])
      (.close ⟨tag, kind⟩ p :: rest) := .close ⟨tag, kind⟩ hkind hp h
  refine hclose.append_nodes ?_ scope
  rw [List.map_append]
  exact .tag hsiblings hm

/-- A move keeps the tasks nested, at the placement that it gives. -/
theorem go {site : Site String} {task : Task} {q : Placement}
    (h : Nested nodes p path (task :: rest)) (hm : Moves site p task (.go tasks q)) :
    ∃ path', Nested nodes q path' (tasks ++ rest) := by
  cases h with
  -- A tag that is closed was opened where the rest is nested.
  | close _ hkind hp hrest =>
    cases hm with
    | done hclose => cases hclose
    | close => exact ⟨_, hrest⟩
  | task hclose hstands hrest =>
    cases hm with
    | done => exact ⟨path, hrest⟩
    | consequent =>
      obtain ⟨siblings, hsiblings, hm⟩ := hstands
      exact ⟨path, .task rfl (.consequent hsiblings hm) hrest⟩
    | alternates =>
      obtain ⟨siblings, hsiblings, hm⟩ := hstands
      exact ⟨path, .task rfl (fun first ha => .alternate hsiblings hm ha) hrest⟩
    | items =>
      obtain ⟨siblings, hsiblings, hm⟩ := hstands
      exact ⟨path, .task rfl (.body hsiblings hm) hrest⟩
    | @fallback _ _ _ _ _ _ fallback =>
      obtain ⟨siblings, hsiblings, hm⟩ := hstands
      cases fallback with
      | none => exact ⟨path, hrest⟩
      | some otherwise => exact ⟨path, .task rfl (.fallback hsiblings hm) hrest⟩
    | opened hp hkind =>
      rw [List.append_assoc]
      exact ⟨_, hrest.opened hstands hkind hp _⟩
    | block =>
      rw [List.append_assoc]
      exact ⟨path, hrest.frame hstands _⟩
    | alternate => exact ⟨path, .task rfl (hstands _ List.mem_cons_self) hrest⟩
    | next =>
      exact ⟨path, .task rfl (fun first ha => hstands first (List.mem_cons_of_mem _ ha)) hrest⟩
    | item =>
      rw [List.append_assoc]
      refine ⟨path, frame ?_ hstands _⟩
      exact .task rfl hstands hrest
    | close => cases hclose

end Nested

-- ---------------------------------------------------------------------------
-- Machines
-- ---------------------------------------------------------------------------

/-- The tasks of a document are nested as its text says. -/
def Activation.Sound (active : Activation) : Prop :=
  ∃ document path, parseDocument active.source = .ok document ∧
    Nested document.split.2 active.placement path active.tasks

namespace Machine

def Sound : Machine → Prop
  | running active _ waiting => active.Sound ∧ ∀ w ∈ waiting, w.active.Sound
  | halted _ _ => True

theorem sound_resume {waiting : List Waiting} (h : ∀ w ∈ waiting, w.active.Sound)
    (result : Except CompileError Conversation) (history : History) :
    (resume waiting result history).Sound := by
  induction waiting generalizing result with
  | nil => trivial
  | cons w waiting ih =>
    obtain ⟨hw, hrest⟩ := List.forall_mem_cons.mp h
    cases result with
    | ok => exact ⟨hw, hrest⟩
    | error => exact ih hrest _

theorem sound_begin {waiting : List Waiting} (h : ∀ w ∈ waiting, w.active.Sound) (source : String)
    (bindings : Dict Value) (history : History) :
    (begin waiting source bindings history).Sound := by
  unfold begin
  cases hparse : parseDocument source with
  | error error => exact sound_resume h _ _
  | ok document =>
    refine ⟨⟨document, [], hparse, ?_⟩, h⟩
    have hall : Encloses document.split.2 [] document.split.2 := .all
    have hnodes := Nested.done.append_nodes hall ScopeTree.root
    rwa [List.append_nil] at hnodes

theorem sound_step {context : Context} {m m' : Machine} (hm : m.Sound) (h : Step context m m') :
    m'.Sound := by
  rcases step_cases h with ⟨_, _, _, state, waiting, rfl, rfl⟩ |
    ⟨source, config, p, task, rest, state, waiting, rfl, rfl⟩
  · exact sound_resume hm.2 _ _
  · obtain ⟨⟨document, path, hparse, hnested⟩, hwaiting⟩ := hm
    cases hperform : task.perform (site context waiting source) p state with
    | mk result t =>
      cases result with
      | error => exact sound_resume hwaiting _ _
      | ok move =>
        have hmoves := perform_moves hperform
        cases move with
        | go tasks q =>
          obtain ⟨path', hnested'⟩ := hnested.go hmoves
          exact ⟨⟨document, path', hparse, hnested'⟩, hwaiting⟩
        | refer span referral =>
          cases hnested with
          | close => cases hmoves
          | task _ _ hrest =>
            have hactive : Activation.Sound ⟨source, config, p, rest⟩ :=
              ⟨document, path, hparse, hrest⟩
            have hall : ∀ w ∈ ⟨span, referral.entered, ⟨source, config, p, rest⟩, t⟩ :: waiting,
                w.active.Sound := List.forall_mem_cons.mpr ⟨hactive, hwaiting⟩
            exact sound_begin hall referral.source referral.bindings t.store.history

theorem sound_steps {context : Context} {source : String} {m : Machine}
    (h : Steps context (start context source) m) : m.Sound := by
  induction h with
  | refl => exact sound_begin (by simp) source _ _
  | tail _ hstep ih => exact sound_step ih hstep

/-- A tag that may not stand where it is reached fails at once. -/
theorem perform_refused {site : Site String} {p : Placement} {tag : Tag} {cause : Cause}
    (h : p.admits tag.kind = .error cause) (scope : ScopeId) (children : List Node)
    (s : WalkState) :
    (Task.node scope (.tag tag children)).perform site p s = (.error ⟨cause, tag.span⟩, s) := by
  simp only [Task.perform, performNode, performTag]
  cases hkind : tag.kind with
  | generic =>
    rw [hkind] at h
    cases h
  | _ =>
    rw [hkind] at h
    simp only [Placement.admits] at h
    simp only [openMessage, openContent, openToolCall, openReference, h, Action.run_bind, located,
      run_fail]

/-- On the way to what compiling gives, the placement is always that of the
open tags. Where a tag is reached these are the tags around it in the
document, and it is admitted exactly if they are what it needs around it. -/
theorem placement_follows_path {context : Context} {source : String} {active : Activation}
    {state : WalkState} {waiting : List Waiting}
    (h : Steps context (start context source) (.running active state waiting)) :
    Steps context (.running active state waiting)
        (.halted (compile context source).1 (compile context source).2) ∧
      active.placement = Placement.ofPath (openTags active.tasks) ∧
      ∀ scope tag children rest, active.tasks = .node scope (.tag tag children) :: rest →
        (∃ document, parseDocument active.source = .ok document ∧
          StandsIn document.split.2 ((openTags active.tasks).map OpenTag.tag)
            (.tag tag children)) ∧
        (∀ opened ∈ openTags active.tasks, OpenKind.Opens opened.tag opened.kind) ∧
        (active.placement.admits tag.kind = .ok () ↔ Allowed (openTags active.tasks) tag.kind) ∧
        ∀ cause, active.placement.admits tag.kind = .error cause →
          step context (.running active state waiting) =
            some (resume waiting (.error ⟨cause, tag.span⟩) state.store.history) := by
  refine ⟨steps_to_end h (start_steps context source) rfl, ?_⟩
  obtain ⟨⟨document, path, hparse, hnested⟩, -⟩ := sound_steps h
  obtain ⟨text, config, p, tasks⟩ := active
  dsimp only at hparse hnested ⊢
  rw [hnested.openTags_eq, hnested.placement_eq]
  refine ⟨rfl, ?_⟩
  rintro scope tag children rest rfl
  refine ⟨⟨document, hparse, ?_⟩, hnested.opens, hnested.legal.admits_iff tag.kind, ?_⟩
  · cases hnested with
    | task _ hstands _ => exact hstands
  · intro cause hcause
    simp only [step, perform_refused hcause]
    rfl

/-- The kind of the tag that a machine has reached, and who the message
around it is from. -/
def reached? : Machine → Option (TagKind × Option Role)
  | running ⟨_, _, p, .node _ (.tag tag _) :: _⟩ _ _ => some (tag.kind, p.message)
  | _ => none

theorem placement_follows_path_content :
    let context : Context := ⟨[], standardHost none, 0⟩
    ∃ active state waiting scope tag children rest,
      Steps context (start context "<user><text>hi</text></user>")
        (.running active state waiting) ∧
      active.tasks = .node scope (.tag tag children) :: rest ∧
      tag.kind = .content (some .text) ∧ active.placement.message = some .user ∧
      active.placement = Placement.ofPath (openTags active.tasks) ∧
      (active.placement.admits tag.kind = .ok () ↔ Allowed (openTags active.tasks) tag.kind) := by
  intro context
  have hreached : ((start context "<user><text>hi</text></user>").step context).bind reached? =
      some (.content (some .text), some .user) := by
    unfold context
    decide +kernel
  obtain ⟨m, hstep, hm⟩ := Option.bind_eq_some_iff.mp hreached
  unfold reached? at hm
  split at hm
  · rename_i text config p scope tag children rest state waiting
    obtain ⟨hkind, hmessage⟩ := Prod.mk.inj (Option.some.inj hm)
    obtain ⟨-, hplacement, htag⟩ := placement_follows_path (.single hstep)
    obtain ⟨-, -, hadmits, -⟩ := htag scope tag children rest rfl
    exact ⟨_, state, waiting, scope, tag, children, rest, .single hstep, rfl, hkind, hmessage,
      hplacement, hadmits⟩
  · cases hm

end Machine

end PromptTemplate
