import Mathlib.Data.List.Chain
import Mathlib.Logic.Relation
import PromptTemplate.Compile

/-!
# Routes through a library

A source that holds nothing but text and plain references has some mentions
of prompts, and each prompt of a library has some in turn. A route goes down
from mention to mention. What a compile does at the end of a route, it
decides by the prompts on the route (`offence?`); where it stops is the first
offence in the order of the text (`Explains`).
-/

namespace PromptTemplate

/-- A reference in the text. -/
structure Mention where
  span : Span
  prompt : String

/-- A reference tag with nothing inside it and no attribute but a literal prompt. -/
def Node.mention? : Node → Option Mention
  | .tag ⟨span, .reference, _, [⟨name, _, .literal prompt⟩]⟩ [] =>
    if name = "prompt" then some ⟨span, prompt⟩ else none
  | _ => none

def Node.isText : Node → Bool
  | .text .. => true
  | _ => false

/-- The source is a sequence of text and plain references. -/
def IsStatic (source : String) : Prop :=
  ∃ document, parseDocument source = .ok document ∧
    ∀ node ∈ document.nodes, node.isText ∨ node.mention?.isSome

instance (source : String) : Decidable (IsStatic source) :=
  decidable_of_iff ((parseDocument source).toOption.any
      (·.nodes.all fun node => node.isText || node.mention?.isSome)) (by
    unfold IsStatic
    cases parseDocument source <;> simp [Except.toOption])

/-- The plain references in a source, in order. -/
def mentionsOf (source : String) : List Mention :=
  match parseDocument source with
  | .ok document => document.nodes.filterMap Node.mention?
  | .error _ => []

/-- The prompts that a host knows, and what it says about others. -/
structure Library where
  source? : String → Option String
  missing : String → HostError

namespace Library

def answer (library : Library) (_ : History) (prompt : String) : Except HostError String :=
  match library.source? prompt with
  | some source => .ok source
  | none => .error (library.missing prompt)

def IsStatic (library : Library) : Prop :=
  ∀ prompt source, library.source? prompt = some source → PromptTemplate.IsStatic source

def mentions (library : Library) (prompt : String) : List Mention :=
  match library.source? prompt with
  | some source => mentionsOf source
  | none => []

-- ---------------------------------------------------------------------------
-- Routes
-- ---------------------------------------------------------------------------

/-- The mentions on a route, which says of each which one it is among those of
the prompt before. -/
def follow (library : Library) : (mentions : List Mention) → (route : List Nat) →
    Option (List Mention)
  | _, [] => some []
  | mentions, index :: route => do
    let mention ← mentions[index]?
    return mention :: (← follow library (library.mentions mention.prompt) route)

/-- What is wrong with a reference to `prompt` while `prompts` are being
resolved, outermost first. -/
def offence? (library : Library) (depth : Nat) (prompts : List String) (prompt : String) :
    Option Cause :=
  if prompt ∈ prompts then some (.referenceCycle prompt)
  else if depth ≤ prompts.length then some (.referenceTooDeep depth)
  else if (library.source? prompt).isNone then some (.referenceFailed (library.missing prompt))
  else none

/-- The route leads to a reference, the last of those on it, with which
something is wrong while the ones above it, and before them `prompts`, are
being resolved. -/
structure IsOffence (library : Library) (depth : Nat) (prompts : List String)
    (mentions : List Mention) (route : List Nat) (above : List Mention) (last : Mention)
    (cause : Cause) : Prop where
  follows : library.follow mentions route = some (above ++ [last])
  offends : library.offence? depth (prompts ++ above.map Mention.prompt) last.prompt = some cause

/-- What an offence is to the document that the route starts in: the error is at
the first reference on the route, and all around the last one wrap it. -/
def errorAt (cause : Cause) (last : Mention) : (above : List Mention) → CompileError
  | [] => ⟨cause, last.span⟩
  | mention :: above => ⟨causeOfReference (errorAt cause last above), mention.span⟩

/-- The result is what the references in a document make of it: it fails at the
first offence in the order of the text, a reference coming before those in its
prompt, and succeeds if there is none. -/
def Explains (library : Library) (depth : Nat) (prompts : List String) (mentions : List Mention) :
    Except CompileError α → Prop
  | .ok _ => ∀ route above last cause,
      ¬library.IsOffence depth prompts mentions route above last cause
  | .error error => ∃ route above last cause,
      library.IsOffence depth prompts mentions route above last cause ∧
      (∀ earlier < route, ∀ above last cause,
        ¬library.IsOffence depth prompts mentions earlier above last cause) ∧
      error = errorAt cause last above

-- ---------------------------------------------------------------------------
-- Offences
-- ---------------------------------------------------------------------------

section
variable {library : Library} {depth : Nat} {prompts : List String} {prompt : String} {cause : Cause}

theorem offence?_eq_none : library.offence? depth prompts prompt = none ↔
    prompt ∉ prompts ∧ prompts.length < depth ∧ (library.source? prompt).isSome := by
  unfold offence?
  by_cases hmem : prompt ∈ prompts
  · simp [hmem]
  · by_cases hfull : depth ≤ prompts.length
    · simp [hmem, hfull, Nat.not_lt_of_le hfull]
    · cases hsource : library.source? prompt <;> simp [hmem, hfull, Nat.lt_of_not_le hfull]

theorem offence?_eq_some : library.offence? depth prompts prompt = some cause ↔
    (prompt ∈ prompts ∧ cause = .referenceCycle prompt) ∨
    (prompt ∉ prompts ∧ depth ≤ prompts.length ∧ cause = .referenceTooDeep depth) ∨
    (prompt ∉ prompts ∧ prompts.length < depth ∧ library.source? prompt = none ∧
      cause = .referenceFailed (library.missing prompt)) := by
  unfold offence?
  by_cases hmem : prompt ∈ prompts
  · simp [hmem, eq_comm]
  · by_cases hfull : depth ≤ prompts.length
    · simp [hmem, hfull, Nat.not_lt_of_le hfull, eq_comm]
    · cases hsource : library.source? prompt <;> simp [hmem, hfull, Nat.lt_of_not_le hfull, eq_comm]

/-- Around a failed reference the others fail too; a cycle or a depth stays what
it is. -/
theorem code_errorAt (h : library.offence? depth prompts prompt = some cause) (last : Mention)
    (above : List Mention) : (errorAt cause last above).code = cause.code := by
  have hkept : (errorAt cause last above).cause = cause ∨
      (∃ error, cause = .referenceFailed error) ∧
        ∃ error, (errorAt cause last above).cause = .referenceFailed error := by
    induction above with
    | nil => exact .inl rfl
    | cons mention above ih =>
      rw [errorAt, causeOfReference]
      rcases ih with ih | ⟨hcause, error, ih⟩
      · rw [ih]
        rcases offence?_eq_some.mp h with ⟨-, rfl⟩ | ⟨-, -, rfl⟩ | ⟨-, -, -, rfl⟩
        · exact .inl rfl
        · exact .inl rfl
        · exact .inr ⟨⟨_, rfl⟩, _, rfl⟩
      · rw [ih]
        exact .inr ⟨hcause, _, rfl⟩
  rcases hkept with hsame | ⟨⟨_, rfl⟩, _, hfailed⟩
  · rw [CompileError.code, hsame]
  · rw [CompileError.code, hfailed]
    rfl

end

-- ---------------------------------------------------------------------------
-- The first mention and the others
-- ---------------------------------------------------------------------------

section
variable {library : Library} {depth : Nat} {prompts : List String} {mentions rest above : List Mention}
  {m last : Mention} {route : List Nat} {cause : Cause}

theorem follow_zero : library.follow (m :: rest) (0 :: route) =
    (library.follow (library.mentions m.prompt) route).map (m :: ·) := by
  cases h : library.follow (library.mentions m.prompt) route <;> simp [follow, h]

theorem follow_succ {index : Nat} : library.follow (m :: rest) ((index + 1) :: route) =
    library.follow rest (index :: route) := by
  simp [follow]

theorem not_isOffence_nil : ¬library.IsOffence depth prompts mentions [] above last cause := by
  rintro ⟨hfollow, -⟩
  simp [follow] at hfollow

/-- An offence at the first mention or in its prompt. -/
theorem isOffence_zero :
    library.IsOffence depth prompts (m :: rest) (0 :: route) above last cause ↔
      (route = [] ∧ above = [] ∧ last = m ∧ library.offence? depth prompts m.prompt = some cause) ∨
      ∃ below, above = m :: below ∧ library.IsOffence depth (prompts ++ [m.prompt])
        (library.mentions m.prompt) route below last cause := by
  constructor
  · rintro ⟨hfollow, hoffends⟩
    rw [follow_zero, Option.map_eq_some_iff] at hfollow
    obtain ⟨trail, htrail, happend⟩ := hfollow
    cases above with
    | nil =>
      obtain ⟨rfl, rfl⟩ := List.cons_eq_cons.mp happend
      have hroute : route = [] := by
        cases route with
        | nil => rfl
        | cons index route => simp [follow, Option.bind_eq_some_iff] at htrail
      exact .inl ⟨hroute, rfl, rfl, by simpa using hoffends⟩
    | cons first below =>
      obtain ⟨rfl, rfl⟩ := List.cons_eq_cons.mp happend
      exact .inr ⟨below, rfl, htrail, by simpa using hoffends⟩
  · rintro (⟨rfl, rfl, rfl, hoffends⟩ | ⟨below, rfl, hfollow, hoffends⟩)
    · exact ⟨by simp [follow], by simpa using hoffends⟩
    · exact ⟨by simp [follow_zero, hfollow], by simpa using hoffends⟩

theorem isOffence_succ {index : Nat} :
    library.IsOffence depth prompts (m :: rest) ((index + 1) :: route) above last cause ↔
      library.IsOffence depth prompts rest (index :: route) above last cause := by
  constructor
  · rintro ⟨hfollow, hoffends⟩
    rw [follow_succ] at hfollow
    exact ⟨hfollow, hoffends⟩
  · rintro ⟨hfollow, hoffends⟩
    exact ⟨follow_succ.trans hfollow, hoffends⟩

-- ---------------------------------------------------------------------------
-- Explanations
-- ---------------------------------------------------------------------------

theorem explains_nil (a : α) : library.Explains depth prompts [] (.ok a) := by
  rintro (_ | ⟨index, route⟩) above last cause ⟨hfollow, -⟩
  · simp [follow] at hfollow
  · simp [follow] at hfollow

theorem explains_offence (h : library.offence? depth prompts m.prompt = some cause) :
    library.Explains depth prompts (m :: rest) (.error ⟨cause, m.span⟩ : Except CompileError α) := by
  refine ⟨[0], [], m, cause, isOffence_zero.mpr (.inl ⟨rfl, rfl, rfl, h⟩), ?_, rfl⟩
  intro earlier hearlier
  cases earlier with
  | nil => exact fun _ _ _ => not_isOffence_nil
  | cons index route =>
    rcases List.cons_lt_cons_iff.mp hearlier with hlt | ⟨-, hlt⟩
    · cases hlt
    · exact absurd hlt (List.not_lt_nil _)

variable (hfine : library.offence? depth prompts m.prompt = none)
include hfine

/-- In front of an offence in the prompt of the first mention there is only the
mention itself. -/
theorem explains_inside {error : CompileError}
    (h : library.Explains depth (prompts ++ [m.prompt]) (library.mentions m.prompt)
      (.error error : Except CompileError α)) :
    library.Explains depth prompts (m :: rest)
      (.error ⟨causeOfReference error, m.span⟩ : Except CompileError β) := by
  obtain ⟨route, above, last, cause, hoffence, hfirst, rfl⟩ := h
  refine ⟨0 :: route, m :: above, last, cause, isOffence_zero.mpr (.inr ⟨above, rfl, hoffence⟩),
    ?_, rfl⟩
  intro earlier hearlier above last cause h
  cases earlier with
  | nil => exact not_isOffence_nil h
  | cons index earlier =>
    rcases List.cons_lt_cons_iff.mp hearlier with hlt | ⟨rfl, hlt⟩
    · cases hlt
    · rcases isOffence_zero.mp h with ⟨-, -, -, hoffends⟩ | ⟨below, -, hbelow⟩
      · rw [hfine] at hoffends
        cases hoffends
      · exact hfirst earlier hlt below last cause hbelow

theorem explains_cons {a : α} {result : Except CompileError β}
    (hprompt : library.Explains depth (prompts ++ [m.prompt]) (library.mentions m.prompt) (.ok a))
    (hrest : library.Explains depth prompts rest result) :
    library.Explains depth prompts (m :: rest) result := by
  have hfirst : ∀ route above last cause,
      ¬library.IsOffence depth prompts (m :: rest) (0 :: route) above last cause := by
    intro route above last cause h
    rcases isOffence_zero.mp h with ⟨-, -, -, hoffends⟩ | ⟨below, -, hbelow⟩
    · rw [hfine] at hoffends
      cases hoffends
    · exact hprompt route below last cause hbelow
  cases result with
  | ok b =>
    rintro (_ | ⟨_ | index, route⟩) above last cause h
    · exact not_isOffence_nil h
    · exact hfirst route above last cause h
    · exact hrest _ above last cause (isOffence_succ.mp h)
  | error error =>
    obtain ⟨_ | ⟨index, route⟩, above, last, cause, hoffence, hearliest, rfl⟩ := hrest
    · exact absurd hoffence not_isOffence_nil
    · refine ⟨(index + 1) :: route, above, last, cause, isOffence_succ.mpr hoffence, ?_, rfl⟩
      rintro (_ | ⟨_ | other, earlier⟩) hlt above last cause h
      · exact not_isOffence_nil h
      · exact hfirst earlier above last cause h
      · have hlt : other :: earlier < index :: route := by
          simpa [List.cons_lt_cons_iff] using hlt
        exact hearliest _ hlt above last cause (isOffence_succ.mp h)

end

end Library

end PromptTemplate

/-! ## The graph of a library

Nothing is wrong on any route exactly if the prompts that can be reached
exist, none of them can be reached from itself, and no path is too long
(`no_offence_iff`). -/

namespace PromptTemplate.Library

/-- One prompt mentions another. -/
def Refers (library : Library) (p q : String) : Prop :=
  ∃ m ∈ library.mentions p, m.prompt = q

/-- A prompt that is mentioned, directly or through others. -/
def Reachable (library : Library) (mentions : List Mention) (q : String) : Prop :=
  ∃ m ∈ mentions, Relation.ReflTransGen library.Refers m.prompt q

/-- Prompts of which the first is mentioned and each mentions the next one. -/
def IsPath (library : Library) (mentions : List Mention) : List String → Prop
  | [] => True
  | prompt :: rest => (∃ m ∈ mentions, m.prompt = prompt) ∧
      List.IsChain library.Refers (prompt :: rest)

variable {library : Library} {depth : Nat} {mentions : List Mention} {prompts : List String}
  {p q : String}

-- ---------------------------------------------------------------------------
-- Paths
-- ---------------------------------------------------------------------------

/-- Paths are what routes lead along. -/
theorem isPath_iff_follow : library.IsPath mentions prompts ↔
    ∃ route trail, library.follow mentions route = some trail ∧
      trail.map Mention.prompt = prompts := by
  induction prompts generalizing mentions with
  | nil => exact iff_of_true trivial ⟨[], [], rfl, rfl⟩
  | cons prompt rest ih =>
    have hnext : library.IsPath (library.mentions prompt) rest ↔
        List.IsChain library.Refers (prompt :: rest) := by
      cases rest with
      | nil => exact iff_of_true trivial (.singleton _)
      | cons next rest => exact Iff.symm List.isChain_cons_cons
    constructor
    · rintro ⟨⟨m, hm, rfl⟩, hchain⟩
      obtain ⟨index, hindex⟩ := List.mem_iff_getElem?.mp hm
      obtain ⟨route, trail, hfollow, rfl⟩ := ih.mp (hnext.mpr hchain)
      exact ⟨index :: route, m :: trail, by simp [follow, hindex, hfollow], rfl⟩
    · rintro ⟨_ | ⟨index, route⟩, trail, hfollow, htrail⟩
      · cases hfollow
        cases htrail
      · simp only [follow, Option.bind_eq_bind, Option.bind_eq_some_iff, Option.pure_def] at hfollow
        obtain ⟨m, hm, below, hbelow, hcons⟩ := hfollow
        cases hcons
        obtain ⟨rfl, rfl⟩ := List.cons_eq_cons.mp htrail
        exact ⟨⟨m, List.mem_of_getElem? hm, rfl⟩, hnext.mp (ih.mpr ⟨route, below, hbelow, rfl⟩)⟩

/-- Nothing is wrong on any route if that is so on paths. -/
theorem no_offence_iff_isPath :
    (∀ route above last cause, ¬library.IsOffence depth [] mentions route above last cause) ↔
      ∀ prompts prompt, library.IsPath mentions (prompts ++ [prompt]) →
        library.offence? depth prompts prompt = none := by
  constructor
  · intro h prompts prompt hpath
    obtain ⟨route, trail, hfollow, htrail⟩ := isPath_iff_follow.mp hpath
    obtain ⟨above, lasts, rfl, rfl, hlast⟩ := List.map_eq_append_iff.mp htrail
    obtain ⟨last, rfl, rfl⟩ := List.map_eq_singleton_iff.mp hlast
    refine Option.eq_none_iff_forall_ne_some.mpr fun cause hoffends => ?_
    exact h route above last cause ⟨hfollow, hoffends⟩
  · rintro h route above last cause ⟨hfollow, hoffends⟩
    have hpath : library.IsPath mentions (above.map Mention.prompt ++ [last.prompt]) :=
      isPath_iff_follow.mpr ⟨route, above ++ [last], hfollow, by simp⟩
    rw [List.nil_append, h _ _ hpath] at hoffends
    cases hoffends

theorem IsPath.concat (h : library.IsPath mentions (prompts ++ [p])) (hpq : library.Refers p q) :
    library.IsPath mentions (prompts ++ [p] ++ [q]) := by
  cases prompts with
  | nil => exact ⟨h.1, .cons_cons hpq (.singleton q)⟩
  | cons prompt rest =>
    have hlast : (prompt :: rest ++ [p]).getLast? = some p := List.getLast?_concat
    refine ⟨h.1, h.2.append (.singleton q) fun x hx y hy => ?_⟩
    obtain rfl : p = x := Option.some.inj (hlast.symm.trans hx)
    obtain rfl : q = y := Option.some.inj hy
    exact hpq

theorem IsPath.extend (h : library.IsPath mentions (prompts ++ [p]))
    (hpq : Relation.TransGen library.Refers p q) :
    ∃ more, library.IsPath mentions (prompts ++ [p] ++ more ++ [q]) := by
  induction hpq with
  | single hpq => exact ⟨[], by simpa using h.concat hpq⟩
  | @tail b c _ hbc ih =>
    obtain ⟨more, hmore⟩ := ih
    exact ⟨more ++ [b], by simpa using hmore.concat hbc⟩

/-- Later prompts on a path can be reached from earlier ones. -/
theorem IsPath.pairwise (h : library.IsPath mentions prompts) :
    prompts.Pairwise (Relation.TransGen library.Refers) := by
  cases prompts with
  | nil => exact .nil
  | cons prompt rest => exact (h.2.imp fun _ _ => .single).pairwise

theorem reachable_iff_isPath :
    library.Reachable mentions q ↔ ∃ prompts, library.IsPath mentions (prompts ++ [q]) := by
  constructor
  · rintro ⟨m, hm, hq⟩
    have hstart : library.IsPath mentions ([] ++ [m.prompt]) := ⟨⟨m, hm, rfl⟩, .singleton _⟩
    rcases Relation.reflTransGen_iff_eq_or_transGen.mp hq with rfl | hq
    · exact ⟨[], hstart⟩
    · obtain ⟨more, hmore⟩ := hstart.extend hq
      exact ⟨_, hmore⟩
  · rintro ⟨_ | ⟨prompt, rest⟩, h⟩
    · obtain ⟨⟨m, hm, rfl⟩, -⟩ := h
      exact ⟨m, hm, .refl⟩
    · have hpairs := h.pairwise
      obtain ⟨⟨m, hm, rfl⟩, -⟩ := h
      rw [List.cons_append, List.pairwise_cons] at hpairs
      exact ⟨m, hm, (hpairs.1 q (by simp)).to_reflTransGen⟩

/-- Where nothing is wrong. The first condition speaks of missing prompts, the
second of cycles, and the third of the depth. -/
theorem no_offence_iff :
    (∀ route above last cause, ¬library.IsOffence depth [] mentions route above last cause) ↔
      (∀ q, library.Reachable mentions q → (library.source? q).isSome) ∧
      (∀ q, library.Reachable mentions q → ¬Relation.TransGen library.Refers q q) ∧
      ∀ prompts, library.IsPath mentions prompts → prompts.length ≤ depth := by
  rw [no_offence_iff_isPath]
  constructor
  · intro h
    refine ⟨fun q hq => ?_, fun q hq hcycle => ?_, fun prompts hpath => ?_⟩
    · obtain ⟨prompts, hpath⟩ := reachable_iff_isPath.mp hq
      exact (offence?_eq_none.mp (h prompts q hpath)).2.2
    · obtain ⟨prompts, hpath⟩ := reachable_iff_isPath.mp hq
      obtain ⟨more, hmore⟩ := hpath.extend hcycle
      exact (offence?_eq_none.mp (h _ q hmore)).1 (by simp)
    · rcases prompts.eq_nil_or_concat with rfl | ⟨above, last, rfl⟩
      · exact Nat.zero_le _
      · rw [List.concat_eq_append] at hpath ⊢
        rw [List.length_append, List.length_singleton]
        exact (offence?_eq_none.mp (h above last hpath)).2.1
  · rintro ⟨hsources, hacyclic, hshort⟩ prompts prompt hpath
    have hreachable := reachable_iff_isPath.mpr ⟨prompts, hpath⟩
    refine offence?_eq_none.mpr ⟨fun hmem => ?_, ?_, hsources _ hreachable⟩
    · have hpairs := List.pairwise_append.mp hpath.pairwise
      exact hacyclic prompt hreachable (hpairs.2.2 prompt hmem prompt (by simp))
    · have hlength := hshort _ hpath
      rwa [List.length_append, List.length_singleton] at hlength

end PromptTemplate.Library
