import PromptTemplate.Proofs.Node.Paired

/-!
# Where the reader of nodes gets to

The reader hands down the constructs that are open, so they are nowhere to be
seen from outside. An observer is told them at each place where a node may
start or a list of nodes stop, and may fail there. The reader gets to a place
inside given constructs if it fails as every observer does who fails there
first (`Document.Reaches`).
-/

namespace PromptTemplate

open PromptTemplate.Parser

/-- The reader of a list of nodes, with an observer at each place that it looks at. -/
def Node.observedList (observe : List Construct → Parser Unit) :
    (budget : Nat) → (enclosing : List Construct) → Parser (List Node)
  | 0, _ => exhausted
  | budget + 1, enclosing => do
    observe enclosing
    listStep (observedList observe budget) (budget + 1) enclosing

def Document.observedParser (observe : List Construct → Parser Unit) : Parser Document :=
  parserWith do Node.observedList observe (← Parser.budget) []

/-- The observer passes all places with more than `count` tokens ahead. -/
def PassesAbove (count : Nat) (observe : List Construct → Parser Unit) : Prop :=
  ∀ enclosing s, count < s.tokens.length → observe enclosing s = .ok ((), s)

/-- The reader of a document looks at this place, with these constructs open there, innermost
first. -/
def Document.Reaches (source : String) (enclosing : List Construct) (s : TokenStream) : Prop :=
  ∀ observe error, PassesAbove s.tokens.length observe → observe enclosing s = .error error →
    (observedParser observe).run (Lexer.document source).stream = .error error

variable {observe observe' : List Construct → Parser Unit} {source : String}
  {enclosing outer : List Construct} {s t : TokenStream} {error : CompileError}

-- ---------------------------------------------------------------------------
-- Observers that are not noticed
-- ---------------------------------------------------------------------------

/-- The list of nodes fails at this place whatever is read of the nodes behind it. -/
def Node.StepFails (enclosing : List Construct) (s : TokenStream) (error : CompileError) : Prop :=
  ∀ nested budget, Node.listStep nested budget enclosing s = .error error

/-- An observer may fail where the list of nodes fails with the same error. -/
theorem Node.observedList_eq (h : ∀ enclosing s, observe' enclosing s = observe enclosing s ∨
      observe enclosing s = .ok ((), s) ∧
        ∃ error, observe' enclosing s = .error error ∧ Node.StepFails enclosing s error) :
    observedList observe' = observedList observe := by
  funext budget
  induction budget with
  | zero => rfl
  | succ budget ih =>
    funext enclosing s
    rw [observedList, observedList, ih, run_bind, run_bind]
    obtain heq | ⟨hpass, error, hfail, hstep⟩ := h enclosing s
    · rw [heq]
    · rw [hpass, hfail]
      exact (hstep _ _).symm

theorem Node.observedList_pass : observedList (fun _ => pure ()) = list := by
  funext budget
  induction budget with
  | zero => rfl
  | succ budget ih =>
    funext enclosing
    rw [observedList, list_succ, ih, pure_bind]

theorem Document.observedParser_pass : observedParser (fun _ => pure ()) = parser := by
  rw [observedParser, Node.observedList_pass, parser_eq]
  rfl

-- ---------------------------------------------------------------------------
-- Places that are reached
-- ---------------------------------------------------------------------------

namespace Document

/-- The start of a document without a section, outside of all constructs. -/
theorem reaches_start (h : (Lexer.document source).stream.Plain) :
    Reaches source [] (Lexer.document source).stream := by
  intro observe error _ hfail
  have hlist (budget : Nat) :
      Node.observedList observe (budget + 1) [] (Lexer.document source).stream = .error error := by
    rw [Node.observedList, run_bind, hfail]
  have hread : (Parser.budget >>= fun budget => Node.observedList observe budget [])
      (Lexer.document source).stream = .error error := hlist _
  rw [observedParser, StateT.run, parserWith_of_plain h, run_bind, hread]

/-- The open constructs are told by the place. -/
theorem Reaches.unique (h : Reaches source enclosing s) (h' : Reaches source outer s) :
    outer = enclosing := by
  by_contra hne
  let observe (stack : List Construct) : Parser Unit := fun t =>
    if s.tokens.length < t.tokens.length then .ok ((), t)
    else .error ⟨if stack = enclosing then .elseifSpelling else .strayBrace, .empty .start⟩
  have hpass : PassesAbove s.tokens.length observe := fun _ _ hlt => if_pos hlt
  have hfail (stack : List Construct) : observe stack s =
      .error ⟨if stack = enclosing then .elseifSpelling else .strayBrace, .empty .start⟩ :=
    if_neg (Nat.lt_irrefl _)
  have hfirst := h observe _ hpass (hfail enclosing)
  rw [h' observe _ hpass (hfail outer)] at hfirst
  simp [hne] at hfirst

section
variable (h : Reaches source enclosing s) (hstep : Node.StepFails enclosing s error)
include h hstep

/-- Where the list of nodes fails the document does. -/
theorem Reaches.parse_error : parseDocument source = .error error := by
  classical
  let observe (stack : List Construct) : Parser Unit := fun t =>
    if stack = enclosing ∧ t = s then .error error else .ok ((), t)
  have hpass : PassesAbove s.tokens.length observe := by
    intro stack t hlt
    refine if_neg fun hsame => ?_
    rw [hsame.2] at hlt
    exact absurd hlt (Nat.lt_irrefl _)
  have heq : Node.observedList observe = Node.observedList fun _ => pure () := by
    refine Node.observedList_eq fun stack t => ?_
    by_cases hsame : stack = enclosing ∧ t = s
    · exact .inr ⟨rfl, error, if_pos hsame, hsame.1 ▸ hsame.2 ▸ hstep⟩
    · exact .inl (if_neg hsame)
  have hrun := h observe error hpass (if_pos ⟨rfl, rfl⟩)
  rw [observedParser, heq, ← observedParser, observedParser_pass] at hrun
  rw [parseDocument, hrun]
  rfl

/-- It gets to no later place. -/
theorem Reaches.not_later (hlt : t.tokens.length < s.tokens.length) : ¬ Reaches source outer t := by
  classical
  intro hlater
  obtain ⟨other, hother⟩ : ∃ other : CompileError, other ≠ error := by
    by_cases hcause : error.cause = .strayBrace
    · exact ⟨⟨.elseifSpelling, .empty .start⟩, fun heq => by rw [← heq] at hcause; cases hcause⟩
    · exact ⟨⟨.strayBrace, .empty .start⟩, fun heq => hcause (heq ▸ rfl)⟩
  let late (_ : List Construct) : Parser Unit := fun u =>
    if t.tokens.length < u.tokens.length then .ok ((), u) else .error other
  let both (stack : List Construct) : Parser Unit := fun u =>
    if stack = enclosing ∧ u = s then .error error else late stack u
  have heq : Node.observedList both = Node.observedList late := by
    refine Node.observedList_eq fun stack u => ?_
    by_cases hsame : stack = enclosing ∧ u = s
    · refine .inr ⟨?_, error, if_pos hsame, hsame.1 ▸ hsame.2 ▸ hstep⟩
      rw [hsame.2]
      exact if_pos hlt
    · exact .inl (if_neg hsame)
  have hpass : PassesAbove s.tokens.length both := by
    intro stack u hlonger
    have hnot : ¬ (stack = enclosing ∧ u = s) := fun hsame => by
      rw [hsame.2] at hlonger
      exact Nat.lt_irrefl _ hlonger
    exact (if_neg hnot).trans (if_pos (Nat.lt_trans hlt hlonger))
  have hfirst := h both error hpass (if_pos ⟨rfl, rfl⟩)
  have hsecond := hlater late other (fun _ _ hlonger => if_pos hlonger) (if_neg (Nat.lt_irrefl _))
  rw [observedParser, heq, ← observedParser, hsecond] at hfirst
  exact hother (Except.error.inj hfirst)

end

end Document

end PromptTemplate
