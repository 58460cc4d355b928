import PromptTemplate.CompileError
import PromptTemplate.Proofs.Syntax.MapSpans

/-!
# Actions

Evaluation and the walk through a document are actions: they change a state
and may fail, and a failure keeps what was done before it. An action is run
by applying it to a state.

Two actions are paired if from related states they have the same outcome, or
fail with related errors, and leave related states. Sequencing keeps this: what
the second part is given is the same in both runs.
-/

namespace PromptTemplate

abbrev Action (σ α : Type) := ExceptT CompileError (StateM σ) α

/-- What running an action gives. Equations between outcomes are written at
this type, the one that application has, for the lemmas below to be found. -/
abbrev Outcome (σ α : Type) := Id (Except CompileError α × σ)

namespace Outcome

variable {σ α : Type} {a b : α} {e : CompileError} {s t : σ}

@[simp] theorem ok_eq_ok : @Eq (Outcome σ α) (.ok a, s) (.ok b, t) ↔ a = b ∧ s = t := by
  show @Eq (Except CompileError α × σ) _ _ ↔ _
  simp

@[simp] theorem error_eq_ok : @Eq (Outcome σ α) (.error e, s) (.ok b, t) ↔ False := by
  show @Eq (Except CompileError α × σ) _ _ ↔ _
  simp

end Outcome

namespace Action

variable {σ α β : Type}

theorem run_bind (m : Action σ α) (f : α → Action σ β) (s : σ) :
    (m >>= f) s = match m s with
      | (.ok a, t) => f a t
      | (.error error, t) => (.error error, t) := by
  simp only [bind, ExceptT.bind, ExceptT.mk, StateT.bind, ExceptT.bindCont]
  cases m s with
  | mk result t => cases result <;> rfl

@[simp] theorem run_pure (a : α) (s : σ) : (pure a : Action σ α) s = (.ok a, s) := rfl

@[simp] theorem run_get (s : σ) : (get : Action σ σ) s = (.ok s, s) := rfl

@[simp] theorem run_set (t s : σ) : (set t : Action σ PUnit) s = (.ok ⟨⟩, t) := rfl

/-- A sequence succeeds if its parts do, one from where the other ended. -/
theorem bind_ok {m : Action σ α} {f : α → Action σ β} {s t : σ} {b : β} :
    (m >>= f) s = (.ok b, t) ↔ ∃ a u, m s = (.ok a, u) ∧ f a u = (.ok b, t) := by
  rw [run_bind]
  cases m s with
  | mk result u =>
    cases result with
    | ok a => simp [and_assoc]
    | error => simp

theorem pure_ok {s t : σ} {a b : α} :
    (pure a : Action σ α) s = (.ok b, t) ↔ a = b ∧ s = t := by
  simp

/-- A value that the action may give. -/
def Yields (m : Action σ α) (a : α) : Prop := ∃ s t, m s = (.ok a, t)

/-- A change of the state that comes to the same before and after the parts of
a sequence comes to the same before and after it. -/
theorem bind_commutes {g : σ → σ} {m : Action σ α} {f : α → Action σ β}
    (hm : ∀ s, m (g s) = ((m s).1, g (m s).2))
    (hf : ∀ a s, f a (g s) = ((f a s).1, g (f a s).2)) (s : σ) :
    (m >>= f) (g s) = (((m >>= f) s).1, g ((m >>= f) s).2) := by
  rw [run_bind, run_bind, hm s]
  cases m s with
  | mk result t =>
    cases result with
    | ok a => exact hf a t
    | error => rfl

/-- A transitive relation between the states before and after holds of a
sequence if it holds of its parts. -/
theorem relates_bind {R : σ → σ → Prop} (htrans : ∀ {a b c}, R a b → R b c → R a c)
    {m : Action σ α} {f : α → Action σ β} {s : σ} (hm : R s (m s).2)
    (hf : ∀ a t, m s = (.ok a, t) → R t (f a t).2) : R s ((m >>= f) s).2 := by
  rw [run_bind]
  cases he : m s with
  | mk result t =>
    rw [he] at hm
    cases result with
    | ok a => exact htrans hm (hf a t he)
    | error => exact hm

end Action

-- ---------------------------------------------------------------------------
-- Two runs
-- ---------------------------------------------------------------------------

namespace Action

variable {σ α β : Type}

/-- Where things are in the text of the second run, and the errors that are taken for the same. -/
structure Pairing where
  span : Span → Span
  Errors : CompileError → CompileError → Prop
  errors : ∀ cause place, Errors ⟨cause, place⟩ ⟨cause, span place⟩

inductive Pairing.Outcomes (T : Pairing) : Except CompileError α → Except CompileError α → Prop
  | ok (a) : Outcomes T (.ok a) (.ok a)
  | error {e e'} (h : T.Errors e e') : Outcomes T (.error e) (.error e')

theorem Pairing.Outcomes.map {T : Pairing} {r r' : Except CompileError α} (h : T.Outcomes r r')
    (f : α → β) : T.Outcomes (r.map f) (r'.map f) := by
  cases h with
  | ok a => exact .ok (f a)
  | error h => exact .error h

/-- Errors are the same ones, at the places that `f` gives. -/
def Pairing.moving (f : Span → Span) : Pairing where
  span := f
  Errors e e' := e' = e.mapSpan f
  errors _ _ := rfl

theorem Pairing.moving_span (f : Span → Span) : (Pairing.moving f).span = f := rfl

theorem Pairing.Outcomes.eq_mapError {f : Span → Span} {r r' : Except CompileError α}
    (h : (Pairing.moving f).Outcomes r r') : r' = r.mapError (CompileError.mapSpan f) := by
  cases h with
  | ok a => rfl
  | error h =>
    obtain rfl := h
    rfl

theorem Pairing.Outcomes.eq_of_id {r r' : Except CompileError α}
    (h : (Pairing.moving id).Outcomes r r') : r' = r := by
  rw [h.eq_mapError]
  cases r <;> rfl

variable {T : Pairing} {R : σ → σ → Prop}

/-- The second action does from a related state what the first one does. -/
def Paired (T : Pairing) (R : σ → σ → Prop) (m m' : Action σ α) : Prop :=
  ∀ s s', R s s' → T.Outcomes (m s).1 (m' s').1 ∧ R (m s).2 (m' s').2

namespace Paired

/-- What comes second has to be paired for the values that the first part may
give. -/
theorem bind_yields {m m' : Action σ α} {k k' : α → Action σ β} (hm : Paired T R m m')
    (hk : ∀ a, m.Yields a → Paired T R (k a) (k' a)) : Paired T R (m >>= k) (m' >>= k') := by
  intro s s' hs
  obtain ⟨houtcome, hafter⟩ := hm s s' hs
  rw [run_bind, run_bind]
  cases hrun : m s with
  | mk result t =>
    cases hrun' : m' s' with
    | mk result' t' =>
      rw [hrun, hrun'] at houtcome hafter
      dsimp only at houtcome hafter
      cases houtcome with
      | ok a => exact hk a ⟨s, t, hrun⟩ t t' hafter
      | error h => exact ⟨.error h, hafter⟩

theorem bind {m m' : Action σ α} {k k' : α → Action σ β} (hm : Paired T R m m')
    (hk : ∀ a, Paired T R (k a) (k' a)) : Paired T R (m >>= k) (m' >>= k') :=
  hm.bind_yields fun a _ => hk a

theorem pure (a : α) : Paired T R (pure a) (pure a) := fun _ _ hs => ⟨.ok a, hs⟩

theorem get_bind {k k' : σ → Action σ β} (hk : ∀ s s', R s s' → Paired T R (k s) (k' s')) :
    Paired T R (get >>= k) (get >>= k') := by
  intro s s' hs
  rw [run_bind, run_bind, run_get, run_get]
  exact hk s s' hs s s' hs

theorem throw_related {e e' : CompileError} (h : T.Errors e e') :
    Paired T R (throw e : Action σ α) (throw e') :=
  fun _ _ hs => ⟨.error h, hs⟩

theorem throw (cause : Cause) (span : Span) :
    Paired T R (throw ⟨cause, span⟩ : Action σ α) (throw ⟨cause, T.span span⟩) :=
  throw_related (T.errors cause span)

end Paired

end Action

-- ---------------------------------------------------------------------------
-- Checked actions
-- ---------------------------------------------------------------------------

/-- An action that stops for good at a check that fails. -/
abbrev Checked (σ α : Type) := ExceptT CompileError (StateT σ Option) α

theorem Checked.run_bind {σ α β : Type} (m : Checked σ α) (f : α → Checked σ β) (s : σ) :
    (m >>= f) s = (m s).bind fun
      | (.ok a, t) => f a t
      | (.error error, t) => some (.error error, t) := by
  simp only [bind, ExceptT.bind, ExceptT.mk, StateT.bind, ExceptT.bindCont]
  cases m s with
  | none => rfl
  | some outcome =>
    obtain ⟨result, t⟩ := outcome
    cases result <;> rfl

end PromptTemplate
