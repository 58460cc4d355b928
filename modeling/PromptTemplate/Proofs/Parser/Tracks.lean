import PromptTemplate.Proofs.Parser.Reads
import PromptTemplate.Proofs.Syntax.Items

/-!
# Parsers of items

A parser `Tracks` the items it is given if it takes whole ones off as far as
the stack of open constructs allows, and fails exactly where it does not.
-/

namespace PromptTemplate

open PromptTemplate.Parser

namespace Item

/-- Nothing nests that goes on from the open constructs with these items. -/
def Stuck (stack : List Construct) : List Item → Prop
  | [] => stack ≠ []
  | item :: _ => item.step stack = none

/-- The items close or branch the innermost construct; without one, there are none. -/
def Closes (stack : List Construct) : List Item → Prop
  | [] => stack = []
  | item :: _ => item.isInner ∧ (item.step stack).isSome

def size (items : List Item) : Nat := (items.flatMap words).length

@[simp] theorem size_cons (item : Item) (items : List Item) :
    size (item :: items) = item.words.length + size items := by
  simp [size]

@[simp] theorem size_append (first second : List Item) :
    size (first ++ second) = size first + size second := by
  simp [size]

end Item

-- ---------------------------------------------------------------------------
-- Streams
-- ---------------------------------------------------------------------------

namespace TokenStream

/-- The tokens left are words of the given kinds, and then those of the items. -/
def Holds (kinds : List TokenKind) (items : List Item) (s : TokenStream) : Prop :=
  s.tokens.map Token.kind = kinds ++ items.flatMap Item.words ∧ ∃ position, s.stop = .ok position

/-- Where the next token starts, or the text ends. -/
def front (s : TokenStream) : Nat :=
  match s.tokens, s.stop with
  | token :: _, _ => token.span.start
  | [], .ok position => position.offset
  | [], .error error => error.location.start

structure Later (s t : TokenStream) : Prop where
  suffix : t.tokens <:+ s.tokens
  stop : t.stop = s.stop

theorem Later.refl (s : TokenStream) : Later s s := ⟨List.suffix_refl _, rfl⟩

theorem Later.trans {s t u : TokenStream} (h : Later s t) (h' : Later t u) : Later s u :=
  ⟨h'.suffix.trans h.suffix, h'.stop.trans h.stop⟩

theorem holds_cons {item : Item} {items : List Item} {s : TokenStream} :
    Holds [] (item :: items) s ↔ Holds item.words items s := by
  simp [Holds]

end TokenStream

open TokenStream

namespace Parser

/-- Some of the items have been taken, and the stack has followed them. -/
structure Moves (s : TokenStream) (stack : List Construct) (items done rest : List Item)
    (stack' : List Construct) (t : TokenStream) : Prop where
  items : items = done ++ rest
  run : Item.run done stack = some stack'
  holds : Holds [] rest t
  later : Later s t

theorem Moves.refl {s : TokenStream} {stack : List Construct} {items : List Item}
    (h : Holds [] items s) : Moves s stack items [] items stack s :=
  ⟨rfl, rfl, h, .refl s⟩

theorem Moves.trans {s t u : TokenStream} {stack stack' stack'' : List Construct}
    {items done rest done' rest' : List Item} (h : Moves s stack items done rest stack' t)
    (h' : Moves t stack' rest done' rest' stack'' u) :
    Moves s stack items (done ++ done') rest' stack'' u where
  items := by rw [h.items, h'.items, List.append_assoc]
  run := by rw [Item.run_append, h.run, Option.bind_some, h'.run]
  holds := h'.holds
  later := h.later.trans h'.later

theorem Moves.enter {s t u : TokenStream} {stack stack' stack'' : List Construct} {item : Item}
    {items done rest : List Item} (hstep : item.step stack = some stack') (hlater : Later s t)
    (h : Moves t stack' items done rest stack'' u) :
    Moves s stack (item :: items) (item :: done) rest stack'' u where
  items := by rw [h.items, List.cons_append]
  run := by rw [Item.run_cons, hstep, Option.bind_some, h.run]
  holds := h.holds
  later := hlater.trans h.later

-- ---------------------------------------------------------------------------
-- Tracking
-- ---------------------------------------------------------------------------

section
variable {α β : Type}

/-- The result is either a value with what was taken for it, or an error where the stack is stuck. -/
def Follows (s : TokenStream) (stack : List Construct) (items : List Item)
    (Q : α → List Item → List Construct → List Item → Prop) :
    Except CompileError (α × TokenStream) → Prop
  | .ok (a, t) => ∃ done rest stack', Moves s stack items done rest stack' t ∧ Q a done stack' rest
  | .error error => ∃ done rest stack' t, Moves s stack items done rest stack' t ∧
      Item.Stuck stack' rest ∧ error.location.start = t.front

def Tracks (p : Parser α) (kinds : List TokenKind) (stack : List Construct) (items : List Item)
    (Q : α → List Item → List Construct → List Item → Prop) : Prop :=
  ∀ s, Holds kinds items s → Follows s stack items Q (p s)

namespace Tracks

variable {stack : List Construct} {items : List Item} {kinds more : List TokenKind}
  {Q R : α → List Item → List Construct → List Item → Prop}

theorem mono {p : Parser α} (h : Tracks p kinds stack items Q)
    (himp : ∀ a done stack' rest, Q a done stack' rest → R a done stack' rest) :
    Tracks p kinds stack items R := by
  intro s hs
  have hp := h s hs
  generalize p s = result at hp ⊢
  cases result with
  | error error => exact hp
  | ok found =>
    obtain ⟨done, rest, stack', hmoves, hQ⟩ := hp
    exact ⟨done, rest, stack', hmoves, himp _ _ _ _ hQ⟩

theorem pure {a : α} (h : Q a [] stack items) : Tracks (Pure.pure a) [] stack items Q := by
  intro s hs
  exact ⟨[], items, stack, .refl hs, h⟩

theorem bind {p : Parser α} {f : α → Parser β} {R : β → List Item → List Construct → List Item → Prop}
    (hp : Tracks p kinds stack items Q)
    (hf : ∀ a done stack' rest, items = done ++ rest → Q a done stack' rest →
      Tracks (f a) [] stack' rest fun b done' => R b (done ++ done')) :
    Tracks (p >>= f) kinds stack items R := by
  intro s hs
  have hp := hp s hs
  rw [run_bind]
  generalize p s = result at hp ⊢
  cases result with
  | error error => exact hp
  | ok found =>
    obtain ⟨a, t⟩ := found
    obtain ⟨done, rest, stack', hmoves, hQ⟩ := hp
    have hf := hf a done stack' rest hmoves.items hQ t hmoves.holds
    dsimp only
    generalize f a t = result at hf ⊢
    cases result with
    | error error =>
      obtain ⟨done', rest', stack'', u, hmoves', hstuck⟩ := hf
      exact ⟨_, _, _, _, hmoves.trans hmoves', hstuck⟩
    | ok found =>
      obtain ⟨done', rest', stack'', hmoves', hR⟩ := hf
      exact ⟨_, _, _, hmoves.trans hmoves', hR⟩

/-- What takes words inside an item. -/
theorem read {p : Parser α} {f : α → Parser β} {ahead : Option TokenKind → Prop} {P : α → Prop}
    {R : β → List Item → List Construct → List Item → Prop} (hp : Reads p kinds ahead P)
    (hahead : ahead (more ++ items.flatMap Item.words).head?)
    (hf : ∀ a, P a → Tracks (f a) more stack items R) :
    Tracks (p >>= f) (kinds ++ more) stack items R := by
  rintro ⟨tokens, stop⟩ ⟨hs, position, hstop⟩
  dsimp only at hs hstop
  rw [List.append_assoc] at hs
  obtain ⟨first, second, rfl, hfirst, hsecond⟩ := List.map_eq_append_iff.mp hs
  have hrest : Ahead ahead ⟨second, stop⟩ := by
    cases second with
    | nil => exact ⟨by rw [← hsecond] at hahead; exact hahead, position, hstop⟩
    | cons token second => rw [← hsecond] at hahead; exact hahead
  obtain ⟨a, ha, hrun⟩ := hp first second stop hfirst hrest
  rw [bind_of_ok hrun]
  have hf := hf a ha ⟨second, stop⟩ ⟨hsecond, position, hstop⟩
  have hlater : Later ⟨first ++ second, stop⟩ ⟨second, stop⟩ := ⟨List.suffix_append _ _, rfl⟩
  generalize f a ⟨second, stop⟩ = result at hf ⊢
  cases result with
  | error error =>
    obtain ⟨done, rest, stack', u, hmoves, hstuck⟩ := hf
    exact ⟨done, rest, stack', u, { hmoves with later := hlater.trans hmoves.later }, hstuck⟩
  | ok found =>
    obtain ⟨done, rest, stack', hmoves, hR⟩ := hf
    exact ⟨done, rest, stack', { hmoves with later := hlater.trans hmoves.later }, hR⟩

theorem step {p : Parser α} {f : α → Parser β} {kind : TokenKind} {P : α → Prop}
    {R : β → List Item → List Construct → List Item → Prop}
    (hp : Reads p [kind] (fun _ => True) P) (hf : ∀ a, P a → Tracks (f a) more stack items R) :
    Tracks (p >>= f) (kind :: more) stack items R :=
  read hp trivial hf

/-- The item in front may stand where it does; its words are next. -/
theorem enter {p : Parser α} {item : Item} {stack' : List Construct}
    (hstep : item.step stack = some stack')
    (h : Tracks p item.words stack' items fun a done => Q a (item :: done)) :
    Tracks p [] stack (item :: items) Q := by
  intro s hs
  have hp := h s (holds_cons.mp hs)
  generalize p s = result at hp ⊢
  cases result with
  | error error =>
    obtain ⟨done, rest, stack'', t, hmoves, hstuck⟩ := hp
    exact ⟨_, _, _, _, hmoves.enter hstep (.refl s), hstuck⟩
  | ok found =>
    obtain ⟨done, rest, stack'', hmoves, hQ⟩ := hp
    exact ⟨_, _, _, hmoves.enter hstep (.refl s), hQ⟩

end Tracks

end

end Parser

end PromptTemplate
