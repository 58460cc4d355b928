import PromptTemplate.Node.Parser
import PromptTemplate.Proofs.Syntax.Erase
import PromptTemplate.Proofs.Syntax.Words

/-!
# The items of a document

A document is a row of items: texts, mustaches, and the openings, branches and
closings of blocks and tags. `Derives` is the grammar that says which rows
nest, and what tree they make. A stack of open constructs decides the same one
item after the other (`Item.run`).
-/

namespace PromptTemplate

inductive Item where
  | text (value : String)
  | mustache (value : Expr)
  | ifOpen (condition : Expr)
  | elseIf (condition : Expr)
  | otherwise
  | ifClose
  | eachOpen (iterable : Expr) (item : Pattern) (index : Option Ident)
  | eachClose
  | tagOpen (name : String) (attributes : List Attribute)
  | tagSelf (name : String) (attributes : List Attribute)
  | tagClose (name : String)

-- ---------------------------------------------------------------------------
-- Words
-- ---------------------------------------------------------------------------

def AttributeValue.words : AttributeValue → List TokenKind
  | .flag => []
  | .literal text => [.symbol .assign, .attributeValue text]
  | .expression value =>
    .symbol .assign :: .mustacheOpen :: value.words false ++ [.mustacheClose]

def Attribute.words (a : Attribute) : List TokenKind := .attributeName a.name :: a.value.words

def Ident.words : Option Ident → List TokenKind
  | none => []
  | some index => [.symbol .comma, .identifier index.name]

def Item.words : Item → List TokenKind
  | text value => [.text value]
  | mustache value => .mustacheOpen :: value.words false ++ [.mustacheClose]
  | ifOpen condition => .blockOpen "if" :: condition.words false ++ [.mustacheClose]
  | elseIf condition =>
    .blockBranch :: .identifier "else" :: .identifier "if" :: condition.words false ++
      [.mustacheClose]
  | otherwise => [.blockBranch, .identifier "else", .mustacheClose]
  | ifClose => [.blockClose "if", .mustacheClose]
  | eachOpen iterable item index =>
    .blockOpen "each" :: iterable.words false ++ .identifier "as" :: item.words ++
      Ident.words index ++ [.mustacheClose]
  | eachClose => [.blockClose "each", .mustacheClose]
  | tagOpen name attributes => .tagOpen name :: attributes.flatMap Attribute.words ++ [.tagEnd]
  | tagSelf name attributes => .tagOpen name :: attributes.flatMap Attribute.words ++ [.tagSelfClose]
  | tagClose name => [.tagClose name]

def IsTagName (name : String) : Prop :=
  ∃ first rest, name.toList = first :: rest ∧ first.isAlpha ∧ ∀ c ∈ rest, Text.isTagNamePart c

def IsAttributeName (name : String) : Prop :=
  ∃ first rest, name.toList = first :: rest ∧ Text.isAttributeStart first ∧
    ∀ c ∈ rest, Text.isTagNamePart c

/-- Literal values fit in one of the quotes. -/
def AttributeValue.WellFormed : AttributeValue → Prop
  | .flag => True
  | .literal text => '"' ∉ text.toList ∨ '\'' ∉ text.toList
  | .expression value => value.WellFormed

def AttributeValue.isExpression : AttributeValue → Bool
  | .expression _ => true
  | _ => false

@[simp] theorem AttributeValue.isExpression_erase (value : AttributeValue) :
    value.erase.isExpression = value.isExpression := by
  cases value <;> rfl

structure Tag.Allowed (name : String) (attributes : List Attribute) : Prop where
  tag : IsTagName name
  distinct : (attributes.map Attribute.name).Nodup
  each : ∀ a ∈ attributes, IsAttributeName a.name ∧ a.value.WellFormed
  literal : ∀ a ∈ attributes, a.name ∈ (TagKind.ofName name).literalAttributes →
    a.value.isExpression = false

def Item.WellFormed : Item → Prop
  | text value => value ≠ ""
  | mustache value => value.WellFormed
  | ifOpen condition => condition.WellFormed
  | elseIf condition => condition.WellFormed
  | eachOpen iterable item index =>
    iterable.WellFormed ∧ item.WellFormed ∧ ∀ i ∈ index, IsWord i.name
  | tagOpen name attributes => Tag.Allowed name attributes
  | tagSelf name attributes => Tag.Allowed name attributes
  | tagClose name => IsTagName name
  | otherwise | ifClose | eachClose => True

theorem Item.words_length_pos (item : Item) : 0 < item.words.length := by
  cases item <;> exact Nat.zero_lt_succ _

def Item.isText : Item → Bool
  | text _ => true
  | _ => false

/-- No text comes right after another one. -/
def Item.Separate : List Item → Prop
  | [] => True
  | item :: rest =>
    (item.isText → ∀ second ∈ rest.head?, second.isText = false) ∧ Item.Separate rest

theorem Item.Separate.append_right {done rest : List Item} (h : Separate (done ++ rest)) :
    Separate rest := by
  induction done with
  | nil => exact h
  | cons item done ih => exact ih h.2

-- ---------------------------------------------------------------------------
-- The grammar
-- ---------------------------------------------------------------------------

mutual

/-- The items nest, and this is their tree. -/
inductive Derives : List Item → List Node → Prop
  | nil : Derives [] []
  | text {value items nodes} (rest : Derives items nodes) :
    Derives (.text value :: items) (.text .nowhere value :: nodes)
  | mustache {value items nodes} (rest : Derives items nodes) :
    Derives (.mustache value :: items) (.mustache .nowhere value.erase :: nodes)
  | ifBlock {condition body branches items nodes alternates more}
    (consequent : Derives body nodes) (others : DerivesAlternates branches alternates)
    (rest : Derives items more) :
    Derives (.ifOpen condition :: (body ++ (branches ++ .ifClose :: items)))
      (.ifBlock .nowhere condition.erase nodes alternates :: more)
  | eachBlock {iterable item index body branch items nodes fallback more}
    (each : Derives body nodes) (other : DerivesFallback branch fallback)
    (rest : Derives items more) :
    Derives (.eachOpen iterable item index :: (body ++ (branch ++ .eachClose :: items)))
      (.eachBlock .nowhere iterable.erase item.erase (index.map Ident.erase) nodes fallback :: more)
  | tag {name attributes body items children more}
    (inner : Derives body children) (rest : Derives items more) :
    Derives (.tagOpen name attributes :: (body ++ .tagClose name :: items))
      (.tag (Tag.erase ⟨.nowhere, .ofName name, name, attributes⟩) children :: more)
  | tagSelf {name attributes items more} (rest : Derives items more) :
    Derives (.tagSelf name attributes :: items)
      (.tag (Tag.erase ⟨.nowhere, .ofName name, name, attributes⟩) [] :: more)

/-- There is at most one branch without a condition, the last one. -/
inductive DerivesAlternates : List Item → List Alternate → Prop
  | nil : DerivesAlternates [] []
  | elseIf {condition body branches nodes alternates} (consequent : Derives body nodes)
    (others : DerivesAlternates branches alternates) :
    DerivesAlternates (.elseIf condition :: (body ++ branches))
      (.elseIf condition.erase nodes :: alternates)
  | otherwise {body nodes} (last : Derives body nodes) :
    DerivesAlternates (.otherwise :: body) [.otherwise nodes]

inductive DerivesFallback : List Item → Option (List Node) → Prop
  | none : DerivesFallback [] none
  | some {body nodes} (last : Derives body nodes) : DerivesFallback (.otherwise :: body) (some nodes)

end

-- ---------------------------------------------------------------------------
-- The stack
-- ---------------------------------------------------------------------------

namespace Item

/-- The open constructs after an item, innermost first; none if it may not stand there. -/
def step : Item → List Construct → Option (List Construct)
  | text _, stack => some stack
  | mustache _, stack => some stack
  | tagSelf _ _, stack => some stack
  | ifOpen _, stack => some (.ifBlock false :: stack)
  | eachOpen _ _ _, stack => some (.eachBlock false :: stack)
  | tagOpen name _, stack => some (.tag name :: stack)
  | elseIf _, .ifBlock false :: outer => some (.ifBlock false :: outer)
  | otherwise, .ifBlock false :: outer => some (.ifBlock true :: outer)
  | otherwise, .eachBlock false :: outer => some (.eachBlock true :: outer)
  | ifClose, .ifBlock _ :: outer => some outer
  | eachClose, .eachBlock _ :: outer => some outer
  | tagClose name, .tag opened :: outer => if name = opened then some outer else none
  | _, _ => none

def run (items : List Item) (stack : List Construct) : Option (List Construct) :=
  items.foldlM (fun stack item => item.step stack) stack

@[simp] theorem run_nil (stack : List Construct) : run [] stack = some stack := rfl

@[simp] theorem run_cons (item : Item) (items : List Item) (stack : List Construct) :
    run (item :: items) stack = (item.step stack).bind (run items) := rfl

@[simp] theorem run_append (first second : List Item) (stack : List Construct) :
    run (first ++ second) stack = (run first stack).bind (run second) := by
  simp [run, List.foldlM_append]
  rfl

end Item

namespace Construct

theorem placeElseIf_ok (condition : Expr) (enclosing : List Construct) :
    placeElseIf enclosing = .ok () ↔
      ((Item.elseIf condition).step enclosing).isSome := by
  cases enclosing with
  | nil => simp [placeElseIf, Item.step]
  | cons inner outer =>
    rcases inner with (_ | _) | hasElse | name
    · simp [placeElseIf, Item.step]
    all_goals
      simp only [placeElseIf, Item.step]
      split <;> simp

theorem placeElse_ok (enclosing : List Construct) :
    placeElse enclosing = .ok () ↔ (Item.otherwise.step enclosing).isSome := by
  cases enclosing with
  | nil => simp [placeElse, Item.step]
  | cons inner outer =>
    rcases inner with (_ | _) | (_ | _) | name
    · simp [placeElse, Item.step]
    · simp only [placeElse, Item.step]
      split <;> simp
    · simp [placeElse, Item.step]
    all_goals
      simp only [placeElse, Item.step]
      split <;> simp

end Construct

mutual

theorem Derives.run {items : List Item} {nodes : List Node} :
    Derives items nodes → ∀ stack, Item.run items stack = some stack
  | .nil, _ => rfl
  | .text rest, stack => by simp [Item.step, rest.run]
  | .mustache rest, stack => by simp [Item.step, rest.run]
  | .ifBlock consequent others rest, stack => by
    obtain ⟨hasElse, hothers⟩ := others.run stack
    simp [Item.step, consequent.run, hothers, rest.run]
  | .eachBlock each other rest, stack => by
    obtain ⟨hasElse, hother⟩ := other.run stack
    simp [Item.step, each.run, hother, rest.run]
  | .tag inner rest, stack => by simp [Item.step, inner.run, rest.run]
  | .tagSelf rest, stack => by simp [Item.step, rest.run]

theorem DerivesAlternates.run {items : List Item} {alternates : List Alternate} :
    DerivesAlternates items alternates → ∀ stack, ∃ hasElse,
      Item.run items (.ifBlock false :: stack) = some (.ifBlock hasElse :: stack)
  | .nil, _ => ⟨false, rfl⟩
  | .elseIf consequent others, stack => by
    obtain ⟨hasElse, hothers⟩ := others.run stack
    exact ⟨hasElse, by simp [Item.step, consequent.run, hothers]⟩
  | .otherwise last, _ => ⟨true, by simp [Item.step, last.run]⟩

theorem DerivesFallback.run {items : List Item} {fallback : Option (List Node)} :
    DerivesFallback items fallback → ∀ stack, ∃ hasElse,
      Item.run items (.eachBlock false :: stack) = some (.eachBlock hasElse :: stack)
  | .none, _ => ⟨false, rfl⟩
  | .some last, _ => ⟨true, by simp [Item.step, last.run]⟩

end

-- ---------------------------------------------------------------------------
-- One tree
-- ---------------------------------------------------------------------------

namespace Item

/-- No tree starts with such an item. -/
def isInner : Item → Bool
  | elseIf _ | otherwise | ifClose | eachClose | tagClose _ => true
  | _ => false

/-- What comes after a row of items belongs to something around it. -/
def Outside (items : List Item) : Prop := ∀ item ∈ items.head?, item.isInner

theorem outside_cons {item : Item} {items : List Item} (h : item.isInner) :
    Outside (item :: items) := by
  simpa [Outside] using h

end Item

theorem DerivesAlternates.outside {branches items : List Item} {alternates : List Alternate}
    (h : DerivesAlternates branches alternates) :
    Item.Outside (branches ++ .ifClose :: items) := by
  cases h <;> exact Item.outside_cons rfl

theorem DerivesFallback.outside {branch items : List Item} {fallback : Option (List Node)}
    (h : DerivesFallback branch fallback) : Item.Outside (branch ++ .eachClose :: items) := by
  cases h <;> exact Item.outside_cons rfl

theorem Derives.not_inner {item : Item} {items : List Item} {nodes : List Node}
    (h : Derives (item :: items) nodes) : item.isInner = false := by
  cases h <;> rfl

open Item in
mutual

/-- Rows that go on alike make the same tree, up to where something around them does. -/
theorem Derives.unique {a b x y : List Item} {m n : List Node} :
    Derives a m → Derives b n → Outside x → Outside y → a ++ x = b ++ y → m = n ∧ x = y
  | .nil, hb, hx, _, heq => by
    cases b with
    | nil => cases hb; exact ⟨rfl, heq⟩
    | cons item b =>
      -- the other row goes on with what belongs to something around this one
      have hinner := hb.not_inner
      rw [List.nil_append] at heq
      subst heq
      rw [hx item (by simp)] at hinner
      cases hinner
  | .text rest, hb, hx, hy, heq => by
    cases hb with
    | nil => subst heq; cases hy _ rfl
    | text rest' =>
      simp only [List.cons_append, List.cons.injEq, text.injEq] at heq
      obtain ⟨rfl, heq⟩ := heq
      obtain ⟨rfl, hxy⟩ := rest.unique rest' hx hy heq
      exact ⟨rfl, hxy⟩
    | _ => simp at heq
  | .mustache rest, hb, hx, hy, heq => by
    cases hb with
    | nil => subst heq; cases hy _ rfl
    | mustache rest' =>
      simp only [List.cons_append, List.cons.injEq, mustache.injEq] at heq
      obtain ⟨rfl, heq⟩ := heq
      obtain ⟨rfl, hxy⟩ := rest.unique rest' hx hy heq
      exact ⟨rfl, hxy⟩
    | _ => simp at heq
  | .ifBlock consequent others rest, hb, hx, hy, heq => by
    cases hb with
    | nil => subst heq; cases hy _ rfl
    | ifBlock consequent' others' rest' =>
      simp only [List.cons_append, List.append_assoc, List.cons.injEq, ifOpen.injEq] at heq
      obtain ⟨rfl, heq⟩ := heq
      obtain ⟨rfl, heq⟩ := consequent.unique consequent' others.outside others'.outside heq
      obtain ⟨rfl, heq⟩ := others.unique others' heq
      obtain ⟨rfl, hxy⟩ := rest.unique rest' hx hy heq
      exact ⟨rfl, hxy⟩
    | _ => simp at heq
  | .eachBlock each other rest, hb, hx, hy, heq => by
    cases hb with
    | nil => subst heq; cases hy _ rfl
    | eachBlock each' other' rest' =>
      simp only [List.cons_append, List.append_assoc, List.cons.injEq, eachOpen.injEq] at heq
      obtain ⟨⟨rfl, rfl, rfl⟩, heq⟩ := heq
      obtain ⟨rfl, heq⟩ := each.unique each' other.outside other'.outside heq
      obtain ⟨rfl, heq⟩ := other.unique other' heq
      obtain ⟨rfl, hxy⟩ := rest.unique rest' hx hy heq
      exact ⟨rfl, hxy⟩
    | _ => simp at heq
  | .tag inner rest, hb, hx, hy, heq => by
    cases hb with
    | nil => subst heq; cases hy _ rfl
    | tag inner' rest' =>
      simp only [List.cons_append, List.append_assoc, List.cons.injEq, tagOpen.injEq] at heq
      obtain ⟨⟨rfl, rfl⟩, heq⟩ := heq
      obtain ⟨rfl, heq⟩ := inner.unique inner' (outside_cons rfl) (outside_cons rfl) heq
      obtain ⟨rfl, hxy⟩ := rest.unique rest' hx hy (List.cons.inj heq).2
      exact ⟨rfl, hxy⟩
    | _ => simp at heq
  | .tagSelf rest, hb, hx, hy, heq => by
    cases hb with
    | nil => subst heq; cases hy _ rfl
    | tagSelf rest' =>
      simp only [List.cons_append, List.cons.injEq, tagSelf.injEq] at heq
      obtain ⟨⟨rfl, rfl⟩, heq⟩ := heq
      obtain ⟨rfl, hxy⟩ := rest.unique rest' hx hy heq
      exact ⟨rfl, hxy⟩
    | _ => simp at heq

theorem DerivesAlternates.unique {a b x y : List Item} {m n : List Alternate} :
    DerivesAlternates a m → DerivesAlternates b n → a ++ ifClose :: x = b ++ ifClose :: y →
      m = n ∧ x = y
  | .nil, hb, heq => by
    cases hb with
    | nil => exact ⟨rfl, (List.cons.inj heq).2⟩
    | _ => simp at heq
  | .elseIf consequent others, hb, heq => by
    cases hb with
    | elseIf consequent' others' =>
      simp only [List.cons_append, List.append_assoc, List.cons.injEq, elseIf.injEq] at heq
      obtain ⟨rfl, heq⟩ := heq
      obtain ⟨rfl, heq⟩ := consequent.unique consequent' others.outside others'.outside heq
      obtain ⟨rfl, hxy⟩ := others.unique others' heq
      exact ⟨rfl, hxy⟩
    | _ => simp at heq
  | .otherwise last, hb, heq => by
    cases hb with
    | otherwise last' =>
      obtain ⟨rfl, heq⟩ :=
        last.unique last' (outside_cons rfl) (outside_cons rfl) (List.cons.inj heq).2
      exact ⟨rfl, (List.cons.inj heq).2⟩
    | _ => simp at heq

theorem DerivesFallback.unique {a b x y : List Item} {m n : Option (List Node)} :
    DerivesFallback a m → DerivesFallback b n → a ++ eachClose :: x = b ++ eachClose :: y →
      m = n ∧ x = y
  | .none, hb, heq => by
    cases hb with
    | none => exact ⟨rfl, (List.cons.inj heq).2⟩
    | some => simp at heq
  | .some last, hb, heq => by
    cases hb with
    | none => simp at heq
    | some last' =>
      obtain ⟨rfl, heq⟩ :=
        last.unique last' (outside_cons rfl) (outside_cons rfl) (List.cons.inj heq).2
      exact ⟨rfl, (List.cons.inj heq).2⟩

end

/-! ## Writing items

The text of each item. The words of an expression are set apart by single
blanks; a number is written as one likes. -/

/-- Text with a backslash before each character that has a meaning of its own. -/
def escapeText : List Char → List Char
  | [] => []
  | c :: cs => if Lexer.isEscapable c then '\\' :: c :: escapeText cs else c :: escapeText cs

def emptyComment : List Char := ['/', '*', '*', '/']

def escapeString : List Char → List Char
  | [] => []
  | '"' :: cs => '\\' :: '"' :: escapeString cs
  | '\\' :: cs => '\\' :: '\\' :: escapeString cs
  | '\n' :: cs => '\\' :: 'n' :: escapeString cs
  | c :: cs => c :: escapeString cs

section
variable (numeral : Float → List Char)

/-- The words of expressions; no others stand between braces. -/
def TokenKind.spell : TokenKind → List Char
  | .identifier name => name.toList
  | .symbol s => s.text.toList
  | .number x => numeral x
  | .string s => '"' :: escapeString s.toList ++ ['"']
  | _ => []

/-- Each word with a blank before it. -/
def spellWords (words : List TokenKind) : List Char :=
  words.flatMap fun word => ' ' :: word.spell numeral

def Expr.spell (e : Expr) : List Char := (spellWords numeral (e.words false)).tail

/-- A quote that the text does not contain, if there is one. -/
def quoteFor (text : String) : Char := if '"' ∈ text.toList then '\'' else '"'

def AttributeValue.spell : AttributeValue → List Char
  | .flag => []
  | .literal text => '=' :: quoteFor text :: text.toList ++ [quoteFor text]
  | .expression value => '=' :: '{' :: value.spell numeral ++ ['}']

def Attribute.spell (a : Attribute) : List Char :=
  ' ' :: a.name.toList ++ a.value.spell numeral

def Item.spell : Item → List Char
  | text value => escapeText value.toList
  | mustache value => '{' :: value.spell numeral ++ ['}']
  | ifOpen condition => ['{', '#', 'i', 'f', ' '] ++ condition.spell numeral ++ ['}']
  | elseIf condition =>
    ['{', ':', 'e', 'l', 's', 'e', ' ', 'i', 'f', ' '] ++ condition.spell numeral ++ ['}']
  | otherwise => ['{', ':', 'e', 'l', 's', 'e', '}']
  | ifClose => ['{', '/', 'i', 'f', '}']
  | eachOpen iterable item index =>
    ['{', '#', 'e', 'a', 'c', 'h', ' '] ++ iterable.spell numeral ++ [' ', 'a', 's'] ++
      spellWords numeral (item.words ++ Ident.words index) ++ ['}']
  | eachClose => ['{', '/', 'e', 'a', 'c', 'h', '}']
  | tagOpen name attributes =>
    '<' :: name.toList ++ attributes.flatMap (Attribute.spell numeral) ++ ['>']
  | tagSelf name attributes =>
    '<' :: name.toList ++ attributes.flatMap (Attribute.spell numeral) ++ ['/', '>']
  | tagClose name => '<' :: '/' :: name.toList ++ ['>']

def spellItems (items : List Item) : List Char := items.flatMap (Item.spell numeral)

end

end PromptTemplate
