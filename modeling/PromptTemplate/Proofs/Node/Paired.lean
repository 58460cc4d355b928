import PromptTemplate.Node.Parser
import PromptTemplate.Proofs.Expr.Paired

/-!
# Two runs of the reader of documents

The readers of patterns, attributes and nodes make of two streams of the same
kinds the same tree with other spans. Each of them starts in the modes of its
first token and ends in those behind its last one; so nodes are looked for in
text alone.
-/

namespace PromptTemplate

open PromptTemplate.Parser

variable {T : Pairing} {n k b b' depth : Nat} {outer : List Mode}

-- ---------------------------------------------------------------------------
-- Patterns
-- ---------------------------------------------------------------------------

namespace Pattern

section
variable {nested nested' : Parser Pattern}
  (hnested : ∀ k < n, ∀ depth, Paired T (T.At (.expression depth :: outer) k) nested nested'
    (T.Made (Pattern.mapSpans T.span) (.expression depth :: outer) k))
include hnested

theorem entries_paired (hk : k < n) (hb : k < b) (hb' : k < b') :
    Paired T (T.At (.expression (depth + 1) :: outer) k) (entries nested b) (entries nested' b')
      (T.Made (Pattern.mapSpansEntries T.span) (.expression depth :: outer) k) := by
  induction b generalizing k b' with
  | zero => contradiction
  | succ b ih =>
    obtain _ | b' := b'
    · contradiction
    rw [entries, entries]
    simp only [discard_bind]
    refine .takeSymbol_bind .braceClose ?_ fun _ j hj => .made rfl (by omega)
    refine .name_bind (fun _ => .operand rfl) fun word place j hj => ?_
    have hmore (key : Ident) (binding : Pattern) {i : Nat} (hi : i < k) :
        Paired T (T.At (.expression (depth + 1) :: outer) i)
          (do
            if (← takeSymbol .comma).isSome then
              return (key, binding) :: (← entries nested b)
            let _ ← expectSymbol .braceClose
            return [(key, binding)])
          (do
            if (← takeSymbol .comma).isSome then
              return (key.mapSpans T.span, binding.mapSpans T.span) :: (← entries nested' b')
            let _ ← expectSymbol .braceClose
            return [(key.mapSpans T.span, binding.mapSpans T.span)])
          (T.Made (Pattern.mapSpansEntries T.span) (.expression depth :: outer) k) := by
      refine .takeSymbol_bind (.operand rfl) ?_ fun _ l hl => ?_
      · exact .expectSymbol_bind .braceClose fun _ l hl => .made rfl (by omega)
      · exact .bind_made (ih (by omega) (by omega) (by omega)) fun more => .made rfl (by omega)
    refine .takeSymbol_bind (.operand rfl) ?_ fun _ i hi => ?_
    · exact hmore ⟨word, place⟩ (.ident ⟨word, place⟩) hj
    · exact .bind_made (hnested i (by omega) _) fun binding =>
        hmore ⟨word, place⟩ binding (by omega)

theorem items_paired (hk : k < n) (hb : k < b) (hb' : k < b') :
    Paired T (T.At (.expression depth :: outer) k) (items nested b) (items nested' b')
      (T.Made (Pattern.mapSpansItems T.span) (.expression depth :: outer) k) := by
  induction b generalizing k b' with
  | zero => contradiction
  | succ b ih =>
    obtain _ | b' := b'
    · contradiction
    rw [items, items]
    simp only [discard_bind]
    refine .takeSymbol_bind (.operand rfl) ?_ fun _ j hj => .made rfl (by omega)
    refine .bind_made (hnested k hk _) fun first => ?_
    refine .takeSymbol_bind (.operand rfl) ?_ fun _ j hj => ?_
    · exact .expectSymbol_bind (.operand rfl) fun _ j hj => .made rfl (by omega)
    · exact .bind_made (ih (by omega) (by omega) (by omega)) fun more => .made rfl (by omega)

end

theorem patterns_paired (hb : n < b) (hb' : n < b') :
    Paired T (T.At (.expression depth :: outer) n) (patterns b) (patterns b')
      (T.Made (Pattern.mapSpans T.span) (.expression depth :: outer) n) := by
  induction b generalizing n b' depth with
  | zero => contradiction
  | succ b ih =>
    obtain _ | b' := b'
    · contradiction
    have hnested : ∀ k < n, ∀ depth, Paired T (T.At (.expression depth :: outer) k) (patterns b)
        (patterns b') (T.Made (Pattern.mapSpans T.span) (.expression depth :: outer) k) :=
      fun j hj depth => ih (by omega) (by omega)
    rw [patterns, patterns]
    refine .takeRequired_bind (by decide) (fun _ _ _ _ => ⟨_, rfl⟩) fun token => ?_
    obtain ⟨kind, place⟩ := token
    dsimp only [Token.mapSpan]
    split
    · exact .past (.operand rfl) fun j hj => .made rfl (by omega)
    · refine .past .braceOpen fun j hj => ?_
      exact .bind_made (entries_paired hnested hj (by omega) (by omega)) fun entries =>
        .made rfl (by omega)
    · refine .past (.operand rfl) fun j hj => ?_
      exact .bind_made (items_paired hnested hj (by omega) (by omega)) fun items =>
        .made rfl (by omega)
    · exact .fail rfl place

theorem parser_paired :
    Paired T (T.At (.expression depth :: outer) n) parser parser
      (T.Made (Pattern.mapSpans T.span) (.expression depth :: outer) n) :=
  .budget_bind fun _ _ _ _ => patterns_paired

end Pattern

-- ---------------------------------------------------------------------------
-- Attributes
-- ---------------------------------------------------------------------------

namespace Attribute

theorem valueParser_paired (hopen : ∀ s, ¬ T.Closing s) :
    Paired T (T.At (.tag :: outer) n) valueParser valueParser
      (T.Made (AttributeValue.mapSpans T.span) (.tag :: outer) n) := by
  rw [valueParser]
  simp only [discard_bind]
  refine .takeSymbol_bind (.word rfl) (.made rfl (Nat.le_refl n)) fun _ j hj => ?_
  refine .take_bind (.failAtEnd rfl) (fun _ _ _ _ h => absurd h (hopen _)) fun token => ?_
  obtain ⟨kind, place⟩ := token
  cases kind with
  | attributeValue text => exact .past (.word rfl) fun i hi => .made rfl (by omega)
  | mustacheOpen =>
    refine .past (.opening rfl (.inr rfl)) fun i hi => .bind_made Expr.parser_paired fun value => ?_
    exact .expectClose_bind hopen fun _ l hl => .made rfl (by omega)
  | _ => exact .fail rfl place

def Closing.mapSpan (f : Span → Span) (closing : Closing) : Closing :=
  ⟨closing.selfClosing, f closing.span⟩

theorem list_paired (hopen : ∀ s, ¬ T.Closing s) (hb : n < b) (hb' : n < b')
    (earlier : List Attribute) :
    Paired T (T.At (.tag :: outer) n) (list b earlier)
      (list b' (earlier.map (Attribute.mapSpans T.span)))
      (T.Made (Prod.map (List.map (Attribute.mapSpans T.span)) (Closing.mapSpan T.span))
        outer n) := by
  induction b generalizing n b' earlier with
  | zero => contradiction
  | succ b ih =>
    obtain _ | b' := b'
    · contradiction
    rw [list, list]
    refine .takeRequired_bind (by decide) (fun _ _ _ h => absurd h (hopen _)) fun token => ?_
    obtain ⟨kind, place⟩ := token
    dsimp only [Token.mapSpan]
    split
    · rename_i name
      rw [find?_mapSpans, Option.isSome_map]
      refine .ite (fun _ => .fail rfl place) fun _ => .past (.word rfl) fun j hj => ?_
      refine .bind_made (valueParser_paired hopen) fun value => ?_
      have hlater := (ih (n := j) (by omega) (show j < b' by omega)
        (earlier ++ [⟨name, place, value⟩])).grow (Nat.le_of_lt hj)
      rwa [List.map_append] at hlater
    · exact .past (.tagEnd rfl) fun j hj => .made rfl (by omega)
    · exact .past (.tagEnd rfl) fun j hj => .made rfl (by omega)
    · exact .fail rfl place
    · exact .fail (by decide) place

theorem checkLiteral_paired {modes : List Mode} (attributes : List Attribute)
    (names : List String) :
    Paired T (T.At modes n) (checkLiteral attributes names)
      (checkLiteral (attributes.map (Attribute.mapSpans T.span)) names) (T.Made id modes n) := by
  induction names with
  | nil => exact .made rfl (Nat.le_refl n)
  | cons name names ih =>
    rw [checkLiteral, checkLiteral, find?_mapSpans]
    cases find? attributes name with
    | none => exact ih
    | some found =>
      obtain ⟨found, place, value⟩ := found
      cases value with
      | expression value => exact .fail rfl place
      | flag | literal text => exact ih

end Attribute

-- ---------------------------------------------------------------------------
-- Where a list of nodes stops
-- ---------------------------------------------------------------------------

theorem Construct.isReadable_closer (inner : Construct) :
    (Cause.unexpectedEnd inner.closer).isReadable := by
  cases inner with
  | tag name =>
    have hcloser : (tag name).closer ≠ "text" := fun h => by
      have hhead := congrArg (List.head? ∘ String.toList) h
      simp [closer] at hhead
    exact decide_eq_true hcloser
  | ifBlock => exact of_decide_eq_true rfl
  | eachBlock => exact of_decide_eq_true rfl

theorem Construct.isReadable_of_place {enclosing : List Construct} {cause : Cause}
    (h : placeElseIf enclosing = .error cause ∨ placeElse enclosing = .error cause) :
    cause.isReadable := by
  unfold placeElseIf placeElse at h
  rcases h with h | h <;> (repeat' split at h) <;> cases h <;> rfl

/-- An alternative is placed in a block. -/
theorem Construct.isBlock_of_place {enclosing : List Construct}
    (h : placeElseIf enclosing = .ok () ∨ placeElse enclosing = .ok ()) :
    ∃ inner outer, enclosing = inner :: outer ∧ inner.isBlock := by
  cases enclosing with
  | nil => rcases h with h | h <;> cases h
  | cons inner outer =>
    refine ⟨inner, outer, rfl, ?_⟩
    cases inner with
    | tag name =>
      simp only [placeElseIf, placeElse] at h
      rcases h with h | h <;> split at h <;> cases h
    | _ => rfl

theorem Construct.isBlock_of_closed {inner : Construct} {name : String}
    (h : inner.closedByBlock name) : inner.isBlock := by
  cases inner with
  | tag => cases h
  | _ => rfl

namespace Node

/-- In front of what closes or branches the innermost construct, or at the end of the text. -/
inductive Stop : List Construct → List Token → Prop
  | finished : Stop [] []
  | branch {inner outer place word more} (h : inner.isBlock) :
    Stop (inner :: outer) (⟨.blockBranch, place⟩ :: ⟨.identifier "else", word⟩ :: more)
  | blockClose {inner outer name place more} (h : inner.isBlock) :
    Stop (inner :: outer) (⟨.blockClose name, place⟩ :: more)
  | tagClose {name outer place more} : Stop (.tag name :: outer) (⟨.tagClose name, place⟩ :: more)

/-- Both streams are where the nodes inside `enclosing` stop. -/
structure Stopped (T : Pairing) (enclosing : List Construct) (n : Nat) (s t : TokenStream) :
    Prop where
  linked : T.At [] n s t
  stop : Stop enclosing s.tokens

/-- Both runs have read the nodes inside `enclosing`. -/
structure ReadAll (T : Pairing) (enclosing : List Construct) (n : Nat) (nodes nodes' : List Node)
    (s t : TokenStream) : Prop where
  value : nodes' = Node.mapSpansAll T.span nodes
  stopped : Stopped T enclosing n s t

/-- In front of less than `n` tokens. -/
def Nested (T : Pairing) (n : Nat) (nested nested' : List Construct → Parser (List Node)) : Prop :=
  ∀ k < n, ∀ enclosing, Paired T (T.At [] k) (nested enclosing) (nested' enclosing)
    (ReadAll T enclosing k)

variable {nested nested' : List Construct → Parser (List Node)} {enclosing : List Construct}
  {inner : Construct} {α β : Type} {Q : α → α → TokenStream → TokenStream → Prop}

theorem Stopped.mono {s t : TokenStream} (h : Stopped T enclosing k s t) (hle : k ≤ n) :
    Stopped T enclosing n s t :=
  ⟨h.linked.mono hle, h.stop⟩

theorem bind_readAll {P : TokenStream → TokenStream → Prop} {p q : Parser (List Node)}
    {f g : List Node → Parser α} (hp : Paired T P p q (ReadAll T enclosing n))
    (hf : ∀ nodes, Paired T (Stopped T enclosing n) (f nodes)
      (g (Node.mapSpansAll T.span nodes)) Q) :
    Paired T P (p >>= f) (q >>= g) Q := by
  refine .bind hp fun nodes nodes' s t hst => ?_
  rw [hst.value]
  exact hf nodes s t hst.stopped

/-- A branch or the closer of a block comes next. -/
theorem takeRequired_block {expected : String} {f g : Token → Parser α} (hinner : inner.isBlock)
    (hbranch : ∀ place word, ∀ k < n,
      Paired T (T.Facing [.expression 0] k ⟨.identifier "else", word⟩) (f ⟨.blockBranch, place⟩)
        (g ⟨.blockBranch, T.span place⟩) Q)
    (hclose : ∀ name place, ∀ k < n,
      Paired T (T.At [.expression 0] k) (f ⟨.blockClose name, place⟩)
        (g ⟨.blockClose name, T.span place⟩) Q) :
    Paired T (Stopped T (inner :: enclosing) n) (takeRequired expected >>= f)
      (takeRequired expected >>= g) Q := by
  rintro ⟨tokens, stop⟩ t ⟨hst, hstop⟩
  dsimp only at hstop
  cases hstop with
  | @branch _ _ place word more =>
    obtain ⟨tokens', stop', rfl, k, hk, htail⟩ := hst.tail
    have hread := T.tail hst.read (.opening rfl (.inl rfl))
    exact hbranch place word k hk _ _ ⟨htail _ hread, rfl⟩
  | @blockClose _ _ name place more =>
    obtain ⟨tokens', stop', rfl, k, hk, htail⟩ := hst.tail
    exact hclose name place k hk _ _ (htail _ (T.tail hst.read (.opening rfl (.inl rfl))))
  | tagClose => cases hinner

/-- The closer of a tag comes next. -/
theorem takeRequired_tag {name expected : String} {f g : Token → Parser α}
    (hclose : ∀ place, ∀ k < n, Paired T (T.At [] k) (f ⟨.tagClose name, place⟩)
      (g ⟨.tagClose name, T.span place⟩) Q) :
    Paired T (Stopped T (.tag name :: enclosing) n) (takeRequired expected >>= f)
      (takeRequired expected >>= g) Q := by
  rintro ⟨tokens, stop⟩ t ⟨hst, hstop⟩
  dsimp only at hstop
  cases hstop with
  | branch h | blockClose h => cases h
  | @tagClose _ _ place more =>
    obtain ⟨tokens', stop', rfl, k, hk, htail⟩ := hst.tail
    exact hclose place k hk _ _ (htail _ (T.tail hst.read .tagClose))

-- ---------------------------------------------------------------------------
-- Nodes
-- ---------------------------------------------------------------------------

section
variable (hopen : ∀ s, ¬ T.Closing s)
include hopen

theorem checkBranch_paired (place : Span) :
    Paired T (T.Facing [] n ⟨.blockBranch, place⟩) (checkBranch enclosing place)
      (checkBranch enclosing (T.span place)) fun _ _ => Stopped T enclosing n := by
  rw [checkBranch, checkBranch]
  refine .peekAt_bind hopen (fun _ _ h => h.linked) fun first => ?_
  refine .peekAt_bind hopen (fun _ _ h => h.1.linked) fun second => ?_
  simp only [Option.map_map, Function.comp_def, Token.kind_mapSpan]
  refine .ite (fun _ => .fail rfl place) fun _ => .ite (fun hfirst => ?_) fun _ =>
    .fail (by decide) place
  generalize hplaced : (if second.map Token.kind = some (.identifier "if") then
    Construct.placeElseIf enclosing else Construct.placeElse enclosing) = placed
  have hplace : Construct.placeElseIf enclosing = placed ∨
      Construct.placeElse enclosing = placed := by
    split at hplaced
    · exact .inl hplaced
    · exact .inr hplaced
  cases placed with
  | error cause => exact .fail (Construct.isReadable_of_place hplace) place
  | ok =>
    obtain ⟨inner, outer, rfl, hinner⟩ := Construct.isBlock_of_place hplace
    rintro ⟨tokens, stop⟩ t ⟨⟨hst, hnext⟩, -⟩
    refine .ok ⟨hst.linked, ?_⟩
    obtain ⟨more, hmore⟩ := List.head?_eq_some_iff.1 hst.head
    dsimp only at hmore hnext ⊢
    subst hmore hnext
    obtain ⟨⟨kind, word⟩, hword, hkind⟩ := Option.map_eq_some_iff.1 hfirst
    obtain rfl : kind = .identifier "else" := hkind
    obtain ⟨more, rfl⟩ := List.head?_eq_some_iff.1 (List.head?_eq_getElem?.trans hword)
    exact .branch hinner

section
variable (hnested : Nested T n nested nested')
include hnested

theorem alternates_paired (hk : k ≤ n) (hb : k < b) (hb' : k < b') (hasElse : Bool) :
    Paired T (Stopped T (.ifBlock hasElse :: enclosing) k)
      (alternates nested enclosing b hasElse) (alternates nested' enclosing b' hasElse)
      (T.Made (Prod.map (Alternate.mapSpansAll T.span) T.span) [] k) := by
  induction b generalizing k b' hasElse with
  | zero => contradiction
  | succ b ih =>
    obtain _ | b' := b'
    · contradiction
    rw [alternates, alternates]
    simp only [discard_bind]
    refine takeRequired_block rfl (fun place word j hj => ?_) fun name place j hj => ?_
    · refine .take_facing (.past (.operand rfl) fun i hi => ?_)
      refine .takeWord_bind (.operand rfl) ?_ fun l hl => ?_
      · refine .expectClose_bind hopen fun _ l hl => ?_
        refine bind_readAll (hnested l (by omega) _) fun body => ?_
        refine .bind_made (ih (by omega) (by omega) (by omega) true) fun more => ?_
        exact .made rfl (by omega)
      · refine .bind_made Expr.parser_paired fun condition => ?_
        refine .expectClose_bind hopen fun _ l hl => ?_
        refine bind_readAll (hnested l (by omega) _) fun body => ?_
        refine .bind_made (ih (by omega) (by omega) (by omega) hasElse) fun more => ?_
        exact .made rfl (by omega)
    · exact .expectClose_bind hopen fun last i hi => .made rfl (by omega)

theorem ifBlockParser_paired (hk : k ≤ n) (hb : k < b) (hb' : k < b') (place : Span) :
    Paired T (T.At [.expression 0] k) (ifBlockParser nested enclosing b place)
      (ifBlockParser nested' enclosing b' (T.span place))
      (T.Made (Node.mapSpans T.span) [] k) := by
  rw [ifBlockParser, ifBlockParser]
  simp only [discard_bind]
  refine .bind_made Expr.parser_paired fun condition => ?_
  refine .expectClose_bind hopen fun _ j hj => ?_
  refine bind_readAll (hnested j (by omega) _) fun consequent => ?_
  refine .bind_made (alternates_paired hopen hnested (by omega) (by omega) (by omega) false)
    fun found => ?_
  exact .made (by simp only [Prod.map, Node.mapSpans, T.join]) (by omega)

theorem fallback_paired (hk : k ≤ n) (hb : k < b) (hb' : k < b') (hasElse : Bool)
    (earlier : Option (List Node)) :
    Paired T (Stopped T (.eachBlock hasElse :: enclosing) k) (fallback nested enclosing b earlier)
      (fallback nested' enclosing b' (Node.mapSpansFallback T.span earlier))
      (T.Made (Prod.map (Node.mapSpansFallback T.span) T.span) [] k) := by
  induction b generalizing k b' hasElse earlier with
  | zero => contradiction
  | succ b ih =>
    obtain _ | b' := b'
    · contradiction
    rw [fallback, fallback]
    simp only [discard_bind]
    refine takeRequired_block rfl (fun place word j hj => ?_) fun name place j hj => ?_
    · refine .take_facing (.past (.operand rfl) fun i hi => ?_)
      refine .expectClose_bind hopen fun _ l hl => ?_
      refine bind_readAll (hnested l (by omega) _) fun body => ?_
      exact .grow (ih (by omega) (by omega) (by omega) true (some body)) (by omega)
    · exact .expectClose_bind hopen fun last i hi => .made rfl (by omega)

theorem eachBlockParser_paired (hk : k ≤ n) (hb : k < b) (hb' : k < b') (place : Span) :
    Paired T (T.At [.expression 0] k) (eachBlockParser nested enclosing b place)
      (eachBlockParser nested' enclosing b' (T.span place))
      (T.Made (Node.mapSpans T.span) [] k) := by
  have hbody (iterable : Expr) (item : Pattern) (index : Option Ident) {j : Nat} (hj : j < k) :
      Paired T (T.At [.expression 0] j)
        (do
          let _ ← expectClose
          let body ← nested (.eachBlock false :: enclosing)
          let found ← fallback nested enclosing b none
          return .eachBlock (place.join found.2) iterable item index body found.1)
        (do
          let _ ← expectClose
          let body ← nested' (.eachBlock false :: enclosing)
          let found ← fallback nested' enclosing b' none
          return .eachBlock ((T.span place).join found.2) (iterable.mapSpans T.span)
            (item.mapSpans T.span) (index.map (Ident.mapSpans T.span)) body found.1)
        (T.Made (Node.mapSpans T.span) [] k) := by
    refine .expectClose_bind hopen fun _ i hi => ?_
    refine bind_readAll (hnested i (by omega) _) fun body => ?_
    refine .bind_made (fallback_paired hopen hnested (by omega) (by omega) (by omega) false none)
      fun found => ?_
    exact .made (by simp only [Node.mapSpans, T.join, Prod.map_fst, Prod.map_snd]) (by omega)
  have has : (Cause.unexpected "as").isReadable ∧ (Cause.unexpectedEnd "as").isReadable := by decide
  rw [eachBlockParser, eachBlockParser]
  simp only [discard_bind]
  refine .bind_made Expr.parser_paired fun iterable => ?_
  refine .takeWord_bind (.operand rfl) (.never (.failExpecting has.1 has.2)) fun j hj => ?_
  refine .bind_made Pattern.parser_paired fun item => ?_
  refine .takeSymbol_bind (.operand rfl) ?_ fun _ i hi => ?_
  · exact hbody iterable item none hj
  · refine .name_bind (fun _ => .operand rfl) fun word place' l hl => ?_
    exact hbody iterable item (some ⟨word, place'⟩) (by omega)

theorem tagParser_paired (hk : k < n) (hb : k < b) (hb' : k < b') (place : Span) (name : String) :
    Paired T (T.At [.tag] k) (tagParser nested enclosing b place name)
      (tagParser nested' enclosing b' (T.span place) name)
      (T.Made (Node.mapSpans T.span) [] k) := by
  rw [tagParser, tagParser]
  refine .bind_made (Attribute.list_paired hopen (by omega) (by omega) []) fun found => ?_
  refine .bind_made (Attribute.checkLiteral_paired found.1 _) fun _ => ?_
  refine .ite (fun _ => .made ?_ (Nat.le_refl k)) fun _ => ?_
  · simp only [Node.mapSpans, Tag.mapSpans, Attribute.Closing.mapSpan, T.join]
    rfl
  · refine bind_readAll (hnested k hk _) fun children => ?_
    refine takeRequired_tag fun last j hj => .made ?_ (Nat.le_of_lt hj)
    simp only [Node.mapSpans, Tag.mapSpans, T.join]

end

/-- The body of the reader of a list of nodes, for any reader of the nodes behind the first one and
inside it. -/
def listStep (nested : List Construct → Parser (List Node)) (budget : Nat)
    (enclosing : List Construct) : Parser (List Node) := do
  match ← peek with
  | none =>
    match enclosing with
    | [] => return []
    | inner :: _ => failAtEnd (.unexpectedEnd inner.closer)
  | some token =>
    match token.kind with
    | .text value =>
      discard take
      return .text token.span value :: (← nested enclosing)
    | .mustacheOpen =>
      discard take
      let value ← Expr.parser
      let last ← expectClose
      return .mustache (token.span.join last) value :: (← nested enclosing)
    | .blockOpen name =>
      discard take
      let node ←
        if name = "if" then ifBlockParser nested enclosing budget token.span
        else if name = "each" then eachBlockParser nested enclosing budget token.span
        else fail .expectedBlockType token.span
      return node :: (← nested enclosing)
    | .blockBranch =>
      checkBranch enclosing token.span
      return []
    | .blockClose name =>
      if (enclosing.head?.any (·.closedByBlock name)) then return []
      else fail .unexpectedBlockClose token.span
    | .tagOpen name =>
      discard take
      let node ← tagParser nested enclosing budget token.span name
      return node :: (← nested enclosing)
    | .tagClose name =>
      if enclosing.head? = some (.tag name) then return []
      else fail (.unexpectedTagClose name) token.span
    | _ => fail (.unexpected "text") token.span

omit hopen in
theorem list_succ (budget : Nat) (enclosing : List Construct) :
    list (budget + 1) enclosing = listStep (list budget) (budget + 1) enclosing := rfl

theorem listStep_paired (hnested : Nested T n nested nested') (hb : n < b) (hb' : n < b') :
    Paired T (T.At [] n) (listStep nested b enclosing) (listStep nested' b' enclosing)
      (ReadAll T enclosing n) := by
  have hcons {modes : List Mode} {p q : Parser Node} {j : Nat} (hj : j < n)
      (hp : Paired T (T.At modes j) p q (T.Made (Node.mapSpans T.span) [] j)) :
      Paired T (T.At modes j)
        (do let node ← p; let nodes ← nested enclosing; pure (node :: nodes))
        (do let node ← q; let nodes ← nested' enclosing; pure (node :: nodes))
        (ReadAll T enclosing n) := by
    refine .bind_made hp fun node => bind_readAll (hnested j hj _) fun nodes => ?_
    exact .pure fun s t hst => ⟨rfl, hst.mono (Nat.le_of_lt hj)⟩
  unfold listStep
  simp only [discard_bind]
  refine .peek_bind ?_ (fun _ _ _ _ h => absurd h (hopen _)) fun token => ?_
  · cases enclosing with
    | nil =>
      refine .pure fun s t hst => ⟨rfl, hst.linked, ?_⟩
      rw [hst.tokens]
      exact .finished
    | cons inner outer => exact .atEnd (.failAtEnd inner.isReadable_closer)
  obtain ⟨kind, place⟩ := token
  cases kind with
  | text value =>
    refine .take_facing (.past .text fun j hj => bind_readAll (hnested j hj _) fun nodes => ?_)
    exact .pure fun s t hst => ⟨rfl, hst.mono (Nat.le_of_lt hj)⟩
  | mustacheOpen =>
    refine .take_facing (.past (.opening rfl (.inl rfl)) fun j hj => ?_)
    refine .bind_made Expr.parser_paired fun value => .expectClose_bind hopen fun last i hi => ?_
    refine bind_readAll (hnested i (by omega) _) fun nodes => ?_
    refine .pure fun s t hst => ⟨?_, hst.mono (by omega)⟩
    simp only [Node.mapSpansAll, Node.mapSpans, T.join, Token.span_mapSpan]
  | blockOpen name =>
    refine .take_facing (.past (.opening rfl (.inl rfl)) fun j hj => ?_)
    refine .ite (fun _ => ?_) fun _ => .ite (fun _ => ?_) fun _ => ?_
    · exact hcons hj (ifBlockParser_paired hopen hnested (by omega) (by omega) (by omega) place)
    · exact hcons hj (eachBlockParser_paired hopen hnested (by omega) (by omega) (by omega) place)
    · exact hcons hj (.fail rfl place)
  | blockBranch =>
    refine .bind (checkBranch_paired hopen place) fun _ _ => ?_
    exact .pure fun s t hst => ⟨rfl, hst⟩
  | blockClose name =>
    refine .ite (fun hclosed => ?_) fun _ => .fail rfl place
    rintro ⟨tokens, stop⟩ t ⟨hst, hhead⟩
    obtain ⟨more, rfl⟩ := List.head?_eq_some_iff.1 hhead
    cases enclosing with
    | nil => cases hclosed
    | cons inner outer => exact .ok ⟨rfl, hst, .blockClose (inner.isBlock_of_closed hclosed)⟩
  | tagOpen name =>
    refine .take_facing (.past .tagOpen fun j hj => ?_)
    exact hcons hj (tagParser_paired hopen hnested (by omega) (by omega) (by omega) place name)
  | tagClose name =>
    refine .ite (fun hclosed => ?_) fun _ => .fail rfl place
    rintro ⟨tokens, stop⟩ t ⟨hst, hhead⟩
    obtain ⟨more, rfl⟩ := List.head?_eq_some_iff.1 hhead
    obtain ⟨outer, rfl⟩ := List.head?_eq_some_iff.1 hclosed
    exact .ok ⟨rfl, hst, .tagClose⟩
  | _ =>
    refine .fail_facing (fun modes' hshift => ?_) _ place
    cases hshift with
    | opening h => cases h

theorem list_paired (hb : n < b) (hb' : n < b') :
    Paired T (T.At [] n) (list b enclosing) (list b' enclosing) (ReadAll T enclosing n) := by
  induction b generalizing n b' enclosing with
  | zero => contradiction
  | succ b ih =>
    obtain _ | b' := b'
    · contradiction
    rw [list_succ, list_succ]
    exact listStep_paired hopen (fun j hj enclosing => ih (by omega) (by omega)) hb hb'

/-- Reads the nodes that stand in no construct. -/
def outermost : Parser (List Node) := Parser.budget >>= fun budget => Node.list budget []

theorem outermost_paired :
    Paired T (T.At [] n) outermost outermost (T.Made (Node.mapSpansAll T.span) [] n) :=
  .budget_bind fun _ _ _ _ hb hb' =>
    (list_paired hopen hb hb').mono (fun _ _ => id) fun _ _ _ _ h => ⟨h.value, h.stopped.linked⟩

end

end Node

-- ---------------------------------------------------------------------------
-- Documents
-- ---------------------------------------------------------------------------

namespace Document

/-- Reads the opening section, if there is one, and the nodes behind it as `nodes` does. -/
def parserWith (nodes : Parser (List Node)) : Parser Document := do
  let opening ← Node.configParser
  let nodes ← nodes
  return ⟨opening ++ nodes⟩

theorem parser_eq : parser = parserWith Node.outermost := by
  simp only [parser, parserWith, Node.outermost, bind_assoc]

variable {p q : Parser (List Node)} {s : TokenStream}

theorem configParser_plain (h : s.Plain) : Node.configParser s = .ok ([], s) := by
  cases h with
  | finished => rfl
  | @token token more stop h =>
    obtain ⟨kind, place⟩ := token
    cases kind with
    | config body => exact absurd rfl (h body)
    | _ => rfl

theorem configParser_section (body : String) (place : Span) (s : TokenStream) :
    Node.configParser ⟨⟨.config body, place⟩ :: s.tokens, s.stop⟩ =
      match Config.entries? body with
      | some entries => .ok ([.config place entries], s)
      | none => .error ⟨Config.refusal, place⟩ := by
  have hpeek (token : Token) : Parser.peek ⟨token :: s.tokens, s.stop⟩ =
      .ok (some token, ⟨token :: s.tokens, s.stop⟩) := rfl
  have htake (token : Token) : Parser.take ⟨token :: s.tokens, s.stop⟩ =
      .ok (some token, s) := rfl
  rw [Node.configParser, Parser.bind_of_ok (hpeek _)]
  dsimp only
  rw [Parser.discard_bind, Parser.bind_of_ok (htake _)]
  cases Config.entries? body <;> rfl

/-- Without a section a document is its nodes. -/
theorem parserWith_of_plain (h : s.Plain) :
    parserWith p s = (p >>= fun nodes => pure ⟨nodes⟩) s := by
  rw [parserWith, Parser.bind_of_ok (configParser_plain h)]
  rfl

theorem parserWith_of_config {body : String} {entries : Dict Json}
    (h : Config.entries? body = some entries) (place : Span) (s : TokenStream) :
    parserWith p ⟨⟨.config body, place⟩ :: s.tokens, s.stop⟩ =
      (p >>= fun nodes => pure ⟨.config place entries :: nodes⟩) s := by
  have hconfig := configParser_section body place s
  rw [h] at hconfig
  rw [parserWith, Parser.bind_of_ok hconfig]
  rfl

/-- Two readers of documents go together if their readers of nodes do. -/
theorem parserWith_paired (hopen : ∀ s, ¬ T.Closing s)
    (hnodes : ∀ k, Paired T (T.At [] k) p q (T.Made (Node.mapSpansAll T.span) [] k)) :
    Paired T (T.Linked T.Front n) (parserWith p) (parserWith q)
      fun d d' _ _ => d' = d.mapSpans T.span := by
  have hdocument (k : Nat) (opening : List Node) : Paired T (T.At [] k)
      (p >>= fun nodes => pure (⟨opening ++ nodes⟩ : Document))
      (q >>= fun nodes => pure (⟨Node.mapSpansAll T.span opening ++ nodes⟩ : Document))
      fun d d' _ _ => d' = d.mapSpans T.span :=
    .bind_made (hnodes k) fun nodes => .pure fun _ _ _ => by
      rw [Document.mapSpans, Node.mapSpansAll_append]
  rintro s t hst
  obtain ⟨stop, u, hu, rfl, rfl⟩ | ⟨token, tokens, tokens', stop, stop', rfl, rfl, k, hk, hrest⟩ :=
    hst.cases
  · cases hu with
    | error he => exact .error he
    | closed h => exact absurd h (hopen _)
    | ok _ hp =>
      cases hst.read with
      | plain h hread =>
        rw [parserWith_of_plain h, parserWith_of_plain .finished]
        exact hdocument n [] _ _ { hst with read := hread }
  · cases hst.read with
    | plain h hread =>
      have h' : TokenStream.Plain ⟨token.mapSpan T.span :: tokens', stop'⟩ := by
        cases h with
        | token h => exact .token h
      rw [parserWith_of_plain h, parserWith_of_plain h']
      exact hdocument n [] _ _ { hst with read := hread }
    | @config body place _ _ hread =>
      cases hentries : Config.entries? body with
      | some entries =>
        rw [parserWith_of_config hentries place ⟨tokens, stop⟩]
        rw [Token.mapSpan, parserWith_of_config hentries (T.span place) ⟨tokens', stop'⟩]
        exact hdocument k [.config place entries] _ _ (hrest _ hread)
      | none =>
        have hconfig := configParser_section body place ⟨tokens, stop⟩
        have hconfig' := configParser_section body (T.span place) ⟨tokens', stop'⟩
        rw [hentries] at hconfig hconfig'
        rw [parserWith, parserWith, Parser.run_bind, Parser.run_bind, hconfig, Token.mapSpan, hconfig']
        exact .error (T.errors _ place fun _ => rfl)

theorem parser_of_config {body : String} {entries : Dict Json}
    (h : Config.entries? body = some entries) (place : Span) (s : TokenStream) :
    parser ⟨⟨.config body, place⟩ :: s.tokens, s.stop⟩ =
      (Node.outermost >>= fun nodes => pure ⟨.config place entries :: nodes⟩) s :=
  parser_eq ▸ parserWith_of_config h place s

theorem parser_of_plain (h : ∀ token ∈ s.tokens.head?, ∀ body, token.kind ≠ .config body) :
    parser s = (Node.outermost >>= fun nodes => pure ⟨nodes⟩) s := by
  obtain ⟨tokens, stop⟩ := s
  cases tokens with
  | nil =>
    cases stop with
    | error => rfl
    | ok => exact parser_eq ▸ parserWith_of_plain .finished
  | cons token rest => exact parser_eq ▸ parserWith_of_plain (.token (h token rfl))

end Document

end PromptTemplate
