import PromptTemplate.Expr.Parser

/-!
# The grammar of expressions

Which tokens are which expression, level by level, as a relation. Assignments
and conditionals bind loosest (0); the target of an assignment is neither (1).
Then come the binary operators, each two above its own level, up to powers
(13), operators in front (14), updates behind (15), links (16) and what stands
for itself (17).
-/

namespace PromptTemplate

open PromptTemplate.Expr (ofWord unaryOp?)

mutual

/-- The tokens are the expression, and may stand where one of the level is asked for. -/
inductive Phrase : Nat → List Token → Expr → Prop
  | loosen {level ts e} (h : Phrase (level + 1) ts e) : Phrase level ts e
  | number {place x} : Phrase 17 [⟨.number x, place⟩] (.literal place (.number x))
  | string {place s} : Phrase 17 [⟨.string s, place⟩] (.literal place (.string s))
  | word {place name} (hname : name ≠ "typeof") :
    Phrase 17 [⟨.identifier name, place⟩] (ofWord place name)
  | parens {opened closed ts e} (h : Phrase 0 ts e) :
    Phrase 17 (⟨.symbol .parenOpen, opened⟩ :: ts ++ [⟨.symbol .parenClose, closed⟩]) e
  | array {opened ts elements last} (h : Phrase.Elements .bracketClose ts elements last) :
    Phrase 17 (⟨.symbol .bracketOpen, opened⟩ :: ts) (.array (opened.join last) elements)
  | object {opened ts entries last} (h : Phrase.Entries ts entries last) :
    Phrase 17 (⟨.symbol .braceOpen, opened⟩ :: ts) (.object (opened.join last) entries)
  | member {ts base optional ks property last} (h : Phrase 16 ts base)
    (hkey : Phrase.Key optional ks property last) :
    Phrase 16 (ts ++ ks) (.member (base.span.join last) base property optional)
  | call {ts callee opened more arguments last} (h : Phrase 16 ts callee)
    (harguments : Phrase.Elements .parenClose more arguments last) :
    Phrase 16 (ts ++ ⟨.symbol .parenOpen, opened⟩ :: more)
      (.call (callee.span.join last) callee arguments)
  | updated {ts target token op} (h : Phrase 16 ts target)
    (hop : UpdateOp.ofToken? token.kind = some op) :
    Phrase 15 (ts ++ [token]) (.update (target.span.join token.span) op .after target)
  | update {token op ts target} (hop : UpdateOp.ofToken? token.kind = some op)
    (h : Phrase 14 ts target) :
    Phrase 14 (token :: ts) (.update (token.span.join target.span) op .before target)
  | unary {token op ts operand} (hop : unaryOp? token.kind = some op) (h : Phrase 14 ts operand) :
    Phrase 14 (token :: ts) (.unary (token.span.join operand.span) op operand)
  | power {ts base place more exponent} (hbase : Phrase 14 ts base)
    (hexponent : Phrase 13 more exponent) :
    Phrase 13 (ts ++ ⟨.symbol .power, place⟩ :: more)
      (.binary (base.span.join exponent.span) .power base exponent)
  | binary {token op ts left more right} (hop : BinaryOp.ofToken? token.kind = some op)
    (hpower : op ≠ .power) (hleft : Phrase (op.level + 2) ts left)
    (hright : Phrase (op.level + 3) more right) :
    Phrase (op.level + 2) (ts ++ token :: more)
      (.binary (left.span.join right.span) op left right)
  | conditional {ts test question yes consequent colon no alternate} (htest : Phrase 2 ts test)
    (hyes : Phrase 0 yes consequent) (hno : Phrase 0 no alternate) :
    Phrase 0 (ts ++ ⟨.symbol .question, question⟩ :: (yes ++ ⟨.symbol .colon, colon⟩ :: no))
      (.conditional (test.span.join alternate.span) test consequent alternate)
  | assignment {ts target token op more value} (htarget : Phrase 1 ts target)
    (hop : AssignOp.ofToken? token.kind = some op) (hvalue : Phrase 0 more value) :
    Phrase 0 (ts ++ token :: more) (.assignment (target.span.join value.span) op target value)

inductive Phrase.Item : List Token → Element → Prop
  | single {ts e} (h : Phrase 0 ts e) : Phrase.Item ts (.single e)
  | spread {dots ts e} (h : Phrase 0 ts e) :
    Phrase.Item (⟨.symbol .ellipsis, dots⟩ :: ts) (.spread e)

/-- Items up to the symbol that closes them, which stands at the given place. A comma may stand
behind the last one. -/
inductive Phrase.Elements : Symbol → List Token → List Element → Span → Prop
  | nil {close last} : Phrase.Elements close [⟨.symbol close, last⟩] [] last
  | last {close ts element last} (h : Phrase.Item ts element) :
    Phrase.Elements close (ts ++ [⟨.symbol close, last⟩]) [element] last
  | cons {close ts element comma more elements last} (h : Phrase.Item ts element)
    (hmore : Phrase.Elements close more elements last) :
    Phrase.Elements close (ts ++ ⟨.symbol .comma, comma⟩ :: more) (element :: elements) last

inductive Phrase.Pair : List Token → Entry → Prop
  | short {place name} :
    Phrase.Pair [⟨.identifier name, place⟩] (.named name (.identifier place name))
  | word {place name colon ts e} (h : Phrase 0 ts e) :
    Phrase.Pair (⟨.identifier name, place⟩ :: ⟨.symbol .colon, colon⟩ :: ts) (.named name e)
  | string {place name colon ts e} (h : Phrase 0 ts e) :
    Phrase.Pair (⟨.string name, place⟩ :: ⟨.symbol .colon, colon⟩ :: ts) (.named name e)
  | computed {opened ks key closed colon ts e} (hkey : Phrase 0 ks key) (h : Phrase 0 ts e) :
    Phrase.Pair (⟨.symbol .bracketOpen, opened⟩ ::
      (ks ++ ⟨.symbol .bracketClose, closed⟩ :: ⟨.symbol .colon, colon⟩ :: ts)) (.computed key e)
  | spread {dots ts e} (h : Phrase 0 ts e) :
    Phrase.Pair (⟨.symbol .ellipsis, dots⟩ :: ts) (.spread e)

inductive Phrase.Entries : List Token → List Entry → Span → Prop
  | nil {last} : Phrase.Entries [⟨.symbol .braceClose, last⟩] [] last
  | last {ts entry last} (h : Phrase.Pair ts entry) :
    Phrase.Entries (ts ++ [⟨.symbol .braceClose, last⟩]) [entry] last
  | cons {ts entry comma more entries last} (h : Phrase.Pair ts entry)
    (hmore : Phrase.Entries more entries last) :
    Phrase.Entries (ts ++ ⟨.symbol .comma, comma⟩ :: more) (entry :: entries) last

/-- A name behind a point or a key in brackets, with the place where it ends. -/
inductive Phrase.Key : Bool → List Token → Property → Span → Prop
  | named {dot name last} :
    Phrase.Key false [⟨.symbol .dot, dot⟩, ⟨.identifier name, last⟩] (.named name) last
  | optionalNamed {dot name last} :
    Phrase.Key true [⟨.symbol .optionalDot, dot⟩, ⟨.identifier name, last⟩] (.named name) last
  | computed {opened ts key last} (h : Phrase 0 ts key) :
    Phrase.Key false (⟨.symbol .bracketOpen, opened⟩ :: ts ++ [⟨.symbol .bracketClose, last⟩])
      (.computed key) last
  | optionalComputed {dot opened ts key last} (h : Phrase 0 ts key) :
    Phrase.Key true (⟨.symbol .optionalDot, dot⟩ :: ⟨.symbol .bracketOpen, opened⟩ :: ts ++
      [⟨.symbol .bracketClose, last⟩]) (.computed key) last

end

/-- Powers bind tightest. -/
theorem BinaryOp.level_le (op : BinaryOp) : op.level ≤ 11 := by
  cases op <;> decide

namespace Phrase

variable {level level' : Nat} {ts : List Token} {e : Expr}

theorem at_looser (h : Phrase level ts e) (hle : level' ≤ level) : Phrase level' ts e := by
  obtain ⟨steps, rfl⟩ := Nat.exists_eq_add_of_le hle
  clear hle
  induction steps with
  | zero => exact h
  | succ steps ih => exact ih (.loosen h)

/-- What an expression may start with. -/
def starts : TokenKind → Bool
  | .number _ | .string _ | .identifier _ => true
  | .symbol s => s ∈ [.parenOpen, .bracketOpen, .braceOpen, .bang, .minus, .plus, .tilde,
      .increment, .decrement]
  | _ => false

/-- No operator stands in front. -/
def isBare (kind : TokenKind) : Prop := unaryOp? kind = none ∧ UpdateOp.ofToken? kind = none

theorem starts_of_unary {kind : TokenKind} {op : UnaryOp} (h : unaryOp? kind = some op) :
    starts kind := by
  cases kind with
  | symbol s => cases s <;> first | rfl | cases h
  | identifier => rfl
  | _ => cases h

theorem starts_of_update {kind : TokenKind} {op : UpdateOp} (h : UpdateOp.ofToken? kind = some op) :
    starts kind := by
  cases kind with
  | symbol s => cases s <;> first | rfl | cases h
  | _ => cases h

/-- Only from an update behind the target on there is surely no operator in front. -/
theorem first : {level : Nat} → {ts : List Token} → {e : Expr} → Phrase level ts e →
    ∃ token rest, ts = token :: rest ∧ starts token.kind ∧ (15 ≤ level → isBare token.kind)
  | _, _, _, .loosen h => by
    obtain ⟨token, rest, hts, hstarts, hbare⟩ := h.first
    exact ⟨token, rest, hts, hstarts, fun hlevel => hbare (by omega)⟩
  | _, _, _, .number | _, _, _, .string => ⟨_, _, rfl, rfl, fun _ => ⟨rfl, rfl⟩⟩
  | _, _, _, .word hname => ⟨_, _, rfl, rfl, fun _ => ⟨if_neg hname, rfl⟩⟩
  | _, _, _, .parens _ => ⟨_, _, rfl, rfl, fun _ => ⟨rfl, rfl⟩⟩
  | _, _, _, .array _ => ⟨_, _, rfl, rfl, fun _ => ⟨rfl, rfl⟩⟩
  | _, _, _, .object _ => ⟨_, _, rfl, rfl, fun _ => ⟨rfl, rfl⟩⟩
  | _, _, _, .update hop _ => ⟨_, _, rfl, starts_of_update hop, by omega⟩
  | _, _, _, .unary hop _ => ⟨_, _, rfl, starts_of_unary hop, by omega⟩
  | _, _, _, .member h _ | _, _, _, .call h _ | _, _, _, .updated h _ => by
    obtain ⟨token, rest, rfl, hstarts, hbare⟩ := h.first
    exact ⟨token, _, rfl, hstarts, fun _ => hbare (by omega)⟩
  | _, _, _, .power h _ | _, _, _, .conditional h _ _ | _, _, _, .assignment h _ _ => by
    obtain ⟨token, rest, rfl, hstarts, -⟩ := h.first
    exact ⟨token, _, rfl, hstarts, by omega⟩
  | _, _, _, @Phrase.binary _ op _ _ _ _ _ _ h _ => by
    obtain ⟨token, rest, rfl, hstarts, -⟩ := h.first
    have hlevel := op.level_le
    exact ⟨token, _, rfl, hstarts, by omega⟩

/-- What an item or an entry may start with. -/
def startsItem (kind : TokenKind) : Bool := starts kind || kind = .symbol .ellipsis

theorem Item.first {element : Element} (h : Item ts element) :
    ∃ token rest, ts = token :: rest ∧ startsItem token.kind := by
  cases h with
  | single h =>
    obtain ⟨token, rest, hts, hstarts, -⟩ := h.first
    exact ⟨token, rest, hts, Bool.or_eq_true_iff.2 (.inl hstarts)⟩
  | spread h => exact ⟨_, _, rfl, rfl⟩

theorem Pair.first {entry : Entry} (h : Pair ts entry) :
    ∃ token rest, ts = token :: rest ∧ startsItem token.kind := by
  cases h <;> exact ⟨_, _, rfl, rfl⟩

end Phrase

end PromptTemplate
