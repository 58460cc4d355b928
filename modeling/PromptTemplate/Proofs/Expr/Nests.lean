import PromptTemplate.Proofs.Expr.Phrase

/-!
# The brackets of a phrase

Brackets of each kind are closed in a phrase as often as they are opened, and
never more often up to any place (`Phrase.nests`).
-/

namespace PromptTemplate

inductive Bracket where
  | paren | bracket | brace
deriving DecidableEq

namespace Bracket

def opening : Bracket → Symbol
  | paren => .parenOpen
  | bracket => .bracketOpen
  | brace => .braceOpen

def closing : Bracket → Symbol
  | paren => .parenClose
  | bracket => .bracketClose
  | brace => .braceClose

/-- How many are open behind the tokens, if as many are in front; none if one is closed that is not
open. -/
def depth? (b : Bracket) : Nat → List Token → Option Nat
  | depth, [] => some depth
  | depth, token :: rest =>
    if token.kind = .symbol b.opening then b.depth? (depth + 1) rest
    else if token.kind = .symbol b.closing then
      match depth with
      | 0 => none
      | depth + 1 => b.depth? depth rest
    else b.depth? depth rest

variable {b : Bracket} {depth depth' : Nat} {token : Token} {ts more : List Token}

theorem closing_ne_opening (b b' : Bracket) : b.closing ≠ b'.opening := by
  cases b <;> cases b' <;> decide

theorem opening_inj {b b' : Bracket} : b.opening = b'.opening ↔ b = b' := by
  cases b <;> cases b' <;> decide

theorem closing_inj {b b' : Bracket} : b.closing = b'.closing ↔ b = b' := by
  cases b <;> cases b' <;> decide

theorem depth?_opening (h : token.kind = .symbol b.opening) :
    b.depth? depth (token :: ts) = b.depth? (depth + 1) ts := by
  simp only [depth?, if_pos h]

theorem depth?_closing (h : token.kind = .symbol b.closing) :
    b.depth? (depth + 1) (token :: ts) = b.depth? depth ts := by
  have hopening : token.kind ≠ .symbol b.opening := by
    rw [h]
    simpa using b.closing_ne_opening b
  simp only [depth?, if_neg hopening, if_pos h]

theorem depth?_other (hopening : token.kind ≠ .symbol b.opening)
    (hclosing : token.kind ≠ .symbol b.closing) : b.depth? depth (token :: ts) = b.depth? depth ts := by
  simp only [depth?, if_neg hopening, if_neg hclosing]

theorem depth?_append : b.depth? depth (ts ++ more) = (b.depth? depth ts).bind (b.depth? · more) := by
  fun_induction depth? b depth ts with
  | case1 => rfl
  | case2 _ _ _ h ih => rw [List.cons_append, depth?_opening h, ih]
  | case3 _ _ _ h => simp [depth?, h, b.closing_ne_opening b]
  | case4 _ _ _ h _ ih => rw [List.cons_append, depth?_closing h, ih]
  | case5 _ _ _ h h' ih => rw [List.cons_append, depth?_other h h', ih]

/-- Brackets around the tokens stay open. -/
theorem depth?_add (h : b.depth? depth ts = some depth') (k : Nat) :
    b.depth? (depth + k) ts = some (depth' + k) := by
  fun_induction depth? b depth ts with
  | case1 => cases h; rfl
  | case2 depth token rest hkind ih => rw [depth?_opening hkind, Nat.add_right_comm, ih h]
  | case3 => cases h
  | case4 token rest _ hkind depth ih =>
    rw [Nat.succ_add, depth?_closing hkind, ih h]
  | case5 depth token rest hopening hclosing ih => rw [depth?_other hopening hclosing, ih h]

/-- Every opening bracket is closed or still open. -/
theorem depth?_count (h : b.depth? depth ts = some depth') :
    depth + (ts.map Token.kind).count (.symbol b.opening) =
      depth' + (ts.map Token.kind).count (.symbol b.closing) := by
  have hne : TokenKind.symbol b.closing ≠ .symbol b.opening := by simpa using b.closing_ne_opening b
  fun_induction depth? b depth ts with
  | case1 => cases h; rfl
  | case2 depth token rest hkind ih =>
    rw [List.map_cons, hkind, List.count_cons_self, List.count_cons_of_ne hne.symm]
    have := ih h
    omega
  | case3 => cases h
  | case4 token rest _ hkind depth ih =>
    rw [List.map_cons, hkind, List.count_cons_self, List.count_cons_of_ne hne]
    have := ih h
    omega
  | case5 depth token rest hopening hclosing ih =>
    rw [List.map_cons, List.count_cons_of_ne hopening, List.count_cons_of_ne hclosing, ih h]

end Bracket

/-- What stands in an expression. -/
def TokenKind.isWord : TokenKind → Bool
  | .identifier _ | .symbol _ | .number _ | .string _ => true
  | _ => false

/-- Words with their brackets closed. -/
structure Nests (ts : List Token) : Prop where
  depth (b : Bracket) (depth : Nat) : b.depth? depth ts = some depth
  words : ∀ token ∈ ts, token.kind.isWord

namespace Nests

variable {ts more : List Token} {token : Token}

theorem nil : Nests [] := ⟨fun _ _ => rfl, nofun⟩

theorem append (h : Nests ts) (hmore : Nests more) : Nests (ts ++ more) where
  depth b depth := by rw [Bracket.depth?_append, h.depth, Option.bind_some, hmore.depth]
  words := List.forall_mem_append.2 ⟨h.words, hmore.words⟩

/-- A word that is no bracket. -/
def IsPlain (kind : TokenKind) : Prop :=
  kind.isWord ∧ ∀ b : Bracket, kind ≠ .symbol b.opening ∧ kind ≠ .symbol b.closing

theorem cons (hkind : IsPlain token.kind) (h : Nests ts) : Nests (token :: ts) where
  depth b depth := by rw [Bracket.depth?_other (hkind.2 b).1 (hkind.2 b).2, h.depth]
  words := List.forall_mem_cons.2 ⟨hkind.1, h.words⟩

theorem wrap (b : Bracket) {opened closed : Span} (h : Nests ts) :
    Nests (⟨.symbol b.opening, opened⟩ :: ts ++ [⟨.symbol b.closing, closed⟩]) where
  depth b' depth := by
    by_cases hb : b = b'
    · subst hb
      rw [List.cons_append, Bracket.depth?_opening rfl, Bracket.depth?_append, h.depth,
        Option.bind_some, Bracket.depth?_closing rfl]
      rfl
    · have hopened : (⟨.symbol b.opening, opened⟩ : Token).kind ≠ .symbol b'.opening := by
        simpa [Bracket.opening_inj] using hb
      have hclosed : (⟨.symbol b.closing, closed⟩ : Token).kind ≠ .symbol b'.closing := by
        simpa [Bracket.closing_inj] using hb
      rw [List.cons_append, Bracket.depth?_other hopened, Bracket.depth?_append, h.depth,
        Option.bind_some, Bracket.depth?_other _ hclosed]
      · rfl
      · simpa using b.closing_ne_opening b'
      · simpa using (b'.closing_ne_opening b).symm
  words := by
    simp only [List.forall_mem_append, List.forall_mem_cons]
    exact ⟨⟨rfl, h.words⟩, rfl, nofun⟩

theorem single (hkind : IsPlain token.kind) : Nests [token] := cons hkind nil

-- ---------------------------------------------------------------------------
-- Operators
-- ---------------------------------------------------------------------------

theorem isPlain_symbol {s : Symbol} (h : ∀ b : Bracket, s ≠ b.opening ∧ s ≠ b.closing) :
    IsPlain (.symbol s) :=
  ⟨rfl, fun b => by simpa using h b⟩

instance (s : Symbol) : Decidable (∀ b : Bracket, s ≠ b.opening ∧ s ≠ b.closing) :=
  decidable_of_iff (∀ b ∈ [Bracket.paren, .bracket, .brace], s ≠ b.opening ∧ s ≠ b.closing)
    ⟨fun h b => h b (by cases b <;> simp), fun h b _ => h b⟩

theorem isPlain_identifier {name : String} : IsPlain (.identifier name) := ⟨rfl, fun _ => ⟨nofun, nofun⟩⟩

theorem isPlain_update {kind : TokenKind} {op : UpdateOp} (h : UpdateOp.ofToken? kind = some op) :
    IsPlain kind := by
  cases kind with
  | symbol s => cases s <;> first | exact isPlain_symbol (by decide) | cases h
  | _ => cases h

theorem isPlain_unary {kind : TokenKind} {op : UnaryOp} (h : Expr.unaryOp? kind = some op) :
    IsPlain kind := by
  cases kind with
  | symbol s => cases s <;> first | exact isPlain_symbol (by decide) | cases h
  | identifier => exact isPlain_identifier
  | _ => cases h

theorem isPlain_binary {kind : TokenKind} {op : BinaryOp} (h : BinaryOp.ofToken? kind = some op) :
    IsPlain kind := by
  cases kind with
  | symbol s => cases s <;> first | exact isPlain_symbol (by decide) | cases h
  | identifier => exact isPlain_identifier
  | _ => cases h

theorem isPlain_assign {kind : TokenKind} {op : AssignOp} (h : AssignOp.ofToken? kind = some op) :
    IsPlain kind := by
  cases kind with
  | symbol s => cases s <;> first | exact isPlain_symbol (by decide) | cases h
  | _ => cases h

end Nests

-- ---------------------------------------------------------------------------
-- Phrases
-- ---------------------------------------------------------------------------

/-- Tokens that nest, and the closing symbol behind them. -/
def ClosedBy (close : Symbol) (ts : List Token) : Prop :=
  ∃ inner last, ts = inner ++ [⟨.symbol close, last⟩] ∧ Nests inner

theorem ClosedBy.prepend {close : Symbol} {ts more : List Token} (h : Nests ts)
    (hmore : ClosedBy close more) : ClosedBy close (ts ++ more) := by
  obtain ⟨inner, last, rfl, hinner⟩ := hmore
  exact ⟨ts ++ inner, last, (List.append_assoc ..).symm, h.append hinner⟩

theorem ClosedBy.nests (b : Bracket) {opened : Span} {ts : List Token} (h : ClosedBy b.closing ts) :
    Nests (⟨.symbol b.opening, opened⟩ :: ts) := by
  obtain ⟨inner, last, rfl, hinner⟩ := h
  exact hinner.wrap b

namespace Phrase

open Nests

mutual

theorem nests : {level : Nat} → {ts : List Token} → {e : Expr} → Phrase level ts e → Nests ts
  | _, _, _, .loosen h => h.nests
  | _, _, _, .number | _, _, _, .string => .single ⟨rfl, fun _ => ⟨nofun, nofun⟩⟩
  | _, _, _, .word _ => .single isPlain_identifier
  | _, _, _, .parens h => h.nests.wrap .paren
  | _, _, _, .array h => h.closedBy.nests .bracket
  | _, _, _, .object h => h.closedBy.nests .brace
  | _, _, _, .member h hkey => h.nests.append hkey.nests
  | _, _, _, .call h harguments => h.nests.append (harguments.closedBy.nests .paren)
  | _, _, _, .updated h hop => h.nests.append (.single (isPlain_update hop))
  | _, _, _, .update hop h => h.nests.cons (isPlain_update hop)
  | _, _, _, .unary hop h => h.nests.cons (isPlain_unary hop)
  | _, _, _, .power hbase hexponent =>
    hbase.nests.append (hexponent.nests.cons (isPlain_symbol (by decide)))
  | _, _, _, .binary hop _ hleft hright =>
    hleft.nests.append (hright.nests.cons (isPlain_binary hop))
  | _, _, _, .conditional htest hyes hno =>
    htest.nests.append <| .cons (isPlain_symbol (by decide)) <|
      hyes.nests.append (hno.nests.cons (isPlain_symbol (by decide)))
  | _, _, _, .assignment htarget hop hvalue =>
    htarget.nests.append (hvalue.nests.cons (isPlain_assign hop))

theorem Item.nests : {ts : List Token} → {element : Element} → Item ts element → Nests ts
  | _, _, .single h => h.nests
  | _, _, .spread h => h.nests.cons (isPlain_symbol (by decide))

theorem Elements.closedBy : {close : Symbol} → {ts : List Token} → {elements : List Element} →
    {last : Span} → Elements close ts elements last → ClosedBy close ts
  | _, _, _, _, .nil => ⟨[], _, rfl, .nil⟩
  | _, _, _, _, .last h => ⟨_, _, rfl, h.nests⟩
  | _, _, _, _, .cons h hmore => by
    rw [List.append_cons]
    exact hmore.closedBy.prepend (h.nests.append (.single (isPlain_symbol (by decide))))

theorem Pair.nests : {ts : List Token} → {entry : Entry} → Pair ts entry → Nests ts
  | _, _, .short => .single isPlain_identifier
  | _, _, .word h => (h.nests.cons (isPlain_symbol (by decide))).cons isPlain_identifier
  | _, _, .string h =>
    (h.nests.cons (isPlain_symbol (by decide))).cons ⟨rfl, fun _ => ⟨nofun, nofun⟩⟩
  | _, _, .computed hkey h => by
    rw [List.append_cons, ← List.cons_append]
    exact (hkey.nests.wrap .bracket).append (h.nests.cons (isPlain_symbol (by decide)))
  | _, _, .spread h => h.nests.cons (isPlain_symbol (by decide))

theorem Entries.closedBy : {ts : List Token} → {entries : List Entry} → {last : Span} →
    Entries ts entries last → ClosedBy .braceClose ts
  | _, _, _, .nil => ⟨[], _, rfl, .nil⟩
  | _, _, _, .last h => ⟨_, _, rfl, h.nests⟩
  | _, _, _, .cons h hmore => by
    rw [List.append_cons]
    exact hmore.closedBy.prepend (h.nests.append (.single (isPlain_symbol (by decide))))

theorem Key.nests : {optional : Bool} → {ts : List Token} → {property : Property} → {last : Span} →
    Key optional ts property last → Nests ts
  | _, _, _, _, .named | _, _, _, _, .optionalNamed =>
    (Nests.single isPlain_identifier).cons (isPlain_symbol (by decide))
  | _, _, _, _, .computed h => h.nests.wrap .bracket
  | _, _, _, _, .optionalComputed h => (h.nests.wrap .bracket).cons (isPlain_symbol (by decide))

end

end Phrase

end PromptTemplate
