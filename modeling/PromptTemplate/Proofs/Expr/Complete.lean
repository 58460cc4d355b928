import PromptTemplate.Proofs.Expr.Phrase
import PromptTemplate.Proofs.Parser.Becomes

/-!
# Every phrase is read

The parser of a level takes the tokens of each phrase of that level and gives
its expression, if nothing is ahead that the level could go on with
(`Phrase.read`).
-/

namespace PromptTemplate

open PromptTemplate.Parser PromptTemplate.Expr

-- ---------------------------------------------------------------------------
-- What is ahead
-- ---------------------------------------------------------------------------

/-- The level on which a token goes on with an expression, if it does. -/
def TokenKind.joins? : TokenKind → Option Nat
  | .symbol .dot | .symbol .optionalDot | .symbol .bracketOpen | .symbol .parenOpen => some 16
  | .symbol .increment | .symbol .decrement => some 15
  | .symbol .question => some 1
  | kind =>
    match BinaryOp.ofToken? kind with
    | some op => some (op.level + 2)
    | none => (AssignOp.ofToken? kind).map fun _ => 0

theorem BinaryOp.joins? {op : BinaryOp} {kind : TokenKind} (h : ofToken? kind = some op) :
    kind.joins? = some (op.level + 2) := by
  cases kind with
  | symbol s => cases s <;> cases h <;> rfl
  | identifier name => simp [TokenKind.joins?, h]
  | _ => cases h

theorem UpdateOp.joins? {op : UpdateOp} {kind : TokenKind} (h : ofToken? kind = some op) :
    kind.joins? = some 15 := by
  cases kind with
  | symbol s => cases s <;> cases h <;> rfl
  | _ => cases h

theorem AssignOp.joins? {op : AssignOp} {kind : TokenKind} (h : ofToken? kind = some op) :
    kind.joins? = some 0 := by
  cases kind with
  | symbol s => cases s <;> cases h <;> rfl
  | _ => cases h

theorem TokenKind.joins?_le {kind : TokenKind} {n : Nat} (h : kind.joins? = some n) : n ≤ 16 := by
  cases kind with
  | symbol s => cases s <;> cases h <;> decide
  | identifier name =>
    simp only [joins?, AssignOp.ofToken?, Option.map_none] at h
    split at h
    · rename_i op _
      cases h
      exact Nat.le_trans (Nat.add_le_add_right op.level_le 2) (by decide)
    · cases h
  | _ => cases h

/-- An expression of the level does not go on with what is ahead. -/
def After (level : Nat) (next : Option TokenKind) : Prop :=
  ∀ n, next.bind TokenKind.joins? = some n → n < level

namespace After

variable {level level' n : Nat} {next : Option TokenKind} {kind : TokenKind}

theorem mono (h : After level next) (hle : level ≤ level') : After level' next :=
  fun n hn => Nat.lt_of_lt_of_le (h n hn) hle

theorem of_joins (h : kind.joins? = some n) (hn : n < level) : After level (some kind) := by
  rintro _ hkind
  rw [Option.bind_some, h] at hkind
  cases hkind
  exact hn

theorem of_none (h : kind.joins? = none) : After level (some kind) := by
  intro n hn
  rw [Option.bind_some, h] at hn
  cases hn

theorem not_joins (h : After level (some kind)) (hlevel : level ≤ n) : kind.joins? ≠ some n :=
  fun hn => absurd (h n hn) (Nat.not_lt.2 hlevel)

theorem update (h : After level next) (hlevel : level ≤ 15) :
    next.bind UpdateOp.ofToken? = none := by
  cases next with
  | none => rfl
  | some kind =>
    refine Option.eq_none_iff_forall_not_mem.2 fun op hop => ?_
    exact h.not_joins hlevel (UpdateOp.joins? hop)

theorem assign (h : After 0 next) : next.bind AssignOp.ofToken? = none := by
  cases next with
  | none => rfl
  | some kind =>
    refine Option.eq_none_iff_forall_not_mem.2 fun op hop => ?_
    exact h.not_joins (Nat.le_refl 0) (AssignOp.joins? hop)

theorem binary {k : Nat} (h : After (k + 2) next) :
    (next.bind BinaryOp.ofToken?).filter (·.level = k) = none := by
  rw [Option.filter_eq_none_iff]
  cases next with
  | none => nofun
  | some kind =>
    intro op hop hlevel
    obtain rfl : op.level = k := of_decide_eq_true hlevel
    exact h.not_joins (Nat.le_refl _) (BinaryOp.joins? hop)

theorem ne_symbol {s : Symbol} (h : After level next) (hs : (TokenKind.symbol s).joins? = some n)
    (hlevel : level ≤ n) : next ≠ some (.symbol s) := by
  rintro rfl
  exact h.not_joins hlevel hs

end After

-- ---------------------------------------------------------------------------
-- Levels
-- ---------------------------------------------------------------------------

namespace Expr

section
variable (nested : Parser Expr) (budget : Nat)

/-- The levels of the binary operators from one on, down to powers. -/
def binariesFrom (k : Nat) : Parser Expr :=
  ((List.range BinaryOp.power.level).drop k).foldr (leftGrouped budget) (powers nested budget)

theorem binariesFrom_of_lt {k : Nat} (h : k < 11) :
    binariesFrom nested budget k = leftGrouped budget k (binariesFrom nested budget (k + 1)) := by
  rw [binariesFrom, List.drop_eq_getElem_cons (by rwa [List.length_range]), List.getElem_range]
  rfl

/-- The parser of a level. -/
def atLevel (level : Nat) : Parser Expr :=
  if level < 2 then conditionals nested budget
  else if level < 14 then binariesFrom nested budget (level - 2)
  else if level = 14 then prefixed nested budget
  else if level = 15 then updated nested budget
  else if level = 16 then primary nested budget >>= links nested budget
  else primary nested budget

/-- Where the parser of a level is once it has an expression. On some levels it goes on with that
expression, for so many more rounds. -/
def onward (rounds level : Nat) : Expr → Parser Expr :=
  if 2 ≤ level ∧ level < 13 then operations (binariesFrom nested budget (level - 1)) (level - 2) rounds
  else if level = 16 then links nested rounds
  else pure

theorem atLevel_binary {k : Nat} (h : k ≤ 11) :
    atLevel nested budget (k + 2) = binariesFrom nested budget k := by
  rw [atLevel, if_neg (by omega), if_pos (by omega)]
  rfl

theorem onward_binary {k : Nat} (h : k < 11) (rounds : Nat) :
    onward nested budget rounds (k + 2) =
      operations (binariesFrom nested budget (k + 1)) k rounds := by
  rw [onward, if_pos (by omega)]
  rfl

end

/-- What may be ahead where it goes on: nothing that belongs to a tighter level. -/
def AheadOf (level : Nat) : Option TokenKind → Prop :=
  if level = 16 ∨ 2 ≤ level ∧ level < 13 then After (level + 1) else After level

theorem aheadOf_of_after {level : Nat} {next : Option TokenKind} (h : After level next) :
    AheadOf level next := by
  unfold AheadOf
  split
  · exact h.mono (Nat.le_succ _)
  · exact h

theorem after_of_aheadOf {level : Nat} {next : Option TokenKind} (h : AheadOf level next) :
    After (level + 1) next := by
  unfold AheadOf at h
  split at h
  · exact h
  · exact h.mono (Nat.le_succ _)

variable {nested : Parser Expr} {ahead : Option TokenKind → Prop} {base left right : Expr}
  {rounds budget : Nat}

-- ---------------------------------------------------------------------------
-- Loops
-- ---------------------------------------------------------------------------

theorem links_done : Becomes (links nested (rounds + 1) base) [] (After 16) (pure base) := by
  rw [links]
  refine .peekKind_end fun k hk => ?_
  split
  · exact absurd rfl (hk.ne_symbol rfl (Nat.le_refl _))
  · exact absurd rfl (hk.ne_symbol rfl (Nat.le_refl _))
  · exact absurd rfl (hk.ne_symbol rfl (Nat.le_refl _))
  · exact absurd rfl (hk.ne_symbol rfl (Nat.le_refl _))
  · exact .refl _

theorem operations_done {operand : Parser Expr} {k : Nat} :
    Becomes (operations operand k (rounds + 1) left) [] (After (k + 2)) (pure left) := by
  rw [operations, peekOperator, bind_assoc]
  refine .peekKind_end fun next hnext => ?_
  rw [pure_bind, hnext.binary]
  exact .refl _

theorem operations_next {operand : Parser Expr} {op : BinaryOp} {token : Token} {ts : List Token}
    (hop : BinaryOp.ofToken? token.kind = some op)
    (hright : Becomes operand ts (After (op.level + 3)) (pure right)) :
    Becomes (operations operand op.level (rounds + 1) left) (token :: ts) (After (op.level + 3))
      (operations operand op.level rounds (.binary (left.span.join right.span) op left right)) := by
  rw [operations, peekOperator, bind_assoc]
  refine .peekKind ?_
  simp only [pure_bind, Option.bind_some, hop, Option.filter_some, decide_true, if_true, discard_bind]
  exact .take (.last hright (fun _ => id) (.refl _))

theorem onward_done {level : Nat} :
    Becomes (onward nested budget (rounds + 1) level base) [] (After level) (pure base) := by
  unfold onward
  split
  · rename_i hlevel
    obtain ⟨k, rfl⟩ := Nat.exists_eq_add_of_le' hlevel.1
    exact operations_done
  · split
    · rename_i hlevel
      subst hlevel
      exact links_done
    · exact .refl _

-- ---------------------------------------------------------------------------
-- Lists
-- ---------------------------------------------------------------------------

def item (nested : Parser Expr) : Parser Element := do
  let spread := (← takeSymbol .ellipsis).isSome
  let value ← nested
  return if spread then .spread value else .single value

/-- A list from behind its first item on. -/
def itemsAfter {α : Type} (close : Symbol) (items : Parser (List α × Span)) (first : α) :
    Parser (List α × Span) := do
  match ← takeSymbol .comma with
  | some _ =>
    let (more, span) ← items
    return (first :: more, span)
  | none => return ([first], (← expectSymbol close).span)

theorem elements_succ (nested : Parser Expr) (close : Symbol) (rounds : Nat) :
    elements nested close (rounds + 1) = (do
      match ← takeSymbol close with
      | some token => return ([], token.span)
      | none => itemsAfter close (elements nested close rounds) (← item nested)) := by
  simp only [elements, item, bind_assoc, pure_bind]
  rfl

theorem entries_succ (nested : Parser Expr) (rounds : Nat) :
    entries nested (rounds + 1) = (do
      match ← takeSymbol .braceClose with
      | some token => return ([], token.span)
      | none => itemsAfter .braceClose (entries nested rounds) (← entry nested)) :=
  rfl

section
variable {α : Type} {close : Symbol} {items : Parser (List α × Span)} {first : α} {place : Span}

theorem itemsAfter_last (hclose : close ≠ .comma) :
    Becomes (itemsAfter close items first) [⟨.symbol close, place⟩] ahead
      (pure ([first], place)) := by
  refine .takeSymbol_none ?_ (.expectSymbol (.refl _))
  rintro _ rfl hcomma
  cases hcomma
  exact hclose rfl

theorem itemsAfter_more {more : List α} {last : Span} {ts : List Token}
    (h : Becomes items ts ahead (pure (more, last))) :
    Becomes (itemsAfter close items first) (⟨.symbol .comma, place⟩ :: ts) ahead
      (pure (first :: more, last)) :=
  .takeSymbol (.last h (fun _ => id) (.refl _))

end

/-- Reads every phrase of fewer tokens than the bound. -/
def ReadsPhrases (nested : Parser Expr) (bound : Nat) : Prop :=
  ∀ ts e, Phrase 0 ts e → ts.length < bound → Becomes nested ts (After 0) (pure e)

section
variable {bound : Nat} (hnested : ReadsPhrases nested bound) {ts more : List Token}
include hnested

theorem item_read {element : Element} (h : Phrase.Item ts element) (hlength : ts.length < bound) :
    Becomes (item nested) ts (After 0) (pure element) := by
  cases h with
  | single h =>
    refine .takeSymbol_none ?_ (.last (hnested _ _ h hlength) (fun _ => id) (.refl _))
    obtain ⟨token, rest, rfl, hstarts, -⟩ := h.first
    rintro _ rfl hfound
    rw [Option.some.inj hfound] at hstarts
    cases hstarts
  | spread h =>
    exact .takeSymbol (.last (hnested _ _ h (Nat.lt_of_succ_lt hlength)) (fun _ => id) (.refl _))

theorem entry_read {e : Entry} (h : Phrase.Pair ts e) (hlength : ts.length < bound) :
    Becomes (entry nested) ts (fun k => After 0 k ∧ k ≠ some (.symbol .colon)) (pure e) := by
  have hvalue {ts e f} {q : Parser Entry} (h : Phrase 0 ts e) (hlength : ts.length < bound)
      (hq : f e = q) : Becomes (nested >>= f) ts (fun k => After 0 k ∧ k ≠ some (.symbol .colon)) q :=
    .last (hnested _ _ h hlength) (fun _ hk => hk.1) (hq ▸ .refl _)
  rw [entry]
  cases h with
  | spread h => exact .takeSymbol (hvalue h (Nat.lt_of_succ_lt hlength) rfl)
  | short =>
    refine .takeSymbol_none (by rintro _ rfl ⟨⟩) (.takeRequired (.peekKind_end fun k hk => ?_))
    rw [if_neg hk.2]
    exact .refl _
  | word h =>
    refine .takeSymbol_none (by rintro _ rfl ⟨⟩) (.takeRequired (.peekKind ?_))
    simp only [if_true, discard_bind]
    exact .expectSymbol (hvalue h (Nat.lt_of_succ_lt (Nat.lt_of_succ_lt hlength)) rfl)
  | string h =>
    refine .takeSymbol_none (by rintro _ rfl ⟨⟩) (.takeRequired ?_)
    simp only [discard_bind]
    exact .expectSymbol (hvalue h (Nat.lt_of_succ_lt (Nat.lt_of_succ_lt hlength)) rfl)
  | computed hkey h =>
    simp only [List.length_cons, List.length_append] at hlength
    refine .takeSymbol_none (by rintro _ rfl ⟨⟩) (.takeRequired ?_)
    simp only [discard_bind]
    refine .seq (hnested _ _ hkey (by omega)) (by rintro _ rfl; exact .of_none rfl) ?_
    exact .expectSymbol (.expectSymbol (hvalue h (by omega) rfl))

section
variable {close : Symbol} (hclose : close = .parenClose ∨ close = .bracketClose) {rounds : Nat}
include hclose

/-- The first item stands where the list might have ended. -/
theorem elements_item {element : Element} {q : Parser (List Element × Span)}
    (h : Phrase.Item ts element) (hlength : ts.length < bound)
    (hahead : ∀ k, Seen ahead (more.map Token.kind) k → After 0 k)
    (hmore : Becomes (itemsAfter close (elements nested close rounds) element) more ahead q) :
    Becomes (elements nested close (rounds + 1)) (ts ++ more) ahead q := by
  rw [elements_succ]
  refine .takeSymbol_none ?_ (.seq (item_read hnested h hlength) hahead hmore)
  obtain ⟨token, rest, rfl, hstarts⟩ := h.first
  rintro _ rfl hfound
  rw [Option.some.inj hfound] at hstarts
  rcases hclose with rfl | rfl <;> cases hstarts

theorem elements_read {elements : List Element} {last : Span}
    (h : Phrase.Elements close ts elements last) (hlength : ts.length ≤ bound)
    (hrounds : ts.length ≤ rounds) :
    Becomes (Expr.elements nested close rounds) ts ahead (pure (elements, last)) := by
  have hcomma : close ≠ .comma := by rcases hclose with rfl | rfl <;> nofun
  induction rounds generalizing ts elements with
  | zero => cases h <;> simp at hrounds
  | succ rounds ih =>
    cases h with
    | nil =>
      rw [elements_succ]
      exact .takeSymbol (.refl _)
    | last h =>
      rw [List.length_append] at hlength
      refine elements_item hnested hclose h hlength ?_ (itemsAfter_last hcomma)
      rintro _ rfl
      rcases hclose with rfl | rfl <;> exact .of_none rfl
    | cons h hmore =>
      simp only [List.length_append, List.length_cons] at hlength hrounds
      refine elements_item hnested hclose h (by omega) ?_ (itemsAfter_more ?_)
      · rintro _ rfl
        exact .of_none rfl
      · exact ih hmore (by omega) (by omega)

end

theorem entries_pair {e : Entry} {rounds : Nat} {q : Parser (List Entry × Span)}
    (h : Phrase.Pair ts e) (hlength : ts.length < bound)
    (hahead : ∀ k, Seen ahead (more.map Token.kind) k → After 0 k ∧ k ≠ some (.symbol .colon))
    (hmore : Becomes (itemsAfter .braceClose (entries nested rounds) e) more ahead q) :
    Becomes (entries nested (rounds + 1)) (ts ++ more) ahead q := by
  rw [entries_succ]
  refine .takeSymbol_none ?_ (.seq (entry_read hnested h hlength) hahead hmore)
  obtain ⟨token, rest, rfl, hstarts⟩ := h.first
  rintro _ rfl hfound
  rw [Option.some.inj hfound] at hstarts
  cases hstarts

theorem entries_read {entries : List Entry} {last : Span} {rounds : Nat}
    (h : Phrase.Entries ts entries last) (hlength : ts.length ≤ bound)
    (hrounds : ts.length ≤ rounds) :
    Becomes (Expr.entries nested rounds) ts ahead (pure (entries, last)) := by
  induction rounds generalizing ts entries with
  | zero => cases h <;> simp at hrounds
  | succ rounds ih =>
    cases h with
    | nil =>
      rw [entries_succ]
      exact .takeSymbol (.refl _)
    | last h =>
      rw [List.length_append] at hlength
      refine entries_pair hnested h hlength ?_ (itemsAfter_last (by simp))
      rintro _ rfl
      exact ⟨.of_none rfl, by simp⟩
    | cons h hmore =>
      simp only [List.length_append, List.length_cons] at hlength hrounds
      refine entries_pair hnested h (by omega) ?_ (itemsAfter_more ?_)
      · rintro _ rfl
        exact ⟨.of_none rfl, by simp⟩
      · exact ih hmore (by omega) (by omega)

-- ---------------------------------------------------------------------------
-- Links
-- ---------------------------------------------------------------------------

theorem bracketKey_read {key : Expr} {f : Property × Span → Parser Expr} {q : Parser Expr}
    {last : Span} (h : Phrase 0 ts key) (hlength : ts.length < bound)
    (hf : f (.computed key, last) = q) :
    Becomes (bracketKey nested >>= f) (ts ++ [⟨.symbol .bracketClose, last⟩]) ahead q := by
  rw [bracketKey, bind_assoc]
  refine .seq (hnested _ _ h hlength) (by rintro _ rfl; exact .of_none rfl) ?_
  rw [bind_assoc]
  exact .expectSymbol (by rw [pure_bind, hf]; exact .refl _)

theorem links_key {optional : Bool} {property : Property} {last : Span} {rounds : Nat}
    (h : Phrase.Key optional ts property last) (hlength : ts.length ≤ bound) :
    Becomes (links nested (rounds + 1) base) ts ahead
      (links nested rounds (.member (base.span.join last) base property optional)) := by
  have hname {word} {place : Span} {f : Property × Span → Parser Expr} :
      Becomes (namedKey >>= f) [⟨.identifier word, place⟩] ahead (f (.named word, place)) := by
    rw [namedKey, bind_assoc]
    exact .name (.refl _)
  rw [links]
  cases h with
  | named =>
    refine .peekKind ?_
    simp only [discard_bind]
    exact .take hname
  | optionalNamed =>
    refine .peekKind ?_
    simp only [discard_bind]
    exact .take (.takeSymbol_none (by rintro _ rfl ⟨⟩) hname)
  | computed h =>
    refine .peekKind ?_
    simp only [discard_bind]
    exact .take (bracketKey_read hnested h (by simp at hlength; omega) rfl)
  | optionalComputed h =>
    refine .peekKind ?_
    simp only [discard_bind]
    exact .take (.takeSymbol (bracketKey_read hnested h (by simp at hlength; omega) rfl))

theorem links_arguments {arguments : List Element} {opened last : Span} {rounds : Nat}
    (h : Phrase.Elements .parenClose ts arguments last) (hlength : ts.length ≤ bound)
    (hrounds : ts.length ≤ rounds + 1) :
    Becomes (links nested (rounds + 1) base) (⟨.symbol .parenOpen, opened⟩ :: ts) ahead
      (links nested rounds (.call (base.span.join last) base arguments)) := by
  rw [links]
  refine .peekKind ?_
  simp only [discard_bind]
  exact .take (.last (elements_read hnested (.inl rfl) h hlength hrounds) (fun _ => id) (.refl _))

end

/-- No token binds tighter than a link. -/
theorem after_link {next : Option TokenKind} : AheadOf 16 next := by
  intro n hn
  obtain ⟨kind, rfl, hkind⟩ := Option.bind_eq_some_iff.1 hn
  exact Nat.lt_succ_of_le (TokenKind.joins?_le hkind)

-- ---------------------------------------------------------------------------
-- From one level to the next
-- ---------------------------------------------------------------------------

section
variable {level : Nat} {ts : List Token} {e : Expr}

theorem read_of_goes
    (h : Becomes (atLevel nested (budget + 1) level) ts (AheadOf level)
      (onward nested (budget + 1) (rounds + 1) level e)) :
    Becomes (atLevel nested (budget + 1) level) ts (After level) (pure e) :=
  .done h (fun _ => aheadOf_of_after) onward_done

theorem leftGrouped_goes {k : Nat} (hk : k < 11)
    (h : Becomes (atLevel nested budget (k + 3)) ts (After (k + 3)) (pure e)) :
    Becomes (atLevel nested budget (k + 2)) ts (AheadOf (k + 2)) (onward nested budget budget (k + 2) e) := by
  rw [atLevel_binary nested budget (Nat.succ_le_of_lt hk)] at h
  rw [atLevel_binary nested budget (Nat.le_of_lt hk), binariesFrom_of_lt nested budget hk,
    onward_binary nested budget hk, leftGrouped, AheadOf, if_pos (by omega)]
  exact .last h (fun _ => id) (.refl _)

/-- What a tighter level reads is read on a looser one, too. -/
theorem looser_goes (hphrase : Phrase (level + 1) ts e) (hlevel : 1 ≤ level)
    (h : Becomes (atLevel nested (budget + 1) (level + 1)) ts (After (level + 1)) (pure e)) :
    Becomes (atLevel nested (budget + 1) level) ts (AheadOf level)
      (onward nested (budget + 1) (budget + 1) level e) := by
  by_cases hbinary : 2 ≤ level ∧ level < 13
  · obtain ⟨k, rfl⟩ := Nat.exists_eq_add_of_le' hbinary.1
    exact leftGrouped_goes (by omega) h
  by_cases htight : 17 ≤ level
  · rw [atLevel, if_neg (by omega), if_neg (by omega), if_neg (by omega), if_neg (by omega),
      if_neg (by omega)] at h ⊢
    rw [onward, if_neg (by omega), if_neg (by omega)]
    exact h.mono fun _ => after_of_aheadOf
  obtain rfl | rfl | rfl | rfl | rfl : level = 1 ∨ level = 13 ∨ level = 14 ∨ level = 15 ∨ level = 16 := by
    omega
  · change Becomes (conditionals nested (budget + 1)) ts (After 1) (pure e)
    rw [conditionals]
    refine .last h (fun _ hk => hk.mono (by omega)) ?_
    exact .takeSymbol_none (fun _ hk => hk.ne_symbol rfl (Nat.le_refl 1)) (.refl _)
  · change Becomes (powers nested (budget + 1)) ts (After 13) (pure e)
    rw [powers]
    refine .last h (fun _ hk => hk.mono (by omega)) ?_
    exact .takeSymbol_none (fun _ hk => hk.ne_symbol rfl (Nat.le_refl 13)) (.refl _)
  · change Becomes (prefixed nested (budget + 1)) ts (After 14) (pure e)
    obtain ⟨token, rest, rfl, -, hbare⟩ := hphrase.first
    obtain ⟨hunary, hupdate⟩ := hbare (Nat.le_refl 15)
    rw [prefixed]
    refine .peek ?_
    simp only [hunary, hupdate]
    exact h.mono fun _ hk => hk.mono (by omega)
  · change Becomes (updated nested (budget + 1)) ts (After 15) (pure e)
    rw [updated, ← bind_assoc]
    refine .last h (fun _ hk => hk.mono (by omega)) (.peekKind_end fun next hnext => ?_)
    rw [hnext.update (Nat.le_refl 15)]
    exact .refl _
  · change Becomes (primary nested (budget + 1) >>= links nested (budget + 1)) ts (After 17)
      (links nested (budget + 1) e)
    exact .last h (fun _ => id) (.refl _)

/-- Where the parser of a level gets to on the tokens of a phrase; each round takes a token. -/
def GoesOn (nested : Parser Expr) (level : Nat) (ts : List Token) (e : Expr) : Prop :=
  ∀ budget, ts.length ≤ budget → ∃ rounds, budget ≤ rounds + ts.length ∧
    Becomes (atLevel nested (budget + 1) level) ts (AheadOf level)
      (onward nested (budget + 1) (rounds + 1) level e)

theorem GoesOn.read (h : GoesOn nested level ts e) (hlength : ts.length ≤ budget) :
    Becomes (atLevel nested (budget + 1) level) ts (After level) (pure e) := by
  obtain ⟨rounds, -, h⟩ := h budget hlength
  exact read_of_goes h

/-- Levels without a loop. -/
theorem goesOn_of_read (hlevel : level < 2 ∨ 13 ≤ level ∧ level ≠ 16)
    (h : ∀ budget, ts.length ≤ budget →
      Becomes (atLevel nested (budget + 1) level) ts (After level) (pure e)) :
    GoesOn nested level ts e := by
  intro budget hlength
  refine ⟨budget, Nat.le_add_right _ _, ?_⟩
  rw [onward, if_neg (by omega), if_neg (by omega), AheadOf, if_neg (by omega)]
  exact h budget hlength

end

section
variable {bound : Nat} (hnested : ReadsPhrases nested bound) {ts : List Token} {e : Expr}
include hnested

omit hnested in
theorem ofWord_goesOn {place : Span} {name : String} :
    GoesOn nested 17 [⟨.identifier name, place⟩] (ofWord place name) :=
  goesOn_of_read (by omega) fun _ _ => .takeRequired (.refl _)

theorem parens_goesOn {opened closed : Span} (h : Phrase 0 ts e) (hlength : ts.length < bound) :
    GoesOn nested 17 (⟨.symbol .parenOpen, opened⟩ :: ts ++ [⟨.symbol .parenClose, closed⟩]) e := by
  refine goesOn_of_read (by omega) fun budget _ => .takeRequired ?_
  simp only [discard_bind]
  refine .seq (hnested _ _ h hlength) (by rintro _ rfl; exact .of_none rfl) ?_
  exact .expectSymbol (.refl _)

theorem array_goesOn {opened last : Span} {elements : List Element}
    (h : Phrase.Elements .bracketClose ts elements last) (hlength : ts.length ≤ bound) :
    GoesOn nested 17 (⟨.symbol .bracketOpen, opened⟩ :: ts) (.array (opened.join last) elements) := by
  refine goesOn_of_read (by omega) fun budget hbudget => .takeRequired ?_
  have hbudget : ts.length ≤ budget + 1 := by simp at hbudget; omega
  exact .last (elements_read hnested (.inr rfl) h hlength hbudget) (fun _ => id) (.refl _)

theorem object_goesOn {opened last : Span} {entries : List Entry}
    (h : Phrase.Entries ts entries last) (hlength : ts.length ≤ bound) :
    GoesOn nested 17 (⟨.symbol .braceOpen, opened⟩ :: ts) (.object (opened.join last) entries) := by
  refine goesOn_of_read (by omega) fun budget hbudget => .takeRequired ?_
  have hbudget : ts.length ≤ budget + 1 := by simp at hbudget; omega
  exact .last (entries_read hnested h hlength hbudget) (fun _ => id) (.refl _)

theorem member_goesOn {optional : Bool} {key : List Token} {property : Property} {last : Span}
    (h : GoesOn nested 16 ts e) (hkey : Phrase.Key optional key property last)
    (hlength : key.length ≤ bound) :
    GoesOn nested 16 (ts ++ key) (.member (e.span.join last) e property optional) := by
  intro budget hbudget
  have hpos : 0 < key.length := by cases hkey <;> exact Nat.zero_lt_succ _
  rw [List.length_append] at hbudget
  obtain ⟨rounds, hrounds, h⟩ := h budget (by omega)
  obtain ⟨rounds, rfl⟩ : ∃ r, rounds = r + 1 := Nat.exists_eq_add_one_of_ne_zero (by omega)
  refine ⟨rounds, by rw [List.length_append]; omega, ?_⟩
  exact .trans h (fun _ _ => after_link) (links_key hnested hkey hlength)

theorem call_goesOn {opened last : Span} {more : List Token} {arguments : List Element}
    (h : GoesOn nested 16 ts e) (harguments : Phrase.Elements .parenClose more arguments last)
    (hlength : more.length ≤ bound) :
    GoesOn nested 16 (ts ++ ⟨.symbol .parenOpen, opened⟩ :: more)
      (.call (e.span.join last) e arguments) := by
  intro budget hbudget
  rw [List.length_append, List.length_cons] at hbudget
  obtain ⟨rounds, hrounds, h⟩ := h budget (by omega)
  obtain ⟨rounds, rfl⟩ : ∃ r, rounds = r + 1 := Nat.exists_eq_add_one_of_ne_zero (by omega)
  refine ⟨rounds, by rw [List.length_append, List.length_cons]; omega, ?_⟩
  exact .trans h (fun _ _ => after_link) (links_arguments hnested harguments hlength (by omega))

omit hnested

theorem updated_goesOn {token : Token} {op : UpdateOp} (h : GoesOn nested 16 ts e)
    (hop : UpdateOp.ofToken? token.kind = some op) :
    GoesOn nested 15 (ts ++ [token]) (.update (e.span.join token.span) op .after e) := by
  refine goesOn_of_read (by omega) fun budget hbudget => ?_
  rw [List.length_append] at hbudget
  change Becomes (updated nested (budget + 1)) _ _ _
  rw [updated, ← bind_assoc]
  refine .seq (h.read (by omega)) ?_ (.peekKind ?_)
  · rintro _ rfl
    exact .of_joins (UpdateOp.joins? hop) (by omega)
  · simp only [Option.bind_some, hop]
    exact .takeRequired (.refl _)

theorem update_goesOn {token : Token} {op : UpdateOp} (h : GoesOn nested 14 ts e)
    (hop : UpdateOp.ofToken? token.kind = some op) :
    GoesOn nested 14 (token :: ts) (.update (token.span.join e.span) op .before e) := by
  refine goesOn_of_read (by omega) fun budget hbudget => ?_
  obtain ⟨budget, rfl⟩ : ∃ b, budget = b + 1 :=
    Nat.exists_eq_add_one_of_ne_zero (Nat.ne_of_gt (Nat.lt_of_lt_of_le (Nat.succ_pos _) hbudget))
  have hunary : unaryOp? token.kind = none := by
    obtain ⟨kind, place⟩ := token
    cases kind with
    | symbol s => cases s <;> first | rfl | cases hop
    | _ => cases hop
  change Becomes (prefixed nested (budget + 2)) _ _ _
  rw [prefixed]
  refine .peek ?_
  simp only [hunary, hop, discard_bind]
  exact .take (.last (h.read (Nat.le_of_succ_le_succ hbudget)) (fun _ => id) (.refl _))

theorem unary_goesOn {token : Token} {op : UnaryOp} (h : GoesOn nested 14 ts e)
    (hop : unaryOp? token.kind = some op) :
    GoesOn nested 14 (token :: ts) (.unary (token.span.join e.span) op e) := by
  refine goesOn_of_read (by omega) fun budget hbudget => ?_
  obtain ⟨budget, rfl⟩ : ∃ b, budget = b + 1 :=
    Nat.exists_eq_add_one_of_ne_zero (Nat.ne_of_gt (Nat.lt_of_lt_of_le (Nat.succ_pos _) hbudget))
  change Becomes (prefixed nested (budget + 2)) _ _ _
  rw [prefixed]
  refine .peek ?_
  simp only [hop, discard_bind]
  exact .take (.last (h.read (Nat.le_of_succ_le_succ hbudget)) (fun _ => id) (.refl _))

variable {more : List Token} {right : Expr}

theorem power_goesOn {place : Span} (h : GoesOn nested 14 ts e) (hmore : GoesOn nested 13 more right) :
    GoesOn nested 13 (ts ++ ⟨.symbol .power, place⟩ :: more)
      (.binary (e.span.join right.span) .power e right) := by
  refine goesOn_of_read (by omega) fun budget hbudget => ?_
  rw [List.length_append, List.length_cons] at hbudget
  obtain ⟨budget, rfl⟩ : ∃ b, budget = b + 1 := Nat.exists_eq_add_one_of_ne_zero (by omega)
  change Becomes (powers nested (budget + 2)) _ _ _
  rw [powers]
  refine .seq (h.read (by omega)) ?_ (.takeSymbol ?_)
  · rintro _ rfl
    exact .of_joins (n := 13) rfl (by omega)
  · exact .last (hmore.read (by omega)) (fun _ => id) (.refl _)

theorem binary_goesOn {token : Token} {op : BinaryOp}
    (hop : BinaryOp.ofToken? token.kind = some op) (hpower : op ≠ .power)
    (h : GoesOn nested (op.level + 2) ts e) (hmore : GoesOn nested (op.level + 3) more right) :
    GoesOn nested (op.level + 2) (ts ++ token :: more)
      (.binary (e.span.join right.span) op e right) := by
  have hlevel : op.level < 11 := by cases op <;> first | decide | exact absurd rfl hpower
  intro budget hbudget
  rw [List.length_append, List.length_cons] at hbudget
  obtain ⟨rounds, hrounds, h⟩ := h budget (by omega)
  obtain ⟨rounds, rfl⟩ : ∃ r, rounds = r + 1 := Nat.exists_eq_add_one_of_ne_zero (by omega)
  refine ⟨rounds, by rw [List.length_append, List.length_cons]; omega, ?_⟩
  have hright := hmore.read (show more.length ≤ budget by omega)
  rw [atLevel_binary nested _ hlevel] at hright
  rw [onward_binary nested _ hlevel, AheadOf, if_pos (.inr ⟨Nat.le_add_left .., Nat.add_lt_add_right hlevel 2⟩)] at h ⊢
  refine .trans h ?_ (operations_next hop hright)
  rintro _ rfl
  exact .of_joins (BinaryOp.joins? hop) (by omega)

end

-- ---------------------------------------------------------------------------
-- Phrases
-- ---------------------------------------------------------------------------

theorem goesOn {bound : Nat} (hnested : ReadsPhrases nested bound) :
    {level : Nat} → {ts : List Token} → {e : Expr} → Phrase level ts e → 1 ≤ level →
      ts.length ≤ bound → GoesOn nested level ts e
  | _, _, _, .loosen h, hlevel, hlength => by
    have hread := goesOn hnested h (by omega) hlength
    exact fun budget hbudget =>
      ⟨budget, Nat.le_add_right _ _, looser_goes h hlevel (hread.read hbudget)⟩
  | _, _, _, .number, _, _ | _, _, _, .string, _, _ =>
    goesOn_of_read (by omega) fun _ _ => .takeRequired (.refl _)
  | _, _, _, .word _, _, _ => ofWord_goesOn
  | _, _, _, .parens h, _, hlength => parens_goesOn hnested h (by simp at hlength; omega)
  | _, _, _, .array h, _, hlength => array_goesOn hnested h (Nat.le_of_succ_le hlength)
  | _, _, _, .object h, _, hlength => object_goesOn hnested h (Nat.le_of_succ_le hlength)
  | _, _, _, .member h hkey, _, hlength => by
    rw [List.length_append] at hlength
    exact member_goesOn hnested (goesOn hnested h (by omega) (by omega)) hkey (by omega)
  | _, _, _, .call h harguments, _, hlength => by
    rw [List.length_append, List.length_cons] at hlength
    exact call_goesOn hnested (goesOn hnested h (by omega) (by omega)) harguments (by omega)
  | _, _, _, .updated h hop, _, hlength => by
    rw [List.length_append] at hlength
    exact updated_goesOn (goesOn hnested h (by omega) (by omega)) hop
  | _, _, _, .update hop h, _, hlength =>
    update_goesOn (goesOn hnested h (by omega) (Nat.le_of_succ_le hlength)) hop
  | _, _, _, .unary hop h, _, hlength =>
    unary_goesOn (goesOn hnested h (by omega) (Nat.le_of_succ_le hlength)) hop
  | _, _, _, .power h hmore, _, hlength => by
    rw [List.length_append, List.length_cons] at hlength
    exact power_goesOn (goesOn hnested h (by omega) (by omega))
      (goesOn hnested hmore (by omega) (by omega))
  | _, _, _, .binary hop hpower h hmore, _, hlength => by
    rw [List.length_append, List.length_cons] at hlength
    exact binary_goesOn hop hpower (goesOn hnested h (by omega) (by omega))
      (goesOn hnested hmore (by omega) (by omega))
  | _, _, _, .conditional _ _ _, hlevel, _ | _, _, _, .assignment _ _ _, hlevel, _ =>
    absurd hlevel (Nat.not_succ_le_zero 0)

theorem conditionals_read {bound : Nat} (hnested : ReadsPhrases nested bound) {ts : List Token}
    {e : Expr} (h : Phrase 1 ts e) (hlength : ts.length ≤ bound) :
    Becomes (conditionals nested (bound + 1)) ts (After 1) (pure e) :=
  (goesOn hnested h (Nat.le_refl 1) hlength).read hlength

theorem assignments_read (budget : Nat) : ReadsPhrases (assignments budget) budget := by
  induction budget with
  | zero => exact fun _ _ _ hlength => absurd hlength (Nat.not_lt_zero _)
  | succ budget ih =>
    intro ts e h hlength
    have hlength := Nat.le_of_lt_succ hlength
    have hplain {ts e} (h : Becomes (conditionals (assignments budget) (budget + 1)) ts (After 0)
        (pure e)) : Becomes (assignments (budget + 1)) ts (After 0) (pure e) := by
      rw [assignments]
      refine .last h (fun _ => id) (.peekKind_end fun next hnext => ?_)
      rw [hnext.assign]
      exact .refl _
    cases h with
    | loosen h =>
      exact hplain ((conditionals_read ih h hlength).mono fun _ hk => hk.mono (Nat.zero_le _))
    | @conditional ts test question yes consequent colon no alternate htest hyes hno =>
      simp only [List.length_append, List.length_cons] at hlength
      have htest := (goesOn ih htest (by omega) (by omega)).read (show ts.length ≤ budget by omega)
      refine hplain ?_
      rw [conditionals]
      refine .seq htest ?_ (.takeSymbol ?_)
      · rintro _ rfl
        exact .of_joins rfl (by omega)
      simp only [discard_bind]
      refine .seq (ih _ _ hyes (by omega)) (by rintro _ rfl; exact .of_none rfl) (.expectSymbol ?_)
      exact .last (ih _ _ hno (by omega)) (fun _ => id) (.refl _)
    | assignment htarget hop hvalue =>
      simp only [List.length_append, List.length_cons] at hlength
      rw [assignments]
      refine .seq (conditionals_read ih htarget (by omega)) ?_ (.peekKind ?_)
      · rintro _ rfl
        exact .of_joins (AssignOp.joins? hop) (by omega)
      · simp only [Option.bind_some, hop, discard_bind]
        exact .take (.last (ih _ _ hvalue (by omega)) (fun _ => id) (.refl _))

end Expr

/-- The parser reads every phrase. -/
theorem Phrase.read {ts : List Token} {e : Expr} (h : Phrase 0 ts e) :
    Becomes Expr.parser ts (After 0) (pure e) := by
  intro rest stop hrest
  have hlength : ts.length < (ts ++ rest).length + 1 := by
    rw [List.length_append]
    omega
  exact assignments_read _ ts e h hlength rest stop hrest

end PromptTemplate
