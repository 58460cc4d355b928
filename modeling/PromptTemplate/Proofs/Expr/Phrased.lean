import Mathlib.Data.Nat.Init
import PromptTemplate.Proofs.Expr.Complete
import PromptTemplate.Proofs.Parser.Makes

/-!
# What is read is a phrase

The tokens that the parser takes for an expression are a phrase of it
(`Expr.parser_makes`), so the grammar has no more expressions than the parser
reads, and no fewer.
-/

namespace PromptTemplate.Expr

open PromptTemplate.Parser

variable {nested : Parser Expr} {budget rounds : Nat} {before : Option Token → Prop}

/-- What comes next assigns nothing. -/
def NoAssign (next : Option Token) : Prop :=
  (next.map Token.kind).bind AssignOp.ofToken? = none

/-- Makes phrases, up to what they do not go on with. -/
def MakesPhrases (nested : Parser Expr) : Prop :=
  Makes Anything nested fun ts e next => Phrase 0 ts e ∧ NoAssign next

-- ---------------------------------------------------------------------------
-- Lists
-- ---------------------------------------------------------------------------

theorem itemsAfter_makes {α : Type} {close : Symbol} {items : Parser (List α × Span)} {first : α}
    {listed : List Token → List α × Span → Prop}
    (hlast : ∀ last, listed [⟨.symbol close, last⟩] ([first], last))
    (hitems : Makes Anything items fun ts r _ => ∀ comma,
      listed (⟨.symbol .comma, comma⟩ :: ts) (first :: r.1, r.2)) :
    Makes before (itemsAfter close items first) fun ts r _ => listed ts r :=
  .takeSymbol
    (fun comma => hitems.step fun _ r h => .pure fun _ _ => by simpa using h comma)
    (.expectSymbol fun last => .pure fun _ _ => hlast last)

section
variable (hnested : MakesPhrases nested)
include hnested

/-- What is made of an expression inside. -/
theorem nested_makes {β : Type} {f : Expr → Parser β} {after : List Token → β → Option Token → Prop}
    (hf : ∀ ts e, Phrase 0 ts e → Makes NoAssign (f e) fun more => after (ts ++ more)) :
    Makes before (nested >>= f) after :=
  .bind (hnested.mono (fun _ _ => trivial) fun _ _ _ => id) fun ts e s a t hs =>
    hf ts e hs.1 s a t hs.2

theorem item_makes : Makes before (item nested) fun ts element _ => Phrase.Item ts element :=
  .takeSymbol
    (fun _ => nested_makes hnested fun _ _ h => .pure fun _ _ => by simpa using .spread h)
    (nested_makes hnested fun _ _ h => .pure fun _ _ => by simpa using .single h)

theorem elements_makes {close : Symbol} : Makes before (elements nested close rounds)
    fun ts r _ => Phrase.Elements close ts r.1 r.2 := by
  induction rounds generalizing before with
  | zero => exact .failAtEnd
  | succ rounds ih =>
    rw [elements_succ]
    refine .takeSymbol (fun _ => .pure fun _ _ => .nil) ?_
    refine .step (item_makes hnested) fun ts element hitem => ?_
    exact itemsAfter_makes (fun _ => .last hitem)
      (ih.mono (fun _ => id) fun _ _ _ hmore _ => .cons hitem hmore)

theorem entry_makes : Makes before (entry nested) fun ts e _ => Phrase.Pair ts e := by
  rw [entry]
  refine .takeSymbol
    (fun _ => nested_makes hnested fun _ _ h => .pure fun _ _ => by simpa using .spread h) ?_
  refine .takeRequired fun token _ => ?_
  obtain ⟨kind, place⟩ := token
  simp only [discard_bind]
  cases kind with
  | identifier name =>
    dsimp only
    refine .peekKind fun found _ => .ite (fun _ => .expectSymbol fun colon => ?_) fun _ => ?_
    · exact nested_makes hnested fun _ _ h => .pure fun _ _ => by simpa using .word h
    · exact .pure fun _ _ => .short
  | string name =>
    refine .expectSymbol fun colon => nested_makes hnested fun _ _ h => .pure fun _ _ => ?_
    simpa using .string h
  | symbol s =>
    cases s with
    | bracketOpen =>
      refine nested_makes hnested fun _ _ hkey => .expectSymbol fun _ => .expectSymbol fun _ => ?_
      refine nested_makes hnested fun _ _ h => .pure fun _ _ => ?_
      simpa using .computed hkey h
    | _ => exact .fail
  | _ => exact .fail

theorem entries_makes : Makes before (entries nested rounds)
    fun ts r _ => Phrase.Entries ts r.1 r.2 := by
  induction rounds generalizing before with
  | zero => exact .failAtEnd
  | succ rounds ih =>
    rw [entries_succ]
    refine .takeSymbol (fun _ => .pure fun _ _ => .nil) ?_
    refine .step (entry_makes hnested) fun ts e hentry => ?_
    exact itemsAfter_makes (fun _ => .last hentry)
      (ih.mono (fun _ => id) fun _ _ _ hmore _ => .cons hentry hmore)

-- ---------------------------------------------------------------------------
-- Operands
-- ---------------------------------------------------------------------------

/-- No operator is in front. -/
def Bare (next : Option Token) : Prop := ∀ token ∈ next, Phrase.isBare token.kind

theorem primary_makes : Makes Bare (primary nested budget) fun ts e _ => Phrase 17 ts e := by
  rw [primary]
  refine .takeRequired fun token hbare => ?_
  have hbare := hbare token rfl
  obtain ⟨kind, place⟩ := token
  simp only [discard_bind]
  cases kind with
  | number x => exact .pure fun _ _ => .number
  | string s => exact .pure fun _ _ => .string
  | identifier name =>
    refine .pure fun _ _ => .word fun hname => ?_
    rw [hname] at hbare
    cases hbare.1
  | symbol s =>
    cases s with
    | parenOpen =>
      refine nested_makes hnested fun _ _ h => .expectSymbol fun _ => .pure fun _ _ => ?_
      simpa using .parens h
    | bracketOpen =>
      exact .step (elements_makes hnested) fun _ _ h => .pure fun _ _ => by simpa using .array h
    | braceOpen =>
      exact .step (entries_makes hnested) fun _ _ h => .pure fun _ _ => by simpa using .object h
    | _ => exact .fail
  | _ => exact .fail

/-- A key behind what it belongs to. -/
theorem key_makes : Makes before (bracketKey nested) fun ts r _ => ∃ inner key,
    Phrase 0 inner key ∧ ts = inner ++ [⟨.symbol .bracketClose, r.2⟩] ∧ r.1 = .computed key := by
  rw [bracketKey]
  refine nested_makes hnested fun _ _ h => .expectSymbol fun _ => .pure fun _ _ => ?_
  exact ⟨_, _, h, by simp, rfl⟩

omit hnested in
theorem namedKey_makes : Makes before namedKey fun ts r _ => ∃ name,
    ts = [⟨.identifier name, r.2⟩] ∧ r.1 = .named name :=
  .name fun _ _ => .pure fun _ _ => ⟨_, rfl, rfl⟩

/-- A link is put behind the base, and the loop goes on from there. -/
theorem links_makes {base : Expr} : Makes before (links nested rounds base) fun ts e _ =>
    ∀ first, Phrase 16 first base → Phrase 16 (first ++ ts) e := by
  induction rounds generalizing before base with
  | zero => exact .failAtEnd
  | succ rounds ih =>
    have hmember {optional property last key} (hkey : Phrase.Key optional key property last) :
        Makes Anything (links nested rounds (.member (base.span.join last) base property optional))
          fun ts e _ => ∀ first, Phrase 16 first base → Phrase 16 (first ++ (key ++ ts)) e :=
      ih.mono (fun _ => id) fun ts e _ h first hfirst => by
        simpa using h (first ++ key) (.member hfirst hkey)
    have hend : Makes before (pure base : Parser Expr) fun ts e _ =>
        ∀ first, Phrase 16 first base → Phrase 16 (first ++ ts) e :=
      .pure fun _ _ first hfirst => by simpa using hfirst
    rw [links]
    refine .peekKind fun found hfound => ?_
    have hend : Makes (· = found) (pure base : Parser Expr) fun ts e _ =>
        ∀ first, Phrase 16 first base → Phrase 16 (first ++ ts) e :=
      hend.mono (fun _ h => h ▸ hfound) fun _ _ _ => id
    cases found with
    | none => exact hend
    | some token =>
      obtain ⟨kind, place⟩ := token
      cases kind with
      | symbol s =>
        simp only [discard_bind, Option.map_some]
        cases s with
        | dot =>
          refine .take (.step namedKey_makes fun ts r h => ?_)
          obtain ⟨name, rfl, hname⟩ := h
          obtain ⟨_, last⟩ := r
          cases hname
          exact hmember .named
        | optionalDot =>
          refine .take (.takeSymbol (fun opened => ?_) ?_)
          · refine .step (key_makes hnested) fun ts r h => ?_
            obtain ⟨inner, key, hkey, rfl, hproperty⟩ := h
            obtain ⟨_, last⟩ := r
            cases hproperty
            exact hmember (.optionalComputed hkey)
          · refine .step namedKey_makes fun ts r h => ?_
            obtain ⟨name, rfl, hname⟩ := h
            obtain ⟨_, last⟩ := r
            cases hname
            exact hmember .optionalNamed
        | bracketOpen =>
          refine .take (.step (key_makes hnested) fun ts r h => ?_)
          obtain ⟨inner, key, hkey, rfl, hproperty⟩ := h
          obtain ⟨_, last⟩ := r
          cases hproperty
          exact hmember (.computed hkey)
        | parenOpen =>
          refine .take (.step (elements_makes hnested) fun ts r h => ?_)
          refine ih.mono (fun _ => id) fun more e _ hmore first hfirst => ?_
          simpa using hmore _ (.call hfirst h)
        | _ => exact hend
      | _ => exact hend

theorem updated_makes : Makes Bare (updated nested budget) fun ts e _ => Phrase 15 ts e := by
  rw [updated]
  refine .step (primary_makes hnested) fun ts base hbase => ?_
  refine .step (links_makes hnested) fun more target hmore => ?_
  have htarget := hmore ts hbase.loosen
  refine .peekKind fun found _ => ?_
  split
  · rename_i op hop
    obtain ⟨kind, hkind, hop⟩ := Option.bind_eq_some_iff.1 hop
    refine .takeRequired fun token htoken => .pure fun _ _ => ?_
    rw [← htoken, Option.map_some] at hkind
    obtain rfl := Option.some.inj hkind
    simpa using Phrase.updated htarget hop
  · exact .pure fun _ _ => by simpa using htarget.loosen

theorem prefixed_makes : Makes before (prefixed nested budget) fun ts e _ => Phrase 14 ts e := by
  induction budget generalizing before with
  | zero => exact .failAtEnd
  | succ budget ih =>
    rw [prefixed]
    simp only [discard_bind]
    refine .peek fun found _ => ?_
    cases found with
    | none => exact .failAtEnd
    | some token =>
      dsimp only
      split
      · rename_i op hop
        exact .take (.step ih fun _ _ h => .pure fun _ _ => by simpa using Phrase.unary hop h)
      · rename_i op _ hop
        exact .take (.step ih fun _ _ h => .pure fun _ _ => by simpa using Phrase.update hop h)
      · rename_i hunary hupdate
        refine (updated_makes hnested).mono ?_ fun _ _ _ h => h.loosen
        rintro _ rfl _ ⟨⟩
        exact ⟨hunary, hupdate⟩

theorem powers_makes : Makes before (powers nested budget) fun ts e _ => Phrase 13 ts e := by
  induction budget generalizing before with
  | zero => exact .failAtEnd
  | succ budget ih =>
    rw [powers]
    refine .step (prefixed_makes hnested) fun ts base hbase => .takeSymbol (fun place => ?_) ?_
    · exact .step ih fun more exponent hmore => .pure fun _ _ => by
        simpa using Phrase.power hbase hmore
    · exact .pure fun _ _ => by simpa using hbase.loosen

end

-- ---------------------------------------------------------------------------
-- Operators
-- ---------------------------------------------------------------------------

theorem operations_makes {operand : Parser Expr} {k : Nat} {left : Expr} (hk : k < 11)
    (hoperand : Makes Anything operand fun ts e _ => Phrase (k + 3) ts e) :
    Makes before (operations operand k rounds left) fun ts e _ =>
      ∀ first, Phrase (k + 2) first left → Phrase (k + 2) (first ++ ts) e := by
  induction rounds generalizing before left with
  | zero => exact .failAtEnd
  | succ rounds ih =>
    rw [operations, peekOperator, bind_assoc]
    refine .peekKind fun found _ => ?_
    simp only [pure_bind, discard_bind]
    split
    · exact .pure fun _ _ first hfirst => by simpa using hfirst
    · rename_i op hop
      obtain ⟨hsome, hlevel⟩ := Option.filter_eq_some_iff.1 hop
      obtain ⟨kind, hkind, hkindop⟩ := Option.bind_eq_some_iff.1 hsome
      obtain ⟨token, rfl, rfl⟩ := Option.map_eq_some_iff.1 hkind
      obtain rfl : op.level = k := of_decide_eq_true hlevel
      have hpower : op ≠ .power := by
        rintro rfl
        exact absurd hk (Nat.lt_irrefl 11)
      refine .take (.step hoperand fun more right hright => ?_)
      refine ih.mono (fun _ => id) fun rest e _ hrest first hfirst => ?_
      simpa using hrest _ (.binary hkindop hpower hfirst hright)

theorem binariesFrom_makes (hnested : MakesPhrases nested) {k : Nat} (hk : k ≤ 11) :
    Makes Anything (binariesFrom nested budget k) fun ts e _ => Phrase (k + 2) ts e := by
  induction hk using Nat.decreasingInduction with
  | self => exact powers_makes hnested
  | of_succ k hk ih =>
    rw [binariesFrom_of_lt nested budget hk, leftGrouped]
    refine .step ih fun ts left hleft => ?_
    exact (operations_makes hk ih).mono (fun _ => id) fun _ _ _ h => h ts hleft.loosen

/-- A conditional is the longest one that there is. -/
theorem conditionals_makes (hnested : MakesPhrases nested) :
    Makes Anything (conditionals nested budget) fun ts e next =>
      Phrase 1 ts e ∨ Phrase 0 ts e ∧ NoAssign next := by
  rw [conditionals]
  simp only [discard_bind]
  refine .step (binariesFrom_makes hnested (Nat.zero_le 11)) fun ts test htest => ?_
  refine .takeSymbol (fun question => ?_) ?_
  · refine nested_makes hnested fun yes consequent hyes => .expectSymbol fun colon => ?_
    refine nested_makes hnested fun no alternate hno => .pure fun next hnext => .inr ⟨?_, hnext⟩
    simpa using Phrase.conditional htest hyes hno
  · exact .pure fun _ _ => .inl (by simpa using htest.loosen)

theorem assignments_makes (budget : Nat) : MakesPhrases (assignments budget) := by
  induction budget with
  | zero => exact .failAtEnd
  | succ budget ih =>
    rw [assignments]
    simp only [discard_bind]
    refine .bind (conditionals_makes ih) fun ts target => .peekKind fun found htarget => ?_
    split
    · rename_i hop
      refine .pure fun next hnext => ?_
      subst hnext
      rw [List.append_nil]
      exact ⟨htarget.elim (·.loosen) (·.1), hop⟩
    · rename_i op hop
      obtain ⟨kind, hkind, hkindop⟩ := Option.bind_eq_some_iff.1 hop
      obtain ⟨token, rfl, rfl⟩ := Option.map_eq_some_iff.1 hkind
      rcases htarget with htarget | ⟨-, hnone⟩
      · refine .take (nested_makes ih fun more value hvalue => .pure fun next hnext => ⟨?_, hnext⟩)
        simpa using Phrase.assignment htarget hkindop hvalue
      · rw [NoAssign, hop] at hnone
        cases hnone

/-- The parser makes nothing but phrases. -/
theorem parser_makes : Makes Anything Expr.parser fun ts e _ => Phrase 0 ts e :=
  fun s e t hs hrun => by
    obtain ⟨ts, htokens, hstop, h, -⟩ := assignments_makes _ s e t hs hrun
    exact ⟨ts, htokens, hstop, h⟩

end PromptTemplate.Expr
