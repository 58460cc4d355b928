import PromptTemplate.Expr.Parser
import PromptTemplate.Proofs.Parser.Sound

/-!
# Parsed expressions are well-formed

From good tokens every level of the grammar makes an expression whose
identifiers are words and whose numbers have literals.
-/

namespace PromptTemplate.Expr

open PromptTemplate.Parser TokenStream

variable {nested : Parser Expr} (hnested : Sound nested Expr.WellFormed)
include hnested

theorem elements_sound {close : Symbol} (budget : Nat) :
    Sound (elements nested close budget) fun r => Element.AllWellFormed r.1 := by
  induction budget with
  | zero => exact Sound.failAtEnd
  | succ budget ih =>
    rw [elements]
    refine Sound.bind .takeSymbol fun found _ => ?_
    cases found with
    | some token => exact .pure trivial
    | none =>
      refine Sound.bind .takeSymbol fun spread _ => Sound.bind hnested fun value hvalue => ?_
      have hall : ∀ {rest : List Element}, Element.AllWellFormed rest → Element.AllWellFormed
          ((if spread.isSome then .spread value else .single value) :: rest) := by
        intro rest hrest
        split <;> exact ⟨hvalue, hrest⟩
      refine Sound.bind .takeSymbol fun comma _ => ?_
      cases comma with
      | none => exact Sound.bind .expectSymbol fun _ _ => .pure (hall trivial)
      | some token => exact Sound.bind ih fun more hmore => .pure (hall hmore)

theorem entry_sound : Sound (entry nested) fun e => Entry.AllWellFormed [e] := by
  rw [entry]
  refine Sound.bind .takeSymbol fun spread _ => Sound.ite (fun _ => ?_) fun _ => ?_
  · exact Sound.bind hnested fun value hvalue => .pure ⟨hvalue, trivial⟩
  refine Sound.bind .takeRequired fun token htoken => ?_
  have hnamed : ∀ {key : String} {value : Expr}, (value.isNamed key → IsWord key) →
      (value.isNamed key = false → value.WellFormed) → Entry.AllWellFormed [.named key value] := by
    intro key value hword hwell
    refine ⟨?_, trivial⟩
    split
    · exact hword ‹_›
    · rename_i hname
      exact hwell (by simpa using hname)
  have hvalue : ∀ {key : String} {value : Expr}, value.WellFormed →
      Entry.AllWellFormed [.named key value] := by
    intro key value hvalue
    refine hnamed (fun hname => ?_) fun _ => hvalue
    cases value with
    | identifier span name =>
      obtain rfl : name = key := by simpa [isNamed] using hname
      exact hvalue.1
    | _ => cases hname
  split
  · rename_i name hkind
    rw [hkind] at htoken
    refine Sound.bind .peekKind fun k _ => Sound.ite (fun _ => ?_) fun _ => ?_
    · simp only [discard_bind]
      exact Sound.bind .expectSymbol fun _ _ => Sound.bind hnested fun value h => .pure (hvalue h)
    · exact .pure (hnamed (fun _ => htoken) (by simp [isNamed]))
  · simp only [discard_bind]
    exact Sound.bind .expectSymbol fun _ _ => Sound.bind hnested fun value h => .pure (hvalue h)
  · simp only [discard_bind]
    refine Sound.bind hnested fun key hkey => Sound.bind .expectSymbol fun _ _ => ?_
    refine Sound.bind .expectSymbol fun _ _ => Sound.bind hnested fun value h => ?_
    exact .pure ⟨hkey, h, trivial⟩
  · exact .fail

theorem entries_sound (budget : Nat) :
    Sound (entries nested budget) fun r => Entry.AllWellFormed r.1 := by
  induction budget with
  | zero => exact Sound.failAtEnd
  | succ budget ih =>
    rw [entries]
    refine Sound.bind .takeSymbol fun found _ => ?_
    cases found with
    | some token => exact .pure trivial
    | none =>
      refine Sound.bind (entry_sound hnested) fun first hfirst => ?_
      have hall : ∀ {rest : List Entry}, Entry.AllWellFormed rest →
          Entry.AllWellFormed (first :: rest) := by
        intro rest hrest
        cases first <;> simp_all [Entry.AllWellFormed]
      refine Sound.bind .takeSymbol fun comma _ => ?_
      cases comma with
      | none => exact Sound.bind .expectSymbol fun _ _ => .pure (hall trivial)
      | some token => exact Sound.bind ih fun more hmore => .pure (hall hmore)

omit hnested in
theorem ofWord_wellFormed {span : Span} {word : String} (h : IsWord word) (hword : word ≠ "typeof") :
    (ofWord span word).WellFormed := by
  unfold ofWord
  split
  · trivial
  · split
    · trivial
    · split
      · trivial
      · refine ⟨h, ?_⟩
        simp_all [isReserved]

/-- No `typeof` comes next. -/
def NoTypeOf (s : TokenStream) : Prop :=
  ∀ token ∈ s.tokens.head?, token.kind ≠ .identifier "typeof"

/-- Where `typeof` has been ruled out, a word is a literal or a variable. -/
theorem primary_sound (budget : Nat) : Ensures (fun s => Good s ∧ NoTypeOf s)
    (primary nested budget) fun e t => Good t ∧ e.WellFormed := by
  rw [primary]
  have htoken : Ensures (fun s => Good s ∧ NoTypeOf s) (takeRequired "expression") fun token t =>
      Good t ∧ token.kind.Lexed ∧ token.kind ≠ .identifier "typeof" := by
    refine Ensures.bind Ensures.take fun found => ?_
    cases found with
    | none => exact .failAtEnd
    | some token =>
      refine .pure ?_
      rintro t ⟨s, ⟨hgood, hne⟩, hhead, htail⟩
      exact ⟨good_tail hgood htail, (good_tokens hgood hhead).1, hne token hhead⟩
  refine Ensures.step htoken fun token ⟨hlexed, hne⟩ => ?_
  change Sound _ WellFormed
  split
  · rename_i value hkind
    rw [hkind] at hlexed
    exact .pure hlexed
  · exact .pure trivial
  · rename_i word hkind
    rw [hkind] at hlexed hne
    exact .pure (ofWord_wellFormed hlexed fun h => hne (congrArg _ h))
  · simp only [discard_bind]
    exact Sound.bind hnested fun inner h => Sound.bind .expectSymbol fun _ _ => .pure h
  · exact Sound.bind (elements_sound hnested budget) fun r hr => .pure hr
  · exact Sound.bind (entries_sound hnested budget) fun r hr => .pure hr
  · exact .fail

theorem bracketKey_sound : Sound (bracketKey nested) fun r => r.1.WellFormed :=
  Sound.bind hnested fun _ h => Sound.bind .expectSymbol fun _ _ => .pure h

omit hnested in
theorem namedKey_sound : Sound namedKey fun r => r.1.WellFormed :=
  Sound.bind .name fun _ h => .pure h

theorem links_sound (budget : Nat) {base : Expr} (hbase : base.WellFormed) :
    Sound (links nested budget base) Expr.WellFormed := by
  induction budget generalizing base with
  | zero => exact .failAtEnd
  | succ budget ih =>
    rw [links]
    simp only [discard_bind]
    refine Sound.bind .peekKind fun k _ => ?_
    split
    · refine Sound.bind .take fun _ _ => Sound.bind namedKey_sound fun r hr => ?_
      exact ih ⟨hbase, hr⟩
    · refine Sound.bind .take fun _ _ => Sound.bind .takeSymbol fun _ _ => ?_
      refine Sound.ite (fun _ => ?_) fun _ => ?_
      · exact Sound.bind (bracketKey_sound hnested) fun r hr => ih ⟨hbase, hr⟩
      · exact Sound.bind namedKey_sound fun r hr => ih ⟨hbase, hr⟩
    · refine Sound.bind .take fun _ _ => Sound.bind (bracketKey_sound hnested) fun r hr => ?_
      exact ih ⟨hbase, hr⟩
    · refine Sound.bind .take fun _ _ => Sound.bind (elements_sound hnested _) fun r hr => ?_
      exact ih ⟨hbase, hr⟩
    · exact .pure hbase

theorem updated_sound (budget : Nat) : Ensures (fun s => Good s ∧ NoTypeOf s)
    (updated nested budget) fun e t => Good t ∧ e.WellFormed := by
  rw [updated]
  refine Ensures.step (primary_sound hnested budget) fun base hbase => ?_
  refine Sound.bind (links_sound hnested budget hbase) fun target htarget => ?_
  refine Sound.bind .peekKind fun k _ => ?_
  split
  · exact Sound.bind .takeRequired fun _ _ => .pure htarget
  · exact .pure htarget

theorem prefixed_sound (budget : Nat) : Sound (prefixed nested budget) Expr.WellFormed := by
  induction budget with
  | zero => exact .failAtEnd
  | succ budget ih =>
    rw [prefixed]
    simp only [discard_bind]
    refine Ensures.bind Ensures.peek fun found => ?_
    cases found with
    | none => exact .failAtEnd
    | some token =>
      dsimp only
      split
      · refine Sound.ensures ?_ fun _ h => h.1
        exact Sound.bind .take fun _ _ => Sound.bind ih fun operand h => .pure h
      · refine Sound.ensures ?_ fun _ h => h.1
        exact Sound.bind .take fun _ _ => Sound.bind ih fun operand h => .pure h
      · rename_i hunary _
        -- what is no operator is no `typeof` either
        refine (updated_sound hnested _).mono ?_ fun _ _ => id
        rintro s ⟨hs, hhead⟩
        refine ⟨hs, fun first hfirst htypeof => ?_⟩
        rw [hhead] at hfirst
        obtain rfl := Option.some.inj hfirst
        rw [htypeof] at hunary
        cases hunary

theorem powers_sound (budget : Nat) : Sound (powers nested budget) Expr.WellFormed := by
  induction budget with
  | zero => exact .failAtEnd
  | succ budget ih =>
    rw [powers]
    refine Sound.bind (prefixed_sound hnested _) fun base hbase => ?_
    refine Sound.bind .takeSymbol fun found _ => ?_
    cases found with
    | none => exact .pure hbase
    | some token => exact Sound.bind ih fun exponent h => .pure ⟨hbase, h⟩

omit hnested in
theorem operations_sound {operand : Parser Expr} (hoperand : Sound operand Expr.WellFormed)
    (level budget : Nat) {left : Expr} (hleft : left.WellFormed) :
    Sound (operations operand level budget left) Expr.WellFormed := by
  induction budget generalizing left with
  | zero => exact .failAtEnd
  | succ budget ih =>
    rw [operations]
    simp only [discard_bind]
    have hpeek : Sound (peekOperator level) fun _ => True :=
      Sound.bind .peekKind fun _ _ => .pure trivial
    refine Sound.bind hpeek fun op _ => ?_
    cases op with
    | none => exact .pure hleft
    | some op =>
      refine Sound.bind .take fun _ _ => Sound.bind hoperand fun right hright => ?_
      exact ih ⟨hleft, hright⟩

theorem binaries_sound (budget : Nat) : Sound (binaries nested budget) Expr.WellFormed := by
  have hlevels : ∀ levels : List Nat,
      Sound (levels.foldr (leftGrouped budget) (powers nested budget)) Expr.WellFormed := by
    intro levels
    induction levels with
    | nil => exact powers_sound hnested budget
    | cons level levels ih =>
      exact Sound.bind ih fun left hleft => operations_sound ih level budget hleft
  exact hlevels _

theorem conditionals_sound (budget : Nat) :
    Sound (conditionals nested budget) Expr.WellFormed := by
  rw [conditionals]
  simp only [discard_bind]
  refine Sound.bind (binaries_sound hnested budget) fun test htest => ?_
  refine Sound.bind .takeSymbol fun found _ => ?_
  cases found with
  | none => exact .pure htest
  | some token =>
    refine Sound.bind hnested fun consequent hyes => Sound.bind .expectSymbol fun _ _ => ?_
    exact Sound.bind hnested fun alternate hno => .pure ⟨htest, hyes, hno⟩

omit hnested in
theorem assignments_sound (budget : Nat) : Sound (assignments budget) Expr.WellFormed := by
  induction budget with
  | zero => exact .failAtEnd
  | succ budget ih =>
    rw [assignments]
    simp only [discard_bind]
    refine Sound.bind (conditionals_sound ih _) fun target htarget => ?_
    refine Sound.bind .peekKind fun k _ => ?_
    split
    · exact .pure htarget
    · exact Sound.bind .take fun _ _ => Sound.bind ih fun value h => .pure ⟨htarget, h⟩

omit hnested in
theorem parser_sound : Sound Expr.parser Expr.WellFormed :=
  Sound.budget_bind assignments_sound

end PromptTemplate.Expr
