import PromptTemplate.Proofs.Expr.Levels
import PromptTemplate.Proofs.Syntax.Erase

/-!
# Reading back the words of an expression

With operands in parentheses each form of expression is read on its own level,
and every expression on the outermost one (`assignments_reads`).
-/

namespace PromptTemplate.Expr

open PromptTemplate.Parser

variable {nested : Parser Expr} {budget : Nat} {e : Expr} {ahead : Option TokenKind → Prop}
  {Q : Expr → Prop}

-- ---------------------------------------------------------------------------
-- Operands
-- ---------------------------------------------------------------------------

theorem ofWord_identifier {span : Span} {word : String} (h : isReserved word = false) :
    ofWord span word = .identifier span word := by
  simp only [isReserved, Bool.or_eq_false_iff, decide_eq_false_iff_not] at h
  simp [ofWord, h]

theorem primary_literal {value : Literal} {fuel : Nat} {span : Span} :
    Reads (primary nested fuel) [value.word] ahead (·.erase = (Expr.literal span value).erase) := by
  rw [primary]
  refine Reads.step Reads.takeRequired fun token htoken => ?_
  cases value with
  | bool b => cases b <;> simp only [htoken, Literal.word] <;> exact Reads.pure rfl
  | _ => simp only [htoken, Literal.word]; exact Reads.pure rfl

theorem primary_identifier {name : String} (h : isReserved name = false) {fuel : Nat} {span : Span} :
    Reads (primary nested fuel) [.identifier name] ahead
      (·.erase = (Expr.identifier span name).erase) := by
  rw [primary]
  refine Reads.step Reads.takeRequired fun token htoken => ?_
  simp only [htoken, ofWord_identifier h]
  exact Reads.pure rfl

/-- What operands start with. -/
def opens : TokenKind → Bool
  | .number _ | .string _ | .symbol .parenOpen => true
  | .identifier name => name ≠ "typeof"
  | _ => false

theorem words_opens (he : e.WellFormed) : ∃ kind kinds, e.words true = kind :: kinds ∧ opens kind := by
  cases e with
  | literal span value => cases value with
    | bool b => cases b <;> exact ⟨_, _, rfl, rfl⟩
    | _ => exact ⟨_, _, rfl, rfl⟩
  | identifier span name =>
    refine ⟨_, _, rfl, ?_⟩
    simp only [Expr.WellFormed, isReserved, Bool.or_eq_false_iff, decide_eq_false_iff_not] at he
    simp [opens, he.2.2]
  | update span op side target => cases side <;> exact ⟨_, _, rfl, rfl⟩
  | _ => exact ⟨_, _, rfl, rfl⟩

theorem not_prefix_of_opens {kind : TokenKind} (h : opens kind) :
    unaryOp? kind = none ∧ UpdateOp.ofToken? kind = none := by
  cases kind with
  | identifier name =>
    simp only [opens, decide_eq_true_eq] at h
    exact ⟨if_neg h, rfl⟩
  | symbol symbol => cases symbol <;> first | exact ⟨rfl, rfl⟩ | cases h
  | number | string => exact ⟨rfl, rfl⟩
  | _ => cases h

-- ---------------------------------------------------------------------------
-- Lists
-- ---------------------------------------------------------------------------

/-- Reads every expression of fewer words than `budget`. -/
def ReadsBelow (nested : Parser Expr) (budget : Nat) : Prop :=
  ∀ (e : Expr) (inside : Bool), e.WellFormed → (e.words inside).length < budget →
    Reads nested (e.words inside) Ends (·.erase = e.erase)

theorem ends_comma : Ends (some (.symbol .comma)) := ⟨⟨rfl, rfl⟩, rfl, by simp, rfl⟩

theorem ends_mustacheClose : Ends (some .mustacheClose) := ⟨⟨rfl, rfl⟩, rfl, by simp, rfl⟩

theorem ends_close {close : Symbol}
    (h : close = .parenClose ∨ close = .bracketClose ∨ close = .braceClose) :
    Ends (some (.symbol close)) := by
  rcases h with rfl | rfl | rfl <;> exact ⟨⟨rfl, rfl⟩, rfl, by simp, rfl⟩

/-- After an item of a list there is its end, or a comma and another item. -/
theorem listEnd_reads {α : Type} {close : Symbol} (hclose : close ≠ .comma) {item : α}
    {items : Parser (List α × Span)} {kinds : List TokenKind} {R : List α → Prop}
    (h : (kinds = [.symbol close] ∧ R [item]) ∨
      ∃ more, kinds = .symbol .comma :: more ∧ Reads items more ahead fun r => R (item :: r.1)) :
    Reads (do
      match ← takeSymbol .comma with
      | some _ =>
        let (more, span) ← items
        return (item :: more, span)
      | none => return ([item], (← expectSymbol close).span)) kinds ahead fun r => R r.1 := by
  rcases h with ⟨rfl, hitem⟩ | ⟨more, rfl, hmore⟩
  · refine Reads.look Reads.takeSymbol_none ?_ ?_
    · rintro _ rfl hcomma
      exact hclose (by simpa using hcomma)
    · rintro _ rfl
      exact Reads.step Reads.expectSymbol fun _ _ => Reads.pure hitem
  · refine Reads.step Reads.takeSymbol fun found hfound => ?_
    obtain ⟨token, rfl⟩ := Option.isSome_iff_exists.mp hfound
    exact Reads.last hmore (fun _ => id) fun r hr => Reads.pure hr

section
variable (hnested : ReadsBelow nested budget)
include hnested

theorem elements_reads {close : Symbol} (hclose : close = .parenClose ∨ close = .bracketClose)
    {elements : List Element} (hwell : Element.AllWellFormed elements)
    (hlength : (Element.words [] elements).length < budget) {rounds : Nat}
    (hrounds : elements.length < rounds) :
    Reads (Expr.elements nested close rounds) (Element.words [] elements ++ [.symbol close]) ahead
      (fun r => Element.eraseAll r.1 = Element.eraseAll elements) := by
  have hopens : opens (.symbol close) = false := by rcases hclose with rfl | rfl <;> rfl
  have hcomma : close ≠ .comma := by rcases hclose with rfl | rfl <;> simp
  have hellipsis : close ≠ .ellipsis := by rcases hclose with rfl | rfl <;> simp
  induction elements generalizing rounds with
  | nil =>
    obtain ⟨rounds, rfl⟩ := Nat.exists_eq_succ_of_ne_zero (Nat.ne_of_gt hrounds)
    rw [Expr.elements]
    refine Reads.step Reads.takeSymbol fun found hfound => ?_
    obtain ⟨token, rfl⟩ := Option.isSome_iff_exists.mp hfound
    exact Reads.pure rfl
  | cons element rest ih =>
    obtain ⟨rounds, rfl⟩ := Nat.exists_eq_succ_of_ne_zero (Nat.ne_of_gt (Nat.zero_lt_of_lt hrounds))
    let kinds := Element.words [.symbol .comma] rest ++ [.symbol close]
    have hends : ∀ k, Seen ahead kinds k → Ends k := by
      cases rest with
      | nil =>
        rintro _ rfl
        exact ends_close (hclose.imp_right .inl)
      | cons second rest =>
        rw [show kinds = _ from congrArg (· ++ _) (Element.words_comma (List.cons_ne_nil _ _))]
        rintro _ rfl
        exact ends_comma
    have hend : Element.AllWellFormed rest → (Element.words [.symbol .comma] rest).length < budget →
        ∀ a, Element.eraseAll (a :: rest) = Element.eraseAll (element :: rest) →
        (kinds = [.symbol close] ∧ Element.eraseAll [a] = Element.eraseAll (element :: rest)) ∨
        ∃ more, kinds = .symbol .comma :: more ∧ Reads (elements nested close rounds) more ahead
          fun r => Element.eraseAll (a :: r.1) = Element.eraseAll (element :: rest) := by
      intro hwell hlength a ha
      cases rest with
      | nil => exact .inl ⟨rfl, ha⟩
      | cons second rest =>
        have hwords := Element.words_comma (List.cons_ne_nil second rest)
        refine .inr ⟨Element.words [] (second :: rest) ++ [.symbol close],
          congrArg (· ++ _) hwords, ?_⟩
        rw [hwords, List.length_cons] at hlength
        refine (ih hwell (by omega) (by simpa using hrounds)).mono (fun _ => id) fun r hr => ?_
        rw [← ha]
        cases a <;> simp [Element.eraseAll, hr]
    rw [Expr.elements]
    cases element with
    | single value =>
      obtain ⟨first, words, hwords, hfirst⟩ := words_opens hwell.1
      rw [Element.words, List.nil_append, List.append_assoc]
      rw [Element.words, List.nil_append, List.length_append] at hlength
      refine Reads.look Reads.takeSymbol_none ?_ ?_
      · rw [hwords]
        rintro _ rfl hfound
        cases hfound
        rw [hopens] at hfirst
        cases hfirst
      · rintro _ rfl
        refine Reads.look Reads.takeSymbol_none ?_ ?_
        · rw [hwords]
          rintro _ rfl hfound
          cases hfound
          cases hfirst
        · rintro _ rfl
          refine Reads.bind (hnested value true hwell.1 (by omega)) hends fun a ha => ?_
          exact listEnd_reads (R := fun r => Element.eraseAll r = Element.eraseAll (_ :: rest)) hcomma
            (hend hwell.2 (by omega) (.single a) (by simp [Element.eraseAll, ha]))
    | spread value =>
      rw [Element.words, List.nil_append, List.append_assoc]
      rw [Element.words, List.nil_append, List.length_append, List.length_cons] at hlength
      refine Reads.look Reads.takeSymbol_none ?_ ?_
      · rintro _ rfl hfound
        cases hfound
        exact hellipsis rfl
      · rintro _ rfl
        refine Reads.step Reads.takeSymbol fun found hfound => ?_
        rw [hfound]
        refine Reads.bind (hnested value true hwell.1 (by omega)) hends fun a ha => ?_
        exact listEnd_reads (R := fun r => Element.eraseAll r = Element.eraseAll (_ :: rest)) hcomma
          (hend hwell.2 (by omega) (.spread a) (by simp [Element.eraseAll, ha]))

theorem entry_reads {item : Entry} (hwell : Entry.AllWellFormed [item])
    (hlength : (Entry.words [] [item]).length < budget) :
    Reads (Expr.entry nested) (Entry.words [] [item])
      (fun k => Ends k ∧ k ≠ some (.symbol .colon))
      fun a => Entry.eraseAll [a] = Entry.eraseAll [item] := by
  rw [Expr.entry]
  cases item with
  | named key value =>
    simp only [Entry.words, List.nil_append, List.append_nil, Entry.AllWellFormed, and_true]
      at hlength hwell ⊢
    split
    · rename_i hnamed
      rw [if_pos hnamed] at hwell
      refine Reads.look Reads.takeSymbol_none (by rintro _ rfl h; cases h) ?_
      rintro _ rfl
      refine Reads.step Reads.takeRequired fun token htoken => ?_
      simp only [htoken]
      refine Reads.look Reads.peekKind (fun _ => id) fun k hk => ?_
      rw [if_neg hk.2]
      refine Reads.pure ?_
      cases value with
      | identifier span name =>
        simp only [isNamed, decide_eq_true_eq] at hnamed
        simp [Entry.eraseAll, Expr.erase, hnamed]
      | _ => cases hnamed
    · rename_i hnamed
      rw [if_neg hnamed] at hwell hlength
      simp only [List.length_cons] at hlength
      refine Reads.look Reads.takeSymbol_none (by rintro _ rfl h; cases h) ?_
      rintro _ rfl
      refine Reads.step Reads.takeRequired fun token htoken => ?_
      simp only [htoken, discard_bind]
      refine Reads.step Reads.expectSymbol fun _ _ => ?_
      refine Reads.last (hnested value true hwell (by omega)) (fun _ hk => hk.1) fun a ha => ?_
      exact Reads.pure (by simp [Entry.eraseAll, ha])
  | computed key value =>
    simp only [Entry.words, List.nil_append, List.append_nil, Entry.AllWellFormed, and_true]
      at hlength hwell ⊢
    rw [List.cons_append]
    simp only [List.length_cons, List.length_append] at hlength
    refine Reads.look Reads.takeSymbol_none (by rintro _ rfl h; cases h) ?_
    rintro _ rfl
    refine Reads.step Reads.takeRequired fun token htoken => ?_
    simp only [htoken, discard_bind]
    refine Reads.bind (hnested key true hwell.1 (by omega)) ?_ fun a ha => ?_
    · rintro _ rfl
      exact ends_close (.inr (.inl rfl))
    · refine Reads.step Reads.expectSymbol fun _ _ => Reads.step Reads.expectSymbol fun _ _ => ?_
      refine Reads.last (hnested value true hwell.2 (by omega)) (fun _ hk => hk.1) fun b hb => ?_
      exact Reads.pure (by simp [Entry.eraseAll, ha, hb])
  | spread value =>
    simp only [Entry.words, List.nil_append, List.append_nil, Entry.AllWellFormed, and_true]
      at hlength hwell ⊢
    rw [List.length_cons] at hlength
    refine Reads.step Reads.takeSymbol fun found hfound => ?_
    rw [if_pos hfound]
    refine Reads.last (hnested value true hwell (by omega)) (fun _ hk => hk.1) fun a ha => ?_
    exact Reads.pure (by simp [Entry.eraseAll, ha])

theorem entries_reads {items : List Entry} (hwell : Entry.AllWellFormed items)
    (hlength : (Entry.words [] items).length < budget) {rounds : Nat}
    (hrounds : items.length < rounds) :
    Reads (Expr.entries nested rounds) (Entry.words [] items ++ [.symbol .braceClose]) ahead
      (fun r => Entry.eraseAll r.1 = Entry.eraseAll items) := by
  induction items generalizing rounds with
  | nil =>
    obtain ⟨rounds, rfl⟩ := Nat.exists_eq_succ_of_ne_zero (Nat.ne_of_gt hrounds)
    rw [Expr.entries]
    refine Reads.step Reads.takeSymbol fun found hfound => ?_
    obtain ⟨token, rfl⟩ := Option.isSome_iff_exists.mp hfound
    exact Reads.pure rfl
  | cons item rest ih =>
    obtain ⟨rounds, rfl⟩ := Nat.exists_eq_succ_of_ne_zero (Nat.ne_of_gt (Nat.zero_lt_of_lt hrounds))
    have hwords : Entry.words [] (item :: rest) =
        Entry.words [] [item] ++ Entry.words [.symbol .comma] rest := by
      cases item <;> simp [Entry.words]
    have hitem : Entry.AllWellFormed [item] ∧ Entry.AllWellFormed rest := by
      cases item <;> simp_all [Entry.AllWellFormed]
    rw [hwords, List.length_append] at hlength
    rw [hwords, List.append_assoc, Expr.entries]
    refine Reads.look Reads.takeSymbol_none ?_ ?_
    · cases item with
      | named key value =>
        simp only [Entry.words]
        split <;> (rintro _ rfl h; cases h)
      | computed key value | spread value => rintro _ rfl h; cases h
    · rintro _ rfl
      have herase : ∀ {a more}, Entry.eraseAll [a] = Entry.eraseAll [item] →
          Entry.eraseAll more = Entry.eraseAll rest →
            Entry.eraseAll (a :: more) = Entry.eraseAll (item :: rest) := by
        intro a more ha hmore
        cases a <;> cases item <;> simp_all [Entry.eraseAll]
      refine Reads.bind (entry_reads hnested hitem.1 (by omega)) ?_ fun a ha => ?_
      · cases rest with
        | nil =>
          rintro _ rfl
          exact ⟨ends_close (.inr (.inr rfl)), by simp⟩
        | cons second rest =>
          rw [Entry.words_comma (List.cons_ne_nil _ _)]
          rintro _ rfl
          exact ⟨ends_comma, by simp⟩
      · refine listEnd_reads (R := fun r => Entry.eraseAll r = Entry.eraseAll (item :: rest))
          (by simp) ?_
        cases rest with
        | nil => exact .inl ⟨rfl, herase ha rfl⟩
        | cons second rest =>
          have hcomma := Entry.words_comma (List.cons_ne_nil second rest)
          rw [hcomma, List.length_cons] at hlength
          refine .inr ⟨Entry.words [] (second :: rest) ++ [.symbol .braceClose],
            congrArg (· ++ _) hcomma, ?_⟩
          refine (ih hitem.2 (by omega) (by simpa using hrounds)).mono (fun _ => id) fun r hr => ?_
          exact herase ha hr

/-- An operand is one token or stands in parentheses. -/
theorem primary_operand (hwell : e.WellFormed) (hlength : (e.words true).length ≤ budget)
    (fuel : Nat) : Reads (primary nested fuel) (e.words true) ahead (·.erase = e.erase) := by
  rcases words_inside e with hwords | ⟨span, value, rfl⟩ | ⟨span, name, rfl⟩
  · rw [hwords, List.length_append, List.length_cons, List.length_singleton] at hlength
    rw [hwords, primary]
    refine Reads.step Reads.takeRequired fun token htoken => ?_
    simp only [htoken, discard_bind]
    refine Reads.bind (hnested e false hwell (by omega)) ?_ fun a ha => ?_
    · rintro _ rfl
      exact ends_close (.inl rfl)
    · exact Reads.step Reads.expectSymbol fun _ _ => Reads.pure ha
  · exact primary_literal
  · exact primary_identifier hwell.2

theorem linked_operand (hwell : e.WellFormed) (hlength : (e.words true).length ≤ budget)
    (fuel : Nat) : Reads (primary nested (fuel + 1) >>= links nested (fuel + 1)) (e.words true)
      (fun k => k.any isLink = false) (·.erase = e.erase) :=
  Reads.last (primary_operand hnested hwell hlength _) (fun _ _ => trivial) fun _ ha => links_nil ha

omit hnested in
/-- Neither is an operand that starts with one. -/
theorem prefixed_updated {fuel : Nat} {more : List TokenKind} (hwell : e.WellFormed)
    (h : Reads (updated nested (fuel + 1)) (e.words true ++ more) ahead Q) :
    Reads (prefixed nested (fuel + 1)) (e.words true ++ more) ahead Q := by
  obtain ⟨kind, kinds, hwords, hopens⟩ := words_opens hwell
  rw [hwords] at h ⊢
  obtain ⟨hunary, hupdate⟩ := not_prefix_of_opens hopens
  exact prefixed_pass hunary hupdate h

theorem prefixed_operand (hwell : e.WellFormed) (hlength : (e.words true).length ≤ budget)
    (fuel : Nat) :
    Reads (prefixed nested (fuel + 1)) (e.words true) AfterOperand (·.erase = e.erase) := by
  rw [← List.append_nil (e.words true)]
  refine prefixed_updated hwell ?_
  rw [List.append_nil]
  exact updated_pass (linked_operand hnested hwell hlength fuel)

end

-- ---------------------------------------------------------------------------
-- Links
-- ---------------------------------------------------------------------------

section
variable (hnested : ReadsBelow nested budget) {base : Expr}
include hnested

theorem bracketKey_reads {key : Expr} (hwell : key.WellFormed)
    (hlength : (key.words true).length < budget) :
    Reads (bracketKey nested) (key.words true ++ [.symbol .bracketClose]) ahead
      (·.1.erase = .computed key.erase) := by
  rw [bracketKey]
  refine Reads.bind (hnested key true hwell hlength) ?_ fun a ha => ?_
  · rintro _ rfl
    exact ends_close (.inr (.inl rfl))
  · exact Reads.step Reads.expectSymbol fun _ _ => Reads.pure (by simp [Property.erase, ha])

omit hnested in
theorem namedKey_reads {name : String} :
    Reads namedKey [.identifier name] (fun _ => True) (·.1.erase = .named name) :=
  Reads.step Reads.name fun _ h => Reads.pure (by simp [Property.erase, h])

theorem links_member {property : Property} {optional : Bool} (hwell : property.WellFormed)
    (hlength : (property.words optional).length ≤ budget) (hbase : base.erase = e.erase)
    (span : Span) (fuel : Nat) :
    Reads (links nested (fuel + 2) base) (property.words optional) (fun k => k.any isLink = false)
      (·.erase = (Expr.member span e property optional).erase) := by
  have hend : ∀ (key : Property) (last : Span), key.erase = property.erase →
      Reads (links nested (fuel + 1) (.member (base.span.join last) base key optional)) []
        (fun k => k.any isLink = false) (·.erase = (Expr.member span e property optional).erase) :=
    fun key last hkey => links_nil (by simp [Expr.erase, hbase, hkey])
  rw [links]
  cases property with
  | named name =>
    cases optional with
    | false =>
      refine Reads.look Reads.peekKind (fun _ => id) ?_
      rintro _ rfl
      simp only [Bool.false_eq_true, if_false, discard_bind]
      refine Reads.step Reads.take fun _ _ => Reads.step namedKey_reads fun key hkey => ?_
      exact hend key.1 key.2 hkey
    | true =>
      refine Reads.look Reads.peekKind (fun _ => id) ?_
      rintro _ rfl
      simp only [if_true, discard_bind]
      refine Reads.step Reads.take fun _ _ => ?_
      refine Reads.look Reads.takeSymbol_none (by rintro _ rfl h; cases h) ?_
      rintro _ rfl
      exact Reads.step namedKey_reads fun key hkey => hend key.1 key.2 hkey
  | computed key =>
    cases optional with
    | false =>
      simp only [Property.words, Bool.false_eq_true, if_false, List.nil_append, List.length_append,
        List.length_cons, List.cons_append] at hlength ⊢
      refine Reads.look Reads.peekKind (fun _ => id) ?_
      rintro _ rfl
      simp only [discard_bind]
      refine Reads.step Reads.take fun _ _ => ?_
      refine Reads.last (bracketKey_reads hnested hwell (by omega)) (fun _ => id) fun key hkey => ?_
      exact hend key.1 key.2 hkey
    | true =>
      simp only [Property.words, if_true, List.length_append, List.length_cons,
        List.cons_append, List.nil_append] at hlength ⊢
      refine Reads.look Reads.peekKind (fun _ => id) ?_
      rintro _ rfl
      simp only [discard_bind]
      refine Reads.step Reads.take fun _ _ => Reads.step Reads.takeSymbol fun found hfound => ?_
      rw [if_pos hfound]
      refine Reads.last (bracketKey_reads hnested hwell (by omega)) (fun _ => id) fun key hkey => ?_
      exact hend key.1 key.2 hkey

theorem links_call {arguments : List Element} (hwell : Element.AllWellFormed arguments)
    (hlength : (Element.words [] arguments).length < budget) (hbase : base.erase = e.erase)
    (span : Span) {fuel : Nat} (hfuel : arguments.length < fuel + 2) :
    Reads (links nested (fuel + 2) base)
      (.symbol .parenOpen :: Element.words [] arguments ++ [.symbol .parenClose])
      (fun k => k.any isLink = false) (·.erase = (Expr.call span e arguments).erase) := by
  rw [links]
  refine Reads.look Reads.peekKind (fun _ => id) ?_
  rintro _ rfl
  simp only [discard_bind]
  refine Reads.step Reads.take fun _ _ => ?_
  refine Reads.last (elements_reads hnested (.inl rfl) hwell hlength hfuel) (fun _ => id)
    fun found hfound => ?_
  exact links_nil (by simp [Expr.erase, hbase, hfound])

end

-- ---------------------------------------------------------------------------
-- Expressions
-- ---------------------------------------------------------------------------

theorem elements_length (before : List TokenKind) (elements : List Element) :
    elements.length ≤ (Element.words before elements).length := by
  induction elements generalizing before with
  | nil => exact Nat.zero_le _
  | cons element rest ih =>
    have ih := ih [.symbol .comma]
    cases element with
    | single value | spread value =>
      have hpos := words_length_pos value
      simp only [Element.words, List.length_append, List.length_cons]
      omega

theorem entries_length (before : List TokenKind) (entries : List Entry) :
    entries.length ≤ (Entry.words before entries).length := by
  induction entries generalizing before with
  | nil => exact Nat.zero_le _
  | cons item rest ih =>
    have ih := ih [.symbol .comma]
    cases item with
    | named key value =>
      have hpos : 0 < (if value.isNamed key then [TokenKind.identifier key]
          else .string key :: .symbol .colon :: value.words true).length := by
        split <;> exact Nat.zero_lt_succ _
      simp only [Entry.words, List.length_append, List.length_cons]
      omega
    | computed key value | spread value =>
      simp only [Entry.words, List.length_append, List.length_cons]
      omega

theorem property_length_pos (property : Property) (optional : Bool) :
    0 < (property.words optional).length := by
  cases property with
  | named name => exact Nat.zero_lt_succ _
  | computed key => cases optional <;> exact Nat.zero_lt_succ _

section
variable {fuel : Nat} {kinds : List TokenKind}

theorem assignments_of_powers
    (h : Reads (powers (assignments fuel) (fuel + 1)) kinds (AfterLevels []) Q) :
    Reads (assignments (fuel + 1)) kinds Ends Q :=
  assignments_pass ((conditionals_pass (binaries_pass h)).mono (fun _ hk => hk.afterTest) fun _ => id)

theorem assignments_of_prefixed
    (h : Reads (prefixed (assignments fuel) (fuel + 1)) kinds AfterOperand Q) :
    Reads (assignments (fuel + 1)) kinds Ends Q :=
  assignments_of_powers (powers_pass h)

/-- Nothing that starts with one of these words is an operator in front. -/
theorem assignments_of_primary {kind : TokenKind} (hunary : unaryOp? kind = none)
    (hupdate : UpdateOp.ofToken? kind = none)
    (h : Reads (primary (assignments fuel) (fuel + 1)) (kind :: kinds) (fun _ => True) Q) :
    Reads (assignments (fuel + 1)) (kind :: kinds) Ends Q :=
  assignments_of_prefixed (prefixed_pass hunary hupdate
    (updated_pass (Reads.last h (fun _ _ => trivial) fun _ ha => links_nil ha)))

end

section
variable {fuel : Nat} (span : Span) (hnested : ReadsBelow (assignments (fuel + 1)) (fuel + 1))
include hnested

theorem member_reads {object : Expr} {property : Property} {optional : Bool}
    (hwell : object.WellFormed ∧ property.WellFormed)
    (hlength : ((Expr.member span object property optional).words false).length < fuel + 2) :
    Reads (assignments (fuel + 2)) ((Expr.member span object property optional).words false) Ends
      (·.erase = (Expr.member span object property optional).erase) := by
  simp only [words, wrap, Bool.false_eq_true, if_false, List.length_append] at hlength ⊢
  have hobject := words_length_pos object
  have hproperty := property_length_pos property optional
  refine assignments_of_prefixed (prefixed_updated hwell.1 (updated_pass ?_))
  refine Reads.bind (primary_operand hnested hwell.1 (by omega) _) (fun _ _ => trivial)
    fun a ha => ?_
  exact links_member hnested hwell.2 (by omega) ha span fuel

theorem call_reads {callee : Expr} {arguments : List Element}
    (hwell : callee.WellFormed ∧ Element.AllWellFormed arguments)
    (hlength : ((Expr.call span callee arguments).words false).length < fuel + 2) :
    Reads (assignments (fuel + 2)) ((Expr.call span callee arguments).words false) Ends
      (·.erase = (Expr.call span callee arguments).erase) := by
  simp only [words, wrap, Bool.false_eq_true, if_false, List.length_append, List.length_cons]
    at hlength ⊢
  have hcount := elements_length [] arguments
  rw [List.append_assoc]
  refine assignments_of_prefixed (prefixed_updated hwell.1 (updated_pass ?_))
  refine Reads.bind (primary_operand hnested hwell.1 (by omega) _) (fun _ _ => trivial)
    fun a ha => ?_
  exact links_call hnested hwell.2 (by omega) ha span (by omega)

theorem unary_reads {op : UnaryOp} {operand : Expr} (hwell : operand.WellFormed)
    (hlength : ((Expr.unary span op operand).words false).length < fuel + 2) :
    Reads (assignments (fuel + 2)) ((Expr.unary span op operand).words false) Ends
      (·.erase = (Expr.unary span op operand).erase) := by
  simp only [words, wrap, Bool.false_eq_true, if_false, List.length_cons] at hlength ⊢
  refine (assignments_of_prefixed (prefixed_unary op
    (prefixed_operand hnested hwell (by omega) fuel))).mono (fun _ => id) ?_
  rintro _ ⟨a, _, ha, rfl⟩
  simp [Expr.erase, ha]

theorem update_reads {op : UpdateOp} {side : UpdateSide} {target : Expr}
    (hwell : target.WellFormed)
    (hlength : ((Expr.update span op side target).words false).length < fuel + 2) :
    Reads (assignments (fuel + 2)) ((Expr.update span op side target).words false) Ends
      (·.erase = (Expr.update span op side target).erase) := by
  cases side with
  | before =>
    simp only [words, wrap, Bool.false_eq_true, if_false, List.length_cons] at hlength ⊢
    refine (assignments_of_prefixed (prefixed_before op
      (prefixed_operand hnested hwell (by omega) fuel))).mono (fun _ => id) ?_
    rintro _ ⟨a, _, ha, rfl⟩
    simp [Expr.erase, ha]
  | after =>
    simp only [words, wrap, Bool.false_eq_true, if_false, List.length_append, List.length_singleton]
      at hlength ⊢
    refine (assignments_of_prefixed (prefixed_updated hwell (updated_after op
      (linked_operand hnested hwell (by omega) _)))).mono (fun _ => id) ?_
    rintro _ ⟨a, _, ha, rfl⟩
    simp [Expr.erase, ha]

theorem binary_reads {op : BinaryOp} {left right : Expr}
    (hwell : left.WellFormed ∧ right.WellFormed)
    (hlength : ((Expr.binary span op left right).words false).length < fuel + 2) :
    Reads (assignments (fuel + 2)) ((Expr.binary span op left right).words false) Ends
      (·.erase = (Expr.binary span op left right).erase) := by
  simp only [words, wrap, Bool.false_eq_true, if_false, List.length_append, List.length_cons]
    at hlength ⊢
  have herase : ∀ a, (∃ l r s, l.erase = left.erase ∧ r.erase = right.erase ∧
      a = Expr.binary s op l r) → a.erase = (Expr.binary span op left right).erase := by
    rintro _ ⟨l, r, s, hl, hr, rfl⟩
    simp [Expr.erase, hl, hr]
  have hl := prefixed_operand hnested hwell.1 (by omega) (fuel + 1)
  have hr := fun fuel => powers_pass (prefixed_operand hnested hwell.2 (by omega) fuel)
  by_cases hpower : op = .power
  · subst hpower
    exact (assignments_of_powers (powers_power hl (hr fuel))).mono (fun _ => id) herase
  · refine (assignments_pass ((conditionals_pass ?_).mono (fun _ hk => hk.afterTest)
      fun _ => id)).mono (fun _ => id) herase
    exact binaries_binary hpower (powers_pass hl) (hr (fuel + 1))

theorem conditional_reads {test consequent alternate : Expr}
    (hwell : test.WellFormed ∧ consequent.WellFormed ∧ alternate.WellFormed)
    (hlength : ((Expr.conditional span test consequent alternate).words false).length < fuel + 2) :
    Reads (assignments (fuel + 2)) ((Expr.conditional span test consequent alternate).words false) Ends
      (·.erase = (Expr.conditional span test consequent alternate).erase) := by
  simp only [words, wrap, Bool.false_eq_true, if_false, List.length_append, List.length_cons]
    at hlength ⊢
  have ht := binaries_pass (powers_pass (prefixed_operand hnested hwell.1 (by omega) (fuel + 1)))
  refine (assignments_pass (conditionals_conditional ht
    (hnested consequent true hwell.2.1 (by omega))
    (hnested alternate true hwell.2.2 (by omega)))).mono (fun _ => id) ?_
  rintro _ ⟨a, b, c, _, ha, hb, hc, rfl⟩
  simp [Expr.erase, ha, hb, hc]

theorem assignment_reads {op : AssignOp} {target value : Expr}
    (hwell : target.WellFormed ∧ value.WellFormed)
    (hlength : ((Expr.assignment span op target value).words false).length < fuel + 2) :
    Reads (assignments (fuel + 2)) ((Expr.assignment span op target value).words false) Ends
      (·.erase = (Expr.assignment span op target value).erase) := by
  simp only [words, wrap, Bool.false_eq_true, if_false, List.length_append, List.length_cons]
    at hlength ⊢
  have htarget := words_length_pos target
  have ht := conditionals_pass (binaries_pass (powers_pass
    (prefixed_operand hnested hwell.1 (by omega) (fuel + 1))))
  refine (assignments_assignment ht (hnested value true hwell.2 (by omega))).mono (fun _ => id) ?_
  rintro _ ⟨a, b, _, ha, hb, rfl⟩
  simp [Expr.erase, ha, hb]

theorem array_reads {elements : List Element} (hwell : Element.AllWellFormed elements)
    (hlength : ((Expr.array span elements).words false).length < fuel + 2) :
    Reads (assignments (fuel + 2)) ((Expr.array span elements).words false) Ends
      (·.erase = (Expr.array span elements).erase) := by
  simp only [words, wrap, Bool.false_eq_true, if_false, List.length_append, List.length_cons,
    List.length_nil] at hlength ⊢
  have hcount := elements_length [] elements
  refine assignments_of_primary rfl rfl ?_
  rw [primary]
  refine Reads.step Reads.takeRequired fun token htoken => ?_
  simp only [htoken]
  refine Reads.last (elements_reads hnested (.inr rfl) hwell (by omega) (by omega)) (fun _ => id)
    fun found hfound => Reads.pure ?_
  simp [Expr.erase, hfound]

theorem object_reads {entries : List Entry} (hwell : Entry.AllWellFormed entries)
    (hlength : ((Expr.object span entries).words false).length < fuel + 2) :
    Reads (assignments (fuel + 2)) ((Expr.object span entries).words false) Ends
      (·.erase = (Expr.object span entries).erase) := by
  simp only [words, wrap, Bool.false_eq_true, if_false, List.length_append, List.length_cons,
    List.length_nil] at hlength ⊢
  have hcount := entries_length [] entries
  refine assignments_of_primary rfl rfl ?_
  rw [primary]
  refine Reads.step Reads.takeRequired fun token htoken => ?_
  simp only [htoken]
  refine Reads.last (entries_reads hnested hwell (by omega) (by omega)) (fun _ => id)
    fun found hfound => Reads.pure ?_
  simp [Expr.erase, hfound]

end

/-- The parser reads every expression off its words. -/
theorem assignments_reads (budget : Nat) : ReadsBelow (assignments budget) budget := by
  induction budget with
  | zero => intro e inside _ hlength; cases hlength
  | succ budget ih =>
    intro e inside hwell hlength
    have hoperand (h : (e.words true).length < budget + 1) :
        Reads (assignments (budget + 1)) (e.words true) Ends (·.erase = e.erase) :=
      assignments_of_prefixed (prefixed_operand ih hwell (Nat.le_of_lt_succ h) budget)
    cases inside with
    | true => exact hoperand hlength
    | false =>
      -- links and operators are looked for once more after the last one
      obtain ⟨fuel, rfl⟩ : ∃ fuel, budget = fuel + 1 := by
        have := words_length e false
        exact Nat.exists_eq_add_one_of_ne_zero (by omega)
      cases e with
      | literal | identifier => exact hoperand hlength
      | member span => exact member_reads span ih hwell hlength
      | array span => exact array_reads span ih hwell hlength
      | object span => exact object_reads span ih hwell hlength
      | call span => exact call_reads span ih hwell hlength
      | unary span => exact unary_reads span ih hwell hlength
      | binary span => exact binary_reads span ih hwell hlength
      | conditional span => exact conditional_reads span ih hwell hlength
      | assignment span => exact assignment_reads span ih hwell hlength
      | update span => exact update_reads span ih hwell hlength

/-- A bound above the number of its tokens is what the parser takes for it. -/
theorem parser_reads {e : Expr} {inside : Bool} (hwell : e.WellFormed) :
    Reads Expr.parser (e.words inside) Ends (·.erase = e.erase) :=
  Reads.budget_bind fun budget hlength => assignments_reads budget e inside hwell hlength

end PromptTemplate.Expr
