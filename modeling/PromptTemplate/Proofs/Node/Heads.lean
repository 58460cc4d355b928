import PromptTemplate.Proofs.Expr.Reads
import PromptTemplate.Proofs.Syntax.Items

/-!
# Reading back patterns and attributes

What stands between the opening of an item and its end, apart from
expressions.
-/

namespace PromptTemplate

open PromptTemplate.Parser

variable {ahead : Option TokenKind → Prop}

-- ---------------------------------------------------------------------------
-- Patterns
-- ---------------------------------------------------------------------------

namespace Pattern

/-- Reads every pattern of fewer words than `budget`. -/
def ReadsBelow (nested : Parser Pattern) (budget : Nat) : Prop :=
  ∀ (p : Pattern) (ahead : Option TokenKind → Prop), p.WellFormed → p.words.length < budget →
    Reads nested p.words ahead (·.erase = p.erase)

theorem words_length_pos (p : Pattern) : 0 < p.words.length := by
  cases p <;> exact Nat.zero_lt_succ _

section
variable {nested : Parser Pattern} {budget : Nat} (hnested : ReadsBelow nested budget)
include hnested

theorem entries_reads {items : List (Ident × Pattern)} (hwell : EntriesWellFormed items)
    (hlength : (entryWords [] items).length < budget) {rounds : Nat}
    (hrounds : items.length < rounds) :
    Reads (entries nested rounds) (entryWords [] items ++ [.symbol .braceClose]) ahead
      (fun r => eraseEntries r = eraseEntries items) := by
  induction items generalizing rounds with
  | nil =>
    obtain ⟨rounds, rfl⟩ := Nat.exists_eq_succ_of_ne_zero (Nat.ne_of_gt hrounds)
    rw [entries]
    refine Reads.step Reads.takeSymbol fun found hfound => ?_
    rw [if_pos hfound]
    exact Reads.pure rfl
  | cons item rest ih =>
    obtain ⟨rounds, rfl⟩ := Nat.exists_eq_succ_of_ne_zero (Nat.ne_of_gt (Nat.zero_lt_of_lt hrounds))
    obtain ⟨key, p⟩ := item
    obtain ⟨hkey, hp, hrest⟩ := hwell
    simp only [entryWords, List.nil_append, List.cons_append, List.append_assoc, List.length_append,
      List.length_cons] at hlength ⊢
    rw [entries]
    refine Reads.look Reads.takeSymbol_none (by rintro _ rfl h; cases h) ?_
    rintro _ rfl
    refine Reads.step Reads.name fun found hfound => ?_
    refine Reads.step Reads.takeSymbol fun colon hcolon => ?_
    simp only [hcolon, if_true]
    refine Reads.bind (hnested p (fun _ => True) hp (by omega)) (fun _ _ => trivial) fun a ha => ?_
    cases rest with
    | nil =>
      refine Reads.look Reads.takeSymbol_none (by rintro _ rfl h; cases h) ?_
      rintro _ rfl
      simp only [discard_bind]
      refine Reads.step Reads.expectSymbol fun _ _ => Reads.pure ?_
      simp [eraseEntries, Ident.erase, hfound, ha]
    | cons second rest =>
      have hcomma := entryWords_comma (List.cons_ne_nil second rest)
      rw [hcomma, List.length_cons] at hlength
      rw [hcomma]
      refine Reads.step Reads.takeSymbol fun comma hcomma => ?_
      rw [if_pos hcomma]
      refine Reads.last (ih hrest (by omega) (by simpa using hrounds)) (fun _ => id) fun r hr => ?_
      exact Reads.pure (by simp [eraseEntries, Ident.erase, hfound, ha, hr])

theorem items_reads {patterns : List Pattern} (hwell : ItemsWellFormed patterns)
    (hlength : (itemWords [] patterns).length < budget) {rounds : Nat}
    (hrounds : patterns.length < rounds) :
    Reads (items nested rounds) (itemWords [] patterns ++ [.symbol .bracketClose]) ahead
      (fun r => eraseItems r = eraseItems patterns) := by
  induction patterns generalizing rounds with
  | nil =>
    obtain ⟨rounds, rfl⟩ := Nat.exists_eq_succ_of_ne_zero (Nat.ne_of_gt hrounds)
    rw [items]
    refine Reads.step Reads.takeSymbol fun found hfound => ?_
    rw [if_pos hfound]
    exact Reads.pure rfl
  | cons p rest ih =>
    obtain ⟨rounds, rfl⟩ := Nat.exists_eq_succ_of_ne_zero (Nat.ne_of_gt (Nat.zero_lt_of_lt hrounds))
    obtain ⟨hp, hrest⟩ := hwell
    simp only [itemWords, List.nil_append, List.append_assoc, List.length_append] at hlength ⊢
    rw [items]
    refine Reads.look Reads.takeSymbol_none ?_ ?_
    · cases p <;> (rintro _ rfl h; cases h)
    · rintro _ rfl
      refine Reads.bind (hnested p (fun _ => True) hp (by omega)) (fun _ _ => trivial) fun a ha => ?_
      cases rest with
      | nil =>
        refine Reads.look Reads.takeSymbol_none (by rintro _ rfl h; cases h) ?_
        rintro _ rfl
        simp only [discard_bind]
        refine Reads.step Reads.expectSymbol fun _ _ => Reads.pure ?_
        simp [eraseItems, ha]
      | cons second rest =>
        have hcomma := itemWords_comma (List.cons_ne_nil second rest)
        rw [hcomma, List.length_cons] at hlength
        rw [hcomma]
        refine Reads.step Reads.takeSymbol fun comma hcomma => ?_
        rw [if_pos hcomma]
        refine Reads.last (ih hrest (by omega) (by simpa using hrounds)) (fun _ => id) fun r hr => ?_
        exact Reads.pure (by simp [eraseItems, ha, hr])

end

theorem entries_length (before : List TokenKind) (entries : List (Ident × Pattern)) :
    entries.length ≤ (entryWords before entries).length := by
  induction entries generalizing before with
  | nil => exact Nat.zero_le _
  | cons entry rest ih =>
    have ih := ih [.symbol .comma]
    simp only [entryWords, List.length_append, List.length_cons]
    omega

theorem items_length (before : List TokenKind) (items : List Pattern) :
    items.length ≤ (itemWords before items).length := by
  induction items generalizing before with
  | nil => exact Nat.zero_le _
  | cons p rest ih =>
    have ih := ih [.symbol .comma]
    have hpos := words_length_pos p
    simp only [itemWords, List.length_append, List.length_cons]
    omega

theorem patterns_reads (budget : Nat) : ReadsBelow (patterns budget) budget := by
  induction budget with
  | zero => intro p _ _ hlength; cases hlength
  | succ budget ih =>
    intro p ahead hwell hlength
    rw [patterns]
    cases p with
    | ident name =>
      refine Reads.step Reads.takeRequired fun token htoken => ?_
      simp only [htoken]
      exact Reads.pure rfl
    | object entries =>
      have hcount := entries_length [] entries
      simp only [words, List.cons_append, List.length_cons, List.length_append, List.length_nil] at hlength ⊢
      refine Reads.step Reads.takeRequired fun token htoken => ?_
      simp only [htoken]
      refine Reads.last (entries_reads ih hwell (by omega) (by omega)) (fun _ => id) fun r hr => ?_
      exact Reads.pure (by simp [Pattern.erase, hr])
    | array items =>
      have hcount := items_length [] items
      simp only [words, List.cons_append, List.length_cons, List.length_append, List.length_nil] at hlength ⊢
      refine Reads.step Reads.takeRequired fun token htoken => ?_
      simp only [htoken]
      refine Reads.last (items_reads ih hwell (by omega) (by omega)) (fun _ => id) fun r hr => ?_
      exact Reads.pure (by simp [Pattern.erase, hr])

theorem parser_reads {p : Pattern} (hwell : p.WellFormed) :
    Reads parser p.words ahead (·.erase = p.erase) :=
  Reads.budget_bind fun budget hlength => patterns_reads budget p ahead hwell hlength

end Pattern

-- ---------------------------------------------------------------------------
-- Attributes
-- ---------------------------------------------------------------------------

namespace Attribute

theorem valueParser_reads {value : AttributeValue} (hwell : value.WellFormed) :
    Reads valueParser value.words (· ≠ some (.symbol .assign)) (·.erase = value.erase) := by
  rw [valueParser]
  cases value with
  | flag =>
    refine Reads.look Reads.takeSymbol_none (fun _ => id) ?_
    rintro _ rfl
    exact Reads.pure rfl
  | literal text =>
    refine Reads.step Reads.takeSymbol fun found hfound => ?_
    obtain ⟨token, rfl⟩ := Option.isSome_iff_exists.mp hfound
    refine Reads.step Reads.take fun taken htaken => ?_
    obtain ⟨span, rfl⟩ := htaken
    exact Reads.pure rfl
  | expression value =>
    refine Reads.step Reads.takeSymbol fun found hfound => ?_
    obtain ⟨token, rfl⟩ := Option.isSome_iff_exists.mp hfound
    refine Reads.step Reads.take fun taken htaken => ?_
    obtain ⟨span, rfl⟩ := htaken
    refine Reads.bind (Expr.parser_reads hwell) ?_ fun a ha => ?_
    · rintro _ rfl
      exact Expr.ends_mustacheClose
    · simp only [discard_bind]
      refine Reads.step Reads.expectClose fun _ _ => Reads.pure ?_
      simp [AttributeValue.erase, ha]

/-- The token that ends the opening of a tag. -/
def closeWord (selfClosing : Bool) : TokenKind := if selfClosing then .tagSelfClose else .tagEnd

theorem list_reads {attributes earlier : List Attribute} {selfClosing : Bool} {budget : Nat}
    (hwell : ∀ a ∈ attributes, a.value.WellFormed)
    (hdistinct : (earlier.map Attribute.name ++ attributes.map Attribute.name).Nodup)
    (hbudget : attributes.length < budget) :
    Reads (list budget earlier) (attributes.flatMap Attribute.words ++ [closeWord selfClosing]) ahead
      (fun r => r.1.map erase = (earlier ++ attributes).map erase ∧
        r.2.selfClosing = selfClosing) := by
  induction attributes generalizing earlier budget with
  | nil =>
    obtain ⟨budget, rfl⟩ := Nat.exists_eq_succ_of_ne_zero (Nat.ne_of_gt hbudget)
    rw [list]
    refine Reads.step Reads.takeRequired fun token htoken => ?_
    cases selfClosing <;> simp only [htoken, closeWord] <;> exact Reads.pure (by simp)
  | cons a rest ih =>
    obtain ⟨budget, rfl⟩ := Nat.exists_eq_succ_of_ne_zero (Nat.ne_of_gt (Nat.zero_lt_of_lt hbudget))
    have hnew : find? earlier a.name = none := by
      rw [find?, List.find?_eq_none]
      intro other hother hname
      have hname : other.name = a.name := by simpa using hname
      exact (List.nodup_append.mp hdistinct).2.2 _ (List.mem_map_of_mem hother) _
        (List.mem_map_of_mem (List.mem_cons_self ..)) hname
    rw [list]
    simp only [List.flatMap_cons, words, List.cons_append, List.append_assoc]
    refine Reads.step Reads.takeRequired fun token htoken => ?_
    simp only [htoken, hnew, Option.isSome_none, Bool.false_eq_true, if_false]
    refine Reads.bind (valueParser_reads (hwell a (by simp))) ?_ fun value hvalue => ?_
    · cases rest with
      | nil => rintro _ rfl; cases selfClosing <;> simp [closeWord]
      | cons second rest => rintro _ rfl; simp
    · refine (ih (fun b hb => hwell b (by simp [hb])) ?_ (by simpa using hbudget)).mono
        (fun _ => id) fun r hr => ⟨?_, hr.2⟩
      · simpa using hdistinct
      · simp [hr.1, erase, hvalue]

theorem checkLiteral_reads {attributes : List Attribute} {names : List String}
    (h : ∀ a ∈ attributes, a.name ∈ names → a.value.isExpression = false) :
    Reads (checkLiteral attributes names) [] ahead (fun _ => True) := by
  induction names with
  | nil => exact Reads.pure trivial
  | cons name names ih =>
    rw [checkLiteral]
    split
    · rename_i found span value hfound
      have hname : found = name := by simpa using List.find?_some hfound
      cases h _ (List.mem_of_find?_eq_some hfound) (by simp [hname])
    · exact ih fun a ha hmem => h a ha (by simp [hmem])

/-- Which attributes hold expressions does not depend on places. -/
theorem literal_of_erase {attributes others : List Attribute} {names : List String}
    (herase : others.map erase = attributes.map erase)
    (h : ∀ a ∈ attributes, a.name ∈ names → a.value.isExpression = false) :
    ∀ a ∈ others, a.name ∈ names → a.value.isExpression = false := by
  intro a ha hname
  have hmem : a.erase ∈ attributes.map erase := herase ▸ List.mem_map_of_mem ha
  obtain ⟨b, hb, hab⟩ := List.mem_map.mp hmem
  have hsame : b.name = a.name ∧ b.value.erase = a.value.erase := by simpa [erase] using hab
  have hb := h b hb (hsame.1 ▸ hname)
  rwa [← AttributeValue.isExpression_erase, hsame.2, AttributeValue.isExpression_erase] at hb

end Attribute

end PromptTemplate
