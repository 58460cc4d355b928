import PromptTemplate.Proofs.Number.Numeral
import PromptTemplate.Proofs.Token.Moved
import PromptTemplate.Proofs.Token.Words

/-!
# Words in front of different texts

A word in front of the end of the text, or of something else that ends words,
is taken in front of another end, too.
-/

namespace PromptTemplate.Lexer

variable {cs a b : List Char} {p q : Position} {depth : Nat} {outer modes : List Mode}

theorem Emits.leads {l m : Lexer} {tokens : List Token} (h : Emits l tokens m) :
    l.place.Leads m.place := by
  induction h with
  | nil => exact .refl _
  | cons first _ _ ih => exact (leads_of_token first).trans ih

theorem Emits.suffix {l m : Lexer} {tokens : List Token} (h : Emits l tokens m) : m.rest <:+ l.rest := by
  obtain ⟨taken, htaken, -⟩ := h.leads
  exact ⟨taken, htaken.symm⟩

-- ---------------------------------------------------------------------------
-- Pieces in front of any text
-- ---------------------------------------------------------------------------

/-- Both steps take the same token and leave the same text in front of `a` and of `b`. -/
inductive Step.Matches (a b : List Char) : Step → Step → Prop
  | intro (token x q modes) : Matches a b (.ok (some token), ⟨x ++ a, q, modes, false⟩)
      (.ok (some token), ⟨x ++ b, q, modes, false⟩)

theorem Step.Matches.emit {x : List Char} {kind : TokenKind} :
    Step.Matches a b ((⟨x ++ a, q, modes, false⟩ : Lexer).emit p kind)
      ((⟨x ++ b, q, modes, false⟩ : Lexer).emit p kind) :=
  .intro _ x q modes

theorem Step.Matches.token {s s' : Step} (h : Step.Matches a b s s') :
    ∃ token, s'.1 = .ok (some token) := by
  cases h with
  | intro token => exact ⟨token, rfl⟩

/-- A blank before a word makes no difference. -/
theorem blank_matches {mode : Mode} {c : Char} {token : Token} {m : Lexer} (hc : Text.isBlank c)
    (ih : ∀ {p}, (⟨cs ++ a, p, mode :: outer, false⟩ : Lexer).next = (.ok (some token), m) →
      Step.Matches a b (⟨cs ++ a, p, mode :: outer, false⟩ : Lexer).next
        (⟨cs ++ b, p, mode :: outer, false⟩ : Lexer).next)
    (h : (⟨c :: (cs ++ a), p, mode :: outer, false⟩ : Lexer).next = (.ok (some token), m)) :
    Step.Matches a b (⟨c :: (cs ++ a), p, mode :: outer, false⟩ : Lexer).next
      (⟨c :: (cs ++ b), p, mode :: outer, false⟩ : Lexer).next := by
  have hbehind := next_of_blank hc h
  have hrest := ih hbehind
  -- without a text there would be no token
  have hend : cs ++ b ≠ [] := by
    intro hnil
    obtain ⟨token, hstep⟩ := hrest.token
    rw [hnil] at hstep
    cases hstep
  rwa [next_blank hc hend, h, ← hbehind]

-- ---------------------------------------------------------------------------
-- Words of expressions
-- ---------------------------------------------------------------------------

theorem split_of_length {taken rest : List Char} (h : a.length ≤ rest.length)
    (htaken : cs ++ a = taken ++ rest) : ∃ x, cs = taken ++ x ∧ rest = x ++ a := by
  obtain ⟨x, rfl, rfl⟩ | ⟨x, rfl, rfl⟩ := List.append_eq_append_iff.1 htaken
  · rw [List.length_append] at h
    obtain rfl : x = [] := List.length_eq_zero_iff.1 (by omega)
    exact ⟨[], by simp, rfl⟩
  · exact ⟨x, rfl, rfl⟩

/-- A string ends with its quote, whatever comes then. -/
theorem string_matches {c : Char} {token : Token} {m : Lexer}
    (h : (⟨c :: (cs ++ a), p, modes, false⟩ : Lexer).string c = (.ok (some token), m))
    (hm : a.length ≤ m.rest.length) :
    Step.Matches a b ((⟨c :: (cs ++ a), p, modes, false⟩ : Lexer).string c)
      ((⟨c :: (cs ++ b), p, modes, false⟩ : Lexer).string c) := by
  simp only [string, List.drop_one, List.tail_cons] at h ⊢
  cases hbody : stringBody? c (cs ++ a) with
  | none =>
    rw [hbody] at h
    cases h
  | some found =>
    obtain ⟨body, rest⟩ := found
    obtain ⟨taken, htaken, hself⟩ := stringBody?_self hbody
    rw [hbody] at h
    dsimp only at h ⊢
    have hupTo (more : List Char) : (⟨c :: (taken ++ more), p, modes, false⟩ : Lexer).upTo more =
        ⟨more, p.afterAll (c :: taken), modes, false⟩ :=
      @upTo_append (c :: taken) ..
    rw [htaken, hupTo] at h ⊢
    cases h
    obtain ⟨x, rfl, rfl⟩ : ∃ x, cs = taken ++ x ∧ rest = x ++ a := split_of_length hm htaken
    rw [List.append_assoc, hself]
    dsimp only
    rw [hupTo]
    exact .emit

section
variable (ha : Closed a) (hb : Closed b)
include ha hb

theorem number_matches (c : Char) (kind : Number.Numeral → TokenKind) :
    Step.Matches a b
      (((⟨c :: (cs ++ a), p, modes, false⟩ : Lexer).upTo
        (Number.takeNumeral (c :: (cs ++ a))).2).emit p (kind (Number.takeNumeral (c :: (cs ++ a))).1))
      (((⟨c :: (cs ++ b), p, modes, false⟩ : Lexer).upTo
        (Number.takeNumeral (c :: (cs ++ b))).2).emit p
          (kind (Number.takeNumeral (c :: (cs ++ b))).1)) := by
  rw [← List.cons_append, ← List.cons_append, Number.takeNumeral_append ha.ended,
    Number.takeNumeral_append hb.ended]
  cases hnumeral : Number.takeNumeral (c :: cs) with
  | mk numeral rest =>
    obtain ⟨taken, htaken, -⟩ := Number.takeNumeral_self hnumeral
    rw [htaken, List.append_assoc, List.append_assoc, upTo_append, upTo_append]
    exact .emit

theorem takeRun_matches {r : Char → Bool} (hr : ∀ c, endsWord c → r c = false) (kind : String → TokenKind) :
    Step.Matches a b
      (((⟨cs ++ a, p, modes, false⟩ : Lexer).takeRun r).2.emit p
        (kind ((⟨cs ++ a, p, modes, false⟩ : Lexer).takeRun r).1))
      (((⟨cs ++ b, p, modes, false⟩ : Lexer).takeRun r).2.emit p
        (kind ((⟨cs ++ b, p, modes, false⟩ : Lexer).takeRun r).1)) := by
  simp only [takeRun, ha.takeWhile hr, hb.takeWhile hr]
  have hsplit : cs.takeWhile r ++ cs.dropWhile r = cs := List.takeWhile_append_dropWhile
  generalize cs.takeWhile r = run at *
  generalize cs.dropWhile r = rest at *
  subst hsplit
  rw [List.append_assoc, List.append_assoc, advance_append, advance_append]
  exact .emit

omit ha hb in
theorem symbol_matches {symbol : Symbol} (h : symbol? cs = some symbol) :
    Step.Matches a b
      (((⟨cs ++ a, p, modes, false⟩ : Lexer).advance symbol.text.length).emit p (.symbol symbol))
      (((⟨cs ++ b, p, modes, false⟩ : Lexer).advance symbol.text.length).emit p
        (.symbol symbol)) := by
  have hprefix := List.find?_some h
  simp only [Bool.and_eq_true] at hprefix
  obtain ⟨rest, rfl⟩ := List.isPrefixOf_iff_prefix.1 hprefix.1
  rw [← String.length_toList, List.append_assoc, List.append_assoc, advance_append, advance_append]
  exact .emit

variable {token : Token} {m : Lexer}

theorem word_matches {c : Char} (hblank : Text.isBlank c = false) (hopen : c ≠ '{')
    (hclose : c ≠ '}')
    (h : (⟨c :: (cs ++ a), p, .expression depth :: outer, false⟩ : Lexer).next =
      (.ok (some token), m)) (hm : a.length ≤ m.rest.length) :
    Step.Matches a b (⟨c :: (cs ++ a), p, .expression depth :: outer, false⟩ : Lexer).next
      (⟨c :: (cs ++ b), p, .expression depth :: outer, false⟩ : Lexer).next := by
  rw [next_word hblank hopen hclose] at h ⊢
  rw [next_word hblank hopen hclose]
  dsimp only at h ⊢
  rw [ha.startsNumber c] at h ⊢
  rw [hb.startsNumber c]
  by_cases hquote : c = '"' || c = '\''
  · simp only [hquote, if_true] at h ⊢
    exact string_matches h hm
  · simp only [hquote, Bool.false_eq_true, if_false] at h ⊢
    by_cases hnumber : Lexer.startsNumber (c :: cs)
    · simp only [hnumber, if_true]
      exact number_matches ha hb c fun numeral => .number (numeral.toFloat false)
    · simp only [hnumber] at h ⊢
      by_cases hident : Text.isIdentStart c
      · simp only [hident, if_true]
        exact @takeRun_matches (c :: cs) _ _ _ _ ha hb _ (fun _ => not_isIdentPart_of_endsWord) .identifier
      · simp only [hident] at h ⊢
        rw [ha.symbol? c] at h ⊢
        rw [hb.symbol? c]
        cases hsymbol : Lexer.symbol? (c :: cs) with
        | none =>
          rw [hsymbol] at h
          cases h
        | some symbol => exact symbol_matches hsymbol

end

theorem word_isOperand {c : Char} {more : List Char} {token : Token} {m : Lexer}
    (hblank : Text.isBlank c = false) (hopen : c ≠ '{') (hclose : c ≠ '}')
    (h : (⟨c :: more, p, .expression depth :: outer, false⟩ : Lexer).next =
      (.ok (some token), m)) : token.kind.isOperand := by
  rw [next_word hblank hopen hclose] at h
  dsimp only at h
  split at h
  · unfold string at h
    split at h
    · cases h
      rfl
    · cases h
  · split at h
    · cases h
      rfl
    · split at h
      · cases h
        rfl
      · split at h
        · rename_i symbol hsymbol
          cases h
          exact TokenKind.isOperand_of_mem_table symbol (List.mem_of_find?_eq_some hsymbol)
        · cases h

/-- A token in front of `a` is taken in front of `b`, too. What is behind an end of words does not matter. -/
theorem expression_matches {token : Token} {m : Lexer}
    (h : (⟨cs ++ a, p, .expression depth :: outer, false⟩ : Lexer).next = (.ok (some token), m))
    (hm : a.length ≤ m.rest.length) (hab : token.kind.isOperand → Closed a ∧ Closed b) :
    Step.Matches a b (⟨cs ++ a, p, .expression depth :: outer, false⟩ : Lexer).next
      (⟨cs ++ b, p, .expression depth :: outer, false⟩ : Lexer).next := by
  induction cs generalizing p with
  | nil => exact absurd (length_of_token h) (Nat.not_lt.2 hm)
  | cons c cs ih =>
    by_cases hblank : Text.isBlank c
    · exact blank_matches hblank ih h
    · by_cases hopen : c = '{'
      · subst hopen
        exact .emit
      · by_cases hclose : c = '}'
        · subst hclose
          cases depth <;> exact .emit
        · have hblank : Text.isBlank c = false := by simpa using hblank
          obtain ⟨ha, hb⟩ := hab (word_isOperand hblank hopen hclose h)
          exact word_matches ha hb hblank hopen hclose h hm

end PromptTemplate.Lexer
