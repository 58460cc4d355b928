import PromptTemplate.Proofs.Expr.Nests
import PromptTemplate.Proofs.Token.Tail

/-!
# Texts cut off behind a token

Where a token of an expression ends, the text may be cut off: the tokens up to
there are the same (`emits_cut`). And the braces around them do not matter, if
they close their own.
-/

namespace PromptTemplate.Lexer

variable {cs x a : List Char} {p : Position} {depth : Nat} {outer modes : List Mode} {token : Token}
  {m : Lexer}

-- ---------------------------------------------------------------------------
-- One word
-- ---------------------------------------------------------------------------

/-- A point and a digit behind it belong to the same numeral. -/
theorem takeNumeral_point (h : startsDigit a) : (Number.takeNumeral ('.' :: a)).2.length < a.length := by
  cases a with
  | nil => cases h
  | cons d a =>
    have hd : d.isDigit = true := h
    have hnumeral : (Number.takeNumeral ('.' :: d :: a)).2 =
        (Number.takeExponent (a.dropWhile Char.isDigit)).2 := by
      simp [Number.takeNumeral, Number.takeDigits, Number.takeFraction, hd]
    rw [hnumeral, List.length_cons]
    rcases hexponent : Number.takeExponent (a.dropWhile Char.isDigit) with ⟨exponent, rest⟩
    obtain ⟨taken, hsplit, -⟩ := Number.takeExponent_self hexponent
    have hsuffix := (List.dropWhile_sublist Char.isDigit (l := a)).length_le
    rw [hsplit, List.length_append] at hsuffix
    dsimp only
    omega

/-- A question mark and a point are two symbols in front of a digit alone. -/
def Splits (symbol : Symbol) (x a : List Char) : Prop :=
  symbol = .question ∧ x = ['.'] ∧ startsDigit a

/-- The test by which a symbol is found. -/
def isInFront (cs : List Char) (symbol : Symbol) : Bool :=
  symbol.text.toList.isPrefixOf cs && !(symbol = .optionalDot && startsDigit (cs.drop 2))

/-- What is in front of the text that is cut off is in front of the whole one, unless a digit comes
next. -/
theorem isInFront_append {symbol : Symbol} (h : isInFront cs symbol) :
    isInFront (cs ++ a) symbol ∨ symbol = .optionalDot ∧ cs = ['?', '.'] ∧ startsDigit a := by
  simp only [isInFront, Bool.and_eq_true, Bool.not_eq_true'] at h
  obtain ⟨hstarts, hdigit⟩ := h
  obtain ⟨y, rfl⟩ := List.isPrefixOf_iff_prefix.1 hstarts
  have hstarts' : symbol.text.toList.isPrefixOf (symbol.text.toList ++ y ++ a) :=
    List.isPrefixOf_iff_prefix.2 ⟨y ++ a, (List.append_assoc ..).symm⟩
  by_cases hsymbol : symbol = .optionalDot
  · subst hsymbol
    have hfront : startsDigit (y ++ a) = false →
        isInFront (Symbol.optionalDot.text.toList ++ y ++ a) .optionalDot :=
      fun hy => Bool.and_eq_true_iff.2 ⟨hstarts', congrArg (fun digit => !(true && digit)) hy⟩
    cases y with
    | nil =>
      cases ha : startsDigit a with
      | true => exact .inr ⟨rfl, rfl, rfl⟩
      | false => exact .inl (hfront ha)
    | cons c y => exact .inl (hfront hdigit)
  · exact .inl (Bool.and_eq_true_iff.2 ⟨hstarts', by simp [hsymbol]⟩)

/-- No other symbol is in front of these. -/
theorem symbol_of_point {symbol : Symbol} (h : symbol ∈ Symbol.table)
    (hstarts : symbol.text.toList.isPrefixOf ['?', '.']) : symbol = .question ∨ symbol = .optionalDot := by
  revert symbol
  decide

theorem symbol?_cut {symbol : Symbol} (h : symbol? (symbol.text.toList ++ x ++ a) = some symbol)
    (hsplits : ¬ Splits symbol x a) : symbol? (symbol.text.toList ++ x) = some symbol := by
  have hmem := List.mem_of_find?_eq_some h
  obtain ⟨hfront, before, behind, htable, hbefore⟩ := List.find?_eq_some_iff_append.1 h
  have hstarts : symbol.text.toList.isPrefixOf (symbol.text.toList ++ x) :=
    List.isPrefixOf_iff_prefix.2 ⟨x, rfl⟩
  refine List.find?_eq_some_iff_append.2 ⟨?_, before, behind, htable, fun earlier hearlier => ?_⟩
  · by_cases hsymbol : symbol = .optionalDot
    · subst hsymbol
      refine Bool.and_eq_true_iff.2 ⟨hstarts, ?_⟩
      cases x with
      | nil => rfl
      | cons c x => exact (Bool.and_eq_true_iff.1 hfront).2
    · exact Bool.and_eq_true_iff.2 ⟨hstarts, by simp [hsymbol]⟩
  · cases hcut : isInFront (symbol.text.toList ++ x) earlier with
    | false => exact congrArg not hcut
    | true =>
      obtain hwhole | ⟨rfl, hchars, ha⟩ := isInFront_append (a := a) hcut
      · have hnot : isInFront (symbol.text.toList ++ x ++ a) earlier = false :=
          (Bool.not_eq_true' _).to_iff.1 (hbefore earlier hearlier)
        rw [hnot] at hwhole
        cases hwhole
      · -- the symbol itself starts what is cut off, so it is a part of `?.`
        rw [hchars] at hstarts
        obtain rfl | rfl := symbol_of_point hmem hstarts
        · exact absurd ⟨rfl, (List.cons.inj hchars).2, ha⟩ hsplits
        · obtain rfl : x = [] := (List.cons.inj (List.cons.inj hchars).2).2
          have hdigit : startsDigit a = false :=
            (Bool.not_eq_true' _).to_iff.1 (Bool.and_eq_true_iff.1 hfront).2
          rw [hdigit] at ha
          cases ha

/-- The step takes a token and leaves at least `a`. -/
def Step.Leaves (a : List Char) (token : Token) (s : Step) : Prop :=
  ∃ m, s = (.ok (some token), m) ∧ a.length ≤ m.rest.length

theorem number_cut (cs : List Char) (kind : Number.Numeral → TokenKind) (hstart : startsNumber (cs ++ a))
    (h : Step.Leaves a token (((⟨cs ++ a, p, modes, false⟩ : Lexer).upTo
      (Number.takeNumeral (cs ++ a)).2).emit p (kind (Number.takeNumeral (cs ++ a)).1))) :
    startsNumber cs ∧ Step.Matches a []
      (((⟨cs ++ a, p, modes, false⟩ : Lexer).upTo (Number.takeNumeral (cs ++ a)).2).emit p
        (kind (Number.takeNumeral (cs ++ a)).1))
      (((⟨cs, p, modes, false⟩ : Lexer).upTo (Number.takeNumeral cs).2).emit p
        (kind (Number.takeNumeral cs).1)) := by
  rw [startsNumber_iff] at hstart ⊢
  rcases hnumeral : Number.takeNumeral (cs ++ a) with ⟨numeral, rest⟩
  rw [hnumeral] at h hstart
  obtain ⟨taken, hsplit, -⟩ := Number.takeNumeral_self hnumeral
  have hupTo : (⟨cs ++ a, p, modes, false⟩ : Lexer).upTo rest =
      ⟨rest, p.afterAll taken, modes, false⟩ := by
    rw [hsplit, upTo_append]
  dsimp only at h ⊢
  rw [hupTo] at h ⊢
  obtain ⟨_, ⟨⟩, hm⟩ := h
  obtain ⟨x, rfl, rfl⟩ := split_of_length hm hsplit
  have hcut := Number.takeNumeral_cuts (taken ++ x) x a numeral hnumeral
  rw [hcut, upTo_append]
  refine ⟨hstart, ?_⟩
  simpa using Step.Matches.emit (b := []) (x := x)

theorem run_cut (cs : List Char) (r : Char → Bool) (kind : String → TokenKind)
    (h : Step.Leaves a token (((⟨cs ++ a, p, modes, false⟩ : Lexer).takeRun r).2.emit p
      (kind ((⟨cs ++ a, p, modes, false⟩ : Lexer).takeRun r).1))) :
    Step.Matches a []
      (((⟨cs ++ a, p, modes, false⟩ : Lexer).takeRun r).2.emit p
        (kind ((⟨cs ++ a, p, modes, false⟩ : Lexer).takeRun r).1))
      (((⟨cs, p, modes, false⟩ : Lexer).takeRun r).2.emit p
        (kind ((⟨cs, p, modes, false⟩ : Lexer).takeRun r).1)) := by
  rcases hparts : ((cs ++ a).takeWhile r, (cs ++ a).dropWhile r) with ⟨run, rest⟩
  obtain ⟨hrun, hrest⟩ := Prod.mk.inj hparts
  have hsplit : cs ++ a = run ++ rest := by
    rw [← hrun, ← hrest, List.takeWhile_append_dropWhile]
  have hadvance : (⟨cs ++ a, p, modes, false⟩ : Lexer).advance run.length =
      ⟨rest, p.afterAll run, modes, false⟩ := by
    rw [hsplit, advance_append]
  simp only [takeRun, hrun, hadvance] at h ⊢
  obtain ⟨_, ⟨⟩, hm⟩ := h
  obtain ⟨x, rfl, rfl⟩ := split_of_length hm hsplit
  have hcut := Number.takeWhile_cuts r (run ++ x) x a run hparts
  simp only [(Prod.mk.inj hcut).1, advance_append]
  simpa using Step.Matches.emit (b := []) (x := x)

theorem symbol_cut (cs : List Char) {symbol : Symbol} (hsymbol : symbol? (cs ++ a) = some symbol)
    (h : ((⟨cs ++ a, p, modes, false⟩ : Lexer).advance symbol.text.length).emit p (.symbol symbol) =
      (.ok (some token), m)) (hm : a.length ≤ m.rest.length)
    (hsplits : token.kind = .symbol .question → m.rest = '.' :: a → startsDigit a = false) :
    symbol? cs = some symbol := by
  have hfront := List.find?_some hsymbol
  obtain ⟨rest, hsplit⟩ := List.isPrefixOf_iff_prefix.1 (Bool.and_eq_true_iff.1 hfront).1
  rw [← hsplit, ← String.length_toList, advance_append] at h
  cases h
  obtain ⟨x, rfl, rfl⟩ := split_of_length hm hsplit.symm
  refine symbol?_cut hsymbol ?_
  rintro ⟨rfl, rfl, ha⟩
  rw [hsplits rfl rfl] at ha
  cases ha

theorem word_cut {c : Char} (hblank : Text.isBlank c = false) (hopen : c ≠ '{') (hclose : c ≠ '}')
    (h : (⟨c :: (cs ++ a), p, .expression depth :: outer, false⟩ : Lexer).next =
      (.ok (some token), m)) (hm : a.length ≤ m.rest.length)
    (hsplits : token.kind = .symbol .question → m.rest = '.' :: a → startsDigit a = false) :
    Step.Matches a [] (⟨c :: (cs ++ a), p, .expression depth :: outer, false⟩ : Lexer).next
      (⟨c :: (cs ++ []), p, .expression depth :: outer, false⟩ : Lexer).next := by
  rw [next_word hblank hopen hclose] at h ⊢
  rw [next_word hblank hopen hclose]
  dsimp only at h ⊢
  by_cases hquote : c = '"' || c = '\''
  · simp only [hquote, if_true] at h ⊢
    exact string_matches h hm
  · rw [List.append_nil]
    simp only [hquote, Bool.false_eq_true, if_false] at h ⊢
    by_cases hnumber : startsNumber (c :: (cs ++ a))
    · simp only [hnumber, if_true] at h ⊢
      obtain ⟨hstart, hmatches⟩ := number_cut (c :: cs) (fun n => .number (n.toFloat false))
        hnumber ⟨m, h, hm⟩
      rw [if_pos hstart]
      exact hmatches
    · have hnumber' : ¬ startsNumber (c :: cs) := fun hstart =>
        hnumber (startsNumber_append a hstart)
      simp only [hnumber, hnumber'] at h ⊢
      by_cases hident : Text.isIdentStart c
      · simp only [hident, if_true] at h ⊢
        exact run_cut (c :: cs) Text.isIdentPart .identifier ⟨m, h, hm⟩
      · simp only [hident] at h ⊢
        cases hsymbol : symbol? (c :: (cs ++ a)) with
        | none =>
          rw [hsymbol] at h
          cases h
        | some symbol =>
          rw [hsymbol] at h
          have hcut := symbol_cut (c :: cs) hsymbol h hm hsplits
          rw [hcut]
          simpa using symbol_matches (b := []) hcut

/-- A token is the same if the text is cut off at its end or further on. -/
theorem next_cut (h : (⟨cs ++ a, p, .expression depth :: outer, false⟩ : Lexer).next =
      (.ok (some token), m)) (hm : a.length ≤ m.rest.length)
    (hsplits : token.kind = .symbol .question → m.rest = '.' :: a → startsDigit a = false) :
    Step.Matches a [] (⟨cs ++ a, p, .expression depth :: outer, false⟩ : Lexer).next
      (⟨cs ++ [], p, .expression depth :: outer, false⟩ : Lexer).next := by
  induction cs generalizing p with
  | nil => exact absurd (length_of_token h) (Nat.not_lt.2 hm)
  | cons c cs ih =>
    by_cases hblank : Text.isBlank c
    · exact blank_matches hblank ih h
    · by_cases hopen : c = '{'
      · subst hopen
        exact .emit
      · by_cases hclose : c = '}'
        · subst hclose
          cases depth <;> exact .emit
        · exact word_cut (by simpa using hblank) hopen hclose h hm hsplits

-- ---------------------------------------------------------------------------
-- Fewer braces around
-- ---------------------------------------------------------------------------

/-- The steps take the same token and leave the same text, in these modes. -/
inductive Step.Recast (modes modes' : List Mode) : Step → Step → Prop
  | intro (token rest q) : Recast modes modes' (.ok (some token), ⟨rest, q, modes, false⟩)
      (.ok (some token), ⟨rest, q, modes', false⟩)

theorem word_recast {c : Char} {depth' : Nat} {outer' : List Mode} (hblank : Text.isBlank c = false)
    (hopen : c ≠ '{') (hclose : c ≠ '}')
    (h : (⟨c :: cs, p, .expression depth :: outer, false⟩ : Lexer).next = (.ok (some token), m)) :
    Step.Recast (.expression depth :: outer) (.expression depth' :: outer')
      (⟨c :: cs, p, .expression depth :: outer, false⟩ : Lexer).next
      (⟨c :: cs, p, .expression depth' :: outer', false⟩ : Lexer).next := by
  rw [next_word hblank hopen hclose] at h ⊢
  rw [next_word hblank hopen hclose]
  dsimp only at h ⊢
  split
  · rename_i hquote
    rw [if_pos hquote] at h
    unfold string at h ⊢
    dsimp only at h ⊢
    split
    · exact .intro ..
    · rename_i hbody
      rw [hbody] at h
      cases h
  · rename_i hquote
    rw [if_neg hquote] at h
    split
    · exact .intro ..
    · rename_i hnumber
      rw [if_neg hnumber] at h
      split
      · exact .intro ..
      · rename_i hident
        rw [if_neg hident] at h
        split
        · exact .intro ..
        · rename_i hsymbol
          rw [hsymbol] at h
          cases h

/-- Where braces that are around the tokens are left out, they are the same. -/
theorem next_recast {k d d' : Nat} (outer' : List Mode) (hkind : token.kind ≠ .mustacheClose)
    (hbraces : Bracket.brace.depth? d [token] = some d')
    (h : (⟨cs, p, .expression (k + d) :: outer, false⟩ : Lexer).next = (.ok (some token), m)) :
    Step.Recast (.expression (k + d') :: outer) (.expression d' :: outer')
      (⟨cs, p, .expression (k + d) :: outer, false⟩ : Lexer).next
      (⟨cs, p, .expression d :: outer', false⟩ : Lexer).next := by
  induction cs generalizing p with
  | nil => cases h
  | cons c cs ih =>
    by_cases hblank : Text.isBlank c
    · have hbehind := next_of_blank hblank h
      have hcs : cs ≠ [] := by
        rintro rfl
        cases hbehind
      rw [next_blank hblank hcs, next_blank hblank hcs]
      exact ih hbehind
    · by_cases hopen : c = '{'
      · subst hopen
        cases h
        cases hbraces
        exact .intro ..
      · by_cases hclose : c = '}'
        · subst hclose
          cases hd : k + d with
          | zero =>
            rw [hd] at h
            cases h
            exact absurd rfl hkind
          | succ depth =>
            rw [hd] at h
            cases h
            cases d with
            | zero => cases hbraces
            | succ d =>
              cases hbraces
              obtain rfl : depth = k + d' := by omega
              exact .intro ..
        · have hblank : Text.isBlank c = false := by simpa using hblank
          have hoperand := word_isOperand hblank hopen hclose h
          obtain rfl : d = d' := by
            rw [Bracket.depth?_other] at hbraces
            · exact Option.some.inj hbraces
            · intro hbrace
              rw [hbrace] at hoperand
              cases hoperand
            · intro hbrace
              rw [hbrace] at hoperand
              cases hoperand
          exact word_recast hblank hopen hclose h

-- ---------------------------------------------------------------------------
-- Tokens one after the other
-- ---------------------------------------------------------------------------

/-- Behind a question mark, a point and a digit belong to a numeral. -/
theorem Emits.not_point {n : Lexer} {tokens : List Token}
    (h : Emits ⟨'.' :: n.rest, p, .expression depth :: outer, false⟩ tokens n) :
    startsDigit n.rest = false := by
  by_contra hdigit
  rw [Bool.not_eq_false] at hdigit
  generalize ha : '.' :: n.rest = cs at h
  cases h with
  | nil => exact absurd (congrArg List.length ha) (Nat.succ_ne_self _)
  | cons first _ more =>
    subst ha
    have hnumber : startsNumber ('.' :: n.rest) := by
      cases hrest : n.rest with
      | nil =>
        rw [hrest] at hdigit
        cases hdigit
      | cons c rest => rwa [hrest] at hdigit
    have hless := takeNumeral_point hdigit
    rw [next_word (by decide) (by decide) (by decide)] at first
    dsimp only at first
    rw [if_neg (by decide), if_pos hnumber] at first
    cases first
    have hmore := more.suffix.length_le
    simp only [upTo, advance, List.length_drop, List.length_cons] at hmore
    omega

/-- The tokens of a text that is cut off behind them, with fewer braces around them. -/
theorem emits_cut {l n : Lexer} {tokens : List Token} {k d d' : Nat}
    (outer' : List Mode) (h : Emits l tokens n) (hl : l = ⟨cs ++ n.rest, p, .expression (k + d) :: outer, false⟩)
    (hkinds : ∀ token ∈ tokens, token.kind ≠ .mustacheClose)
    (hbraces : Bracket.brace.depth? d tokens = some d') :
    Emits ⟨cs, p, .expression d :: outer', false⟩ tokens
      ⟨[], n.position, .expression d' :: outer', false⟩ := by
  induction h generalizing cs p d with
  | @nil l =>
    obtain ⟨rest, q, modes, pending⟩ := l
    cases hbraces
    obtain ⟨hrest, rfl, -, -⟩ := Lexer.mk.inj hl
    obtain rfl : cs = [] := List.self_eq_append_left.1 hrest
    exact .nil
  | @cons l m n token tokens first less more ih =>
    subst hl
    obtain ⟨hkind, hkinds⟩ := List.forall_mem_cons.1 hkinds
    rw [← List.singleton_append, Bracket.depth?_append, Option.bind_eq_some_iff] at hbraces
    obtain ⟨e, hbrace, hbraces⟩ := hbraces
    have hmodes := next_recast outer' hkind hbrace first
    rw [first] at hmodes
    generalize hshallow : (⟨cs ++ n.rest, p, .expression d :: outer', false⟩ : Lexer).next = s at hmodes
    cases hmodes with
    | intro _ rest q =>
      have hcut := next_cut first more.suffix.length_le fun _ hpoint => by
        dsimp only at hpoint
        rw [hpoint] at more
        exact more.not_point
      rw [first] at hcut
      generalize hshort : (⟨cs ++ [], p, .expression (k + d) :: outer, false⟩ : Lexer).next = s' at hcut
      cases hcut with
      | intro _ x =>
        rw [List.append_nil] at hshort
        have hrecast := next_recast outer' hkind hbrace hshort
        rw [hshort, List.append_nil] at hrecast
        generalize hfirst : (⟨cs, p, .expression d :: outer', false⟩ : Lexer).next = s'' at hrecast
        cases hrecast
        exact .cons hfirst (length_of_token hfirst) (ih rfl hkinds hbraces)

end PromptTemplate.Lexer
