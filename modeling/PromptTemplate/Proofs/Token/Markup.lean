import PromptTemplate.Proofs.Expr.Written

/-!
# Texts, braces and tags

The pieces that items are made of, each with the token that the lexer makes of
it and with what may follow.
-/

namespace PromptTemplate.Lexer

variable {numeral : Float → List Char} {p : Position} {modes : List Mode}

-- ---------------------------------------------------------------------------
-- Text
-- ---------------------------------------------------------------------------

/-- The text goes on with a brace or a tag, or ends. -/
def Bounded (more : List Char) : Prop :=
  more = [] ∨ (∃ rest, more = '{' :: rest) ∨ ∃ rest, more = '<' :: rest ∧ startsTag rest

def boundary (more : List Char) : TextStop := if more = [] then .atEnd else .atMarkup

theorem textRun_bounded {more : List Char} (h : Bounded more) (p : Position) :
    textRun none p more = ⟨[], boundary more, p, more⟩ := by
  rcases h with rfl | ⟨rest, rfl⟩ | ⟨rest, rfl, htag⟩
  · rfl
  · cases rest <;> rfl
  · cases rest with
    | nil => cases htag
    | cons c rest => simp [textRun, boundary, htag]

theorem textRun_plain {c : Char} {more : List Char} (h : isEscapable c = false) (p : Position) :
    textRun none p (c :: more) = (textRun none (p.after c) more).push c := by
  simp only [isEscapable, Bool.or_eq_false_iff, decide_eq_false_iff_not] at h
  obtain ⟨⟨⟨⟨⟨⟨hopen, hclose⟩, hless⟩, -⟩, hslash⟩, hstar⟩, hback⟩ := h
  cases more with
  | nil => simp [textRun, hopen, hclose, TextRun.push]
  | cons d more => simp [textRun, hopen, hclose, hless, hslash, hstar, hback]

theorem textRun_escaped {c : Char} {more : List Char} (h : isEscapable c) (p : Position) :
    textRun none p ('\\' :: c :: more) = (textRun none ((p.after '\\').after c) more).push c := by
  simp [textRun, h]

theorem textRun_escape (cs : List Char) {more : List Char} (h : Bounded more) (p : Position) :
    textRun none p (escapeText cs ++ more) =
      ⟨cs, boundary more, p.afterAll (escapeText cs), more⟩ := by
  induction cs generalizing p with
  | nil => exact textRun_bounded h p
  | cons c cs ih =>
    cases hc : isEscapable c
    · simp [escapeText, hc, textRun_plain hc, ih, TextRun.push]
    · simp [escapeText, hc, textRun_escaped hc, ih, TextRun.push]

theorem textRun_comment (cs : List Char) (p : Position) :
    textRun none p (emptyComment ++ cs) = textRun none (p.afterAll emptyComment) cs := by
  cases cs <;> rfl

theorem next_text {value : String} (hvalue : value ≠ "") {more : List Char} (h : Bounded more) :
    (⟨escapeText value.toList ++ more, p, [], false⟩ : Lexer).next =
      (⟨more, p.afterAll (escapeText value.toList), [], false⟩ : Lexer).emit p (.text value) := by
  have hchars : value.toList ≠ [] := by simpa using hvalue
  have hrest : escapeText value.toList ++ more ≠ [] := by
    obtain ⟨c, cs, hcs⟩ := List.exists_cons_of_ne_nil hchars
    rw [hcs, escapeText]
    split <;> simp
  simp only [next, nextInMode, Bool.false_eq_true, if_false, hrest, nextText, textRun_escape _ h]
  unfold boundary
  by_cases hmore : more = [] <;> simp [hmore, hchars]

theorem next_brace (more : List Char) : (⟨'{' :: more, p, [], false⟩ : Lexer).next =
    (⟨'{' :: more, p, [], false⟩ : Lexer).brace := by
  have hrun := textRun_bounded (.inr (.inl ⟨more, rfl⟩)) p
  simp [next, nextInMode, nextText, hrun, boundary]

theorem next_closingTag (more : List Char) : (⟨'<' :: '/' :: more, p, [], false⟩ : Lexer).next =
    (⟨'<' :: '/' :: more, p, [], false⟩ : Lexer).closingTag := by
  have hrun := textRun_bounded (.inr (.inr ⟨'/' :: more, rfl, rfl⟩)) p
  simp [next, nextInMode, nextText, hrun, boundary]

theorem next_openingTag {c : Char} (hc : c.isAlpha) (more : List Char) :
    (⟨'<' :: c :: more, p, [], false⟩ : Lexer).next =
      (⟨'<' :: c :: more, p, [], false⟩ : Lexer).openingTag := by
  have hrun := textRun_bounded (.inr (.inr ⟨c :: more, rfl, by simp [startsTag, hc]⟩)) p
  have hslash : c ≠ '/' := by rintro rfl; cases hc
  simp [next, nextInMode, nextText, hrun, boundary, hslash]

-- ---------------------------------------------------------------------------
-- Openings
-- ---------------------------------------------------------------------------

/-- The piece of text is one token, which starts where the piece does. -/
def Opens (modes : List Mode) (chars : List Char) (kind : TokenKind) (modes' : List Mode)
    (follow : List Char → Prop) : Prop :=
  chars ≠ [] ∧ ∀ more p, follow more → (⟨chars ++ more, p, modes, false⟩ : Lexer).next =
    (⟨more, p.afterAll chars, modes', false⟩ : Lexer).emit p kind

theorem Opens.lexes {chars : List Char} {kind : TokenKind} {modes' : List Mode}
    {follow : List Char → Prop} (h : Opens modes chars kind modes' follow) :
    Lexes modes chars [kind] modes' follow :=
  Lexes.one h.1 fun more p hmore => ⟨p, h.2 more p hmore⟩

/-- Nothing follows that makes a brace the start of a block. -/
def Mustache (more : List Char) : Prop := ∀ c ∈ more.head?, c ≠ '#' ∧ c ≠ ':' ∧ c ≠ '/'

theorem brace_mustache {more : List Char} (h : Mustache more) :
    (⟨'{' :: more, p, modes, false⟩ : Lexer).brace =
      (⟨more, p.after '{', .expression 0 :: modes, false⟩ : Lexer).emit p .mustacheOpen := by
  cases more with
  | nil => rfl
  | cons c more =>
    obtain ⟨hopen, hbranch, hclose⟩ := h c rfl
    simp [brace, hopen, hbranch, hclose, enter, emit]

theorem mustache_opens : Opens [] ['{'] .mustacheOpen [.expression 0] Mustache := by
  refine ⟨by simp, fun more p hmore => ?_⟩
  exact (next_brace more).trans (brace_mustache hmore)

theorem attributeMustache_opens :
    Opens [.tag] ['{'] .mustacheOpen [.expression 0, .tag] Mustache := by
  refine ⟨by simp, fun more p hmore => ?_⟩
  exact brace_mustache hmore

theorem blockOpen_opens {name : String} (h : IsWord name) :
    Opens [] ('{' :: '#' :: name.toList) (.blockOpen name) [.expression 0] Gap := by
  refine ⟨by simp, fun more p hmore => (next_brace _).trans ?_⟩
  have hrun := @takeRun_append name.toList more ((p.after '{').after '#') [] false
    Text.isIdentPart h.parts hmore.closed.not_isIdentPart
  simp [brace, hrun, enter]

theorem blockClose_opens {name : String} (h : IsWord name) :
    Opens [] ('{' :: '/' :: name.toList) (.blockClose name) [.expression 0] Gap := by
  refine ⟨by simp, fun more p hmore => (next_brace _).trans ?_⟩
  have hrun := @takeRun_append name.toList more ((p.after '{').after '/') [] false
    Text.isIdentPart h.parts hmore.closed.not_isIdentPart
  simp [brace, hrun, enter]

theorem blockBranch_opens : Opens [] ['{', ':'] .blockBranch [.expression 0] fun _ => True :=
  ⟨by simp, fun more _ _ => next_brace (':' :: more)⟩

theorem tagClose_opens {name : String} (h : IsTagName name) :
    Opens [] ('<' :: '/' :: name.toList ++ ['>']) (.tagClose name) [] fun _ => True := by
  obtain ⟨first, rest, hname, hfirst, hrest⟩ := h
  have hparts : ∀ c ∈ name.toList, Text.isTagNamePart c := by
    rw [hname]
    simpa [Text.isTagNamePart, Char.isAlphanum, hfirst] using hrest
  have hstart : startsLetter name.toList := by simpa [hname, startsLetter] using hfirst
  refine ⟨by simp, fun more p _ => ?_⟩
  have hrun := @takeRun_append name.toList ('>' :: more) ((p.after '<').after '/') [] false
    Text.isTagNamePart hparts (by simp; decide)
  have hskip := @skipBlanks_self ⟨'>' :: more, ((p.after '<').after '/').afterAll name.toList, [], false⟩
    (by simp; decide)
  simp only [List.cons_append, List.append_assoc, List.nil_append]
  rw [next_closingTag]
  simp [closingTag, hrun, hstart, hskip, Position.afterAll_append]

theorem tagOpen_opens {name : String} (h : IsTagName name) :
    Opens [] ('<' :: name.toList) (.tagOpen name) [.tag]
      fun more => ∃ c rest, more = c :: rest ∧ (c = ' ' ∨ c = '>' ∨ c = '/') := by
  obtain ⟨first, rest, hname, hfirst, hrest⟩ := h
  have hparts : ∀ c ∈ name.toList, Text.isTagNamePart c := by
    rw [hname]
    simpa [Text.isTagNamePart, Char.isAlphanum, hfirst] using hrest
  refine ⟨by simp, ?_⟩
  rintro _ p ⟨c, more, rfl, hc⟩
  have hpart : Text.isTagNamePart c = false := by rcases hc with rfl | rfl | rfl <;> decide
  have hafter : (c = '>' || c = '/' || Text.isBlank c) = true := by
    rcases hc with rfl | rfl | rfl <;> decide
  have hrun := @takeRun_append name.toList (c :: more) (p.after '<') [] false
    Text.isTagNamePart hparts (by simpa using hpart)
  have hnext := @next_openingTag p first hfirst (rest ++ c :: more)
  rw [← List.cons_append, ← hname] at hnext
  rw [List.cons_append, hnext]
  simp [openingTag, hrun, hafter, enter, emit]

-- ---------------------------------------------------------------------------
-- Tags
-- ---------------------------------------------------------------------------

/-- What may come after an attribute. -/
def AfterAttribute (more : List Char) : Prop :=
  ∃ c rest, more = c :: rest ∧ (c = ' ' ∨ c = '>' ∨ c = '/')

theorem next_attribute {c : Char} {more : List Char} {p : Position} {outer : List Mode}
    (hblank : Text.isBlank c = false)
    (hc : c ≠ '/' ∧ c ≠ '>' ∧ c ≠ '=' ∧ c ≠ '{') :
    (⟨c :: more, p, .tag :: outer, false⟩ : Lexer).next =
      let l : Lexer := ⟨c :: more, p, .tag :: outer, false⟩
      if c = '"' || c = '\'' then (l.advance 1).attributeValue p c
      else if Text.isAttributeStart c then
        (l.takeRun Text.isTagNamePart).2.emit p (.attributeName (l.takeRun Text.isTagNamePart).1)
      else l.fail p (.unexpected ">") := by
  have hskip : (⟨c :: more, p, .tag :: outer, false⟩ : Lexer).skipBlanks = _ :=
    skipBlanks_self (by simpa using hblank)
  simp [next, nextInMode, nextTag, hskip, hc]

theorem attributeName_opens {name : String} (h : IsAttributeName name) :
    Opens [.tag] name.toList (.attributeName name) [.tag]
      fun more => ∃ c rest, more = c :: rest ∧ (c = ' ' ∨ c = '>' ∨ c = '/' ∨ c = '=') := by
  obtain ⟨first, rest, hname, hfirst, hrest⟩ := h
  have hparts : ∀ c ∈ name.toList, Text.isTagNamePart c := by
    rw [hname]
    simpa [Text.isTagNamePart_of_isAttributeStart hfirst] using hrest
  have hne : ∀ c, Text.isAttributeStart c = false → first ≠ c := by
    rintro _ hc rfl
    rw [hfirst] at hc
    cases hc
  refine ⟨by simp [hname], ?_⟩
  rintro _ p ⟨c, more, rfl, hc⟩
  have hpart : Text.isTagNamePart c = false := by rcases hc with rfl | rfl | rfl | rfl <;> decide
  have hrun := @takeRun_append name.toList (c :: more) p [.tag] false Text.isTagNamePart hparts
    (by simpa using hpart)
  simp only [hname, List.cons_append] at hrun ⊢
  rw [next_attribute (Text.not_isBlank_of_isAttributeStart hfirst)
    ⟨hne _ (by decide), hne _ (by decide), hne _ (by decide), hne _ (by decide)⟩]
  simp only [hne '"' (by decide), hne '\'' (by decide), hfirst, hrun, decide_false, Bool.or_false,
    Bool.false_eq_true, if_false, if_true]
  rw [← hname, String.ofList_toList]

theorem assign_opens : Opens [.tag] ['='] (.symbol .assign) [.tag] fun _ => True :=
  ⟨by simp, fun _ _ _ => rfl⟩

theorem tagEnd_opens : Opens [.tag] ['>'] .tagEnd [] fun _ => True :=
  ⟨by simp, fun _ _ _ => rfl⟩

theorem tagSelfClose_opens : Opens [.tag] ['/', '>'] .tagSelfClose [] fun _ => True :=
  ⟨by simp, fun _ _ _ => rfl⟩

/-- A value goes up to the next quote. -/
theorem attributeValue_closed {quote : Char} {value : List Char} (h : ∀ c ∈ value, c ≠ quote)
    (start : Position) (more : List Char) :
    (⟨value ++ quote :: more, p, modes, false⟩ : Lexer).attributeValue start quote =
      (⟨more, p.afterAll (value ++ [quote]), modes, false⟩ : Lexer).emit start
        (.attributeValue (String.ofList value)) := by
  have hrun := @takeWhile_append value (quote :: more) (· ≠ quote) (by simpa using h) (by simp)
  have hadvance := @advance_append (value ++ [quote]) more p modes false
  rw [List.length_append, List.length_singleton, List.append_assoc, List.singleton_append] at hadvance
  simp only [attributeValue, hrun, hadvance]
  simp

theorem attributeValue_opens {quote : Char} {text : String} (hquote : quote = '"' ∨ quote = '\'')
    (h : quote ∉ text.toList) :
    Opens [.tag] (quote :: text.toList ++ [quote]) (.attributeValue text) [.tag] fun _ => True := by
  refine ⟨by simp, fun more p _ => ?_⟩
  have hblank : Text.isBlank quote = false := by rcases hquote with rfl | rfl <;> decide
  have hmarks : quote ≠ '/' ∧ quote ≠ '>' ∧ quote ≠ '=' ∧ quote ≠ '{' := by
    rcases hquote with rfl | rfl <;> decide
  have hq : (quote = '"' || quote = '\'') = true := by simpa using hquote
  have hvalue : ∀ c ∈ text.toList, c ≠ quote := fun c hc heq => h (heq ▸ hc)
  simp only [List.cons_append, List.append_assoc, List.nil_append]
  rw [next_attribute hblank hmarks]
  simp only [hq, if_true, advance_one, attributeValue_closed hvalue, String.ofList_toList]
  rfl

-- ---------------------------------------------------------------------------
-- Expressions in braces
-- ---------------------------------------------------------------------------

/-- A brace before these words opens no block. -/
def Fronts (numeral : Float → List Char) (words : List TokenKind) : Prop :=
  ∃ c rest, (spellWords numeral words).tail = c :: rest ∧ c ≠ '#' ∧ c ≠ ':' ∧ c ≠ '/'

variable {words more : List TokenKind}

theorem Fronts.append (h : Fronts numeral words) (more : List TokenKind) :
    Fronts numeral (words ++ more) := by
  obtain ⟨c, rest, htail, hc⟩ := h
  refine ⟨c, rest ++ spellWords numeral more, ?_, hc⟩
  cases words with
  | nil => cases htail
  | cons word words =>
    rw [spellWords_cons, List.cons_append, List.tail_cons] at htail
    rw [spellWords_append, spellWords_cons, List.cons_append, List.cons_append, List.tail_cons,
      htail, List.cons_append]

theorem Fronts.of_spell {word : TokenKind} {c : Char} {rest : List Char}
    (h : word.spell numeral = c :: rest) (hc : c ≠ '#' ∧ c ≠ ':' ∧ c ≠ '/') :
    Fronts numeral (word :: words) :=
  ⟨c, rest ++ spellWords numeral words, by simp [spellWords_cons, h], hc⟩

theorem Fronts.symbol {s : Symbol} (h : s ≠ .colon ∧ s ≠ .divide ∧ s ≠ .divideAssign) :
    Fronts numeral (.symbol s :: words) := by
  obtain ⟨hcolon, hdivide, hassign⟩ := h
  cases s <;> first | contradiction | exact .of_spell rfl (by decide)

theorem Fronts.identifier {name : String} (h : IsWord name) :
    Fronts numeral (.identifier name :: words) := by
  obtain ⟨first, rest, hname, hfirst, -⟩ := h
  have hne : ∀ c, Text.isIdentStart c = false → first ≠ c := by
    rintro _ hc rfl
    rw [hfirst] at hc
    cases hc
  exact .of_spell hname ⟨hne _ (by decide), hne _ (by decide), hne _ (by decide)⟩

theorem Fronts.literal {value : Literal} (h : Numbered numeral [value.word]) :
    Fronts numeral (value.word :: words) := by
  cases value with
  | null => exact .identifier (isWord_of rfl (by decide))
  | bool b => cases b <;> exact .identifier (isWord_of rfl (by decide))
  | string s => exact .of_spell rfl (by decide)
  | number x =>
    obtain ⟨hstart, -⟩ := h x (by simp [Literal.word])
    obtain ⟨d, rest, hx, -⟩ | ⟨c, rest, hx, hc⟩ := startsNumber_cases hstart
    · exact .of_spell hx (by decide)
    · refine .of_spell hx ⟨?_, ?_, ?_⟩ <;> (rintro rfl; cases hc)

theorem fronts_inside {e : Expr} (h : e.WellFormed) (hn : Numbered numeral (e.words true)) :
    Fronts numeral (e.words true) := by
  rcases e.words_inside with hwords | ⟨span, value, rfl⟩ | ⟨span, name, rfl⟩
  · rw [hwords]
    exact .symbol (by decide)
  · exact .literal hn
  · exact .identifier h.1

theorem fronts_words {e : Expr} (h : e.WellFormed) (hn : Numbered numeral (e.words false)) :
    Fronts numeral (e.words false) := by
  cases e with
  | literal span value => exact .literal hn
  | identifier span name => exact .identifier h.1
  | array | object => exact .symbol (by decide)
  | unary span op operand =>
    cases op with
    | typeOf => exact .identifier (isWord_of rfl (by decide))
    | _ => exact .symbol (by decide)
  | update span op side target =>
    cases side with
    | before => cases op <;> exact .symbol (by decide)
    | after =>
      simp only [Expr.words, wrap, Bool.false_eq_true, if_false, numbered_append] at hn ⊢
      exact (@fronts_inside numeral target h hn.1).append _
  | member span object property optional =>
    simp only [Expr.words, wrap, Bool.false_eq_true, if_false, numbered_append] at hn ⊢
    exact (fronts_inside h.1 hn.1).append _
  | call span callee arguments =>
    simp only [Expr.words, wrap, Bool.false_eq_true, if_false, numbered_append] at hn ⊢
    exact ((fronts_inside h.1 hn.1.1).append _).append _
  | binary span op left right =>
    simp only [Expr.words, wrap, Bool.false_eq_true, if_false, numbered_append] at hn ⊢
    exact (fronts_inside h.1 hn.1).append _
  | conditional span test consequent alternate =>
    simp only [Expr.words, wrap, Bool.false_eq_true, if_false, numbered_append] at hn ⊢
    exact ((fronts_inside h.1 hn.1.1).append _).append _
  | assignment span op target value =>
    simp only [Expr.words, wrap, Bool.false_eq_true, if_false, numbered_append] at hn ⊢
    exact (fronts_inside h.1 hn.1).append _

theorem spellWords_tail (h : words ≠ []) :
    ' ' :: (spellWords numeral words).tail = spellWords numeral words := by
  cases words with
  | nil => exact absurd rfl h
  | cons word words => rfl

theorem close_gap (rest : List Char) : Gap ('}' :: rest) := .inr rfl

/-- Words and the brace that closes them. -/
theorem closed_lexes (h : Written numeral words) :
    Lexes (.expression 0 :: modes) (spellWords numeral words ++ ['}'])
      (words ++ [.mustacheClose]) modes fun _ => True :=
  (h 0 modes).1.append mustacheClose_lexes fun _ _ => close_gap _

theorem closed_lexes_tight (h : Written numeral words) :
    Lexes (.expression 0 :: modes) ((spellWords numeral words).tail ++ ['}'])
      (words ++ [.mustacheClose]) modes fun _ => True :=
  (h 0 modes).2.append mustacheClose_lexes fun _ _ => close_gap _

theorem spell_mustache {e : Expr} (h : e.WellFormed) (hn : Numbered numeral (e.words false))
    (rest : List Char) : Mustache (e.spell numeral ++ rest) := by
  obtain ⟨c, tail, htail, hc⟩ := fronts_words h hn
  rw [Expr.spell, htail]
  simpa [Mustache] using hc

end PromptTemplate.Lexer
