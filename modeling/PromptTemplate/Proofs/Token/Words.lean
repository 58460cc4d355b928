import PromptTemplate.Proofs.Syntax.Items
import PromptTemplate.Proofs.Token.Emits

/-!
# Reading the words of an expression

Words with a blank before each are read as they were written, at every depth
of braces.
-/

namespace PromptTemplate

theorem IsWord.parts {name : String} (h : IsWord name) : ∀ c ∈ name.toList, Text.isIdentPart c := by
  obtain ⟨first, rest, hname, hfirst, hrest⟩ := h
  rw [hname]
  simpa using And.intro (Text.isIdentPart_of_isIdentStart hfirst) hrest

namespace Lexer

variable {depth : Nat} {outer : List Mode} {numeral : Float → List Char}

/-- What comes after a word. -/
def Gap (more : List Char) : Prop := more.head? = some ' ' ∨ more.head? = some '}'

theorem Gap.closed {more : List Char} (h : Gap more) : Closed more := by
  intro c hc
  rcases h with h | h
  · rw [h] at hc
    obtain rfl := Option.some.inj hc
    rfl
  · rw [h] at hc
    obtain rfl := Option.some.inj hc
    rfl

-- ---------------------------------------------------------------------------
-- One word
-- ---------------------------------------------------------------------------

theorem next_word {c : Char} {more : List Char} {p : Position} (hblank : Text.isBlank c = false)
    (hopen : c ≠ '{') (hclose : c ≠ '}') :
    (⟨c :: more, p, .expression depth :: outer, false⟩ : Lexer).next =
      let l : Lexer := ⟨c :: more, p, .expression depth :: outer, false⟩
      if c = '"' || c = '\'' then l.string c
      else if startsNumber l.rest then
        (l.upTo (Number.takeNumeral l.rest).2).emit p
          (.number ((Number.takeNumeral l.rest).1.toFloat false))
      else if Text.isIdentStart c then
        (l.takeRun Text.isIdentPart).2.emit p (.identifier (l.takeRun Text.isIdentPart).1)
      else match symbol? l.rest with
        | some symbol => (l.advance symbol.text.length).emit p (.symbol symbol)
        | none => (l.advance 1).fail p (.unsupportedOperator (String.singleton c)) := by
  have hskip : (⟨c :: more, p, .expression depth :: outer, false⟩ : Lexer).skipBlanks = _ :=
    skipBlanks_self (by simpa using hblank)
  simp only [next, nextInMode, nextExpression, hskip]
  rfl

theorem identifier_lexes {name : String} (h : IsWord name) :
    Lexes (.expression depth :: outer) name.toList [.identifier name] (.expression depth :: outer)
      Closed := by
  have hpart := h.parts
  obtain ⟨first, rest, hname, hfirst, hrest⟩ := h
  have hne : ∀ c, Text.isIdentStart c = false → first ≠ c := by
    rintro _ hc rfl
    rw [hfirst] at hc
    cases hc
  refine Lexes.one (by simp [hname]) fun more p hmore => ⟨p, ?_⟩
  have hnumber : startsNumber (first :: (rest ++ more)) = false := by
    unfold startsNumber
    split
    · rename_i heq
      exact absurd (List.cons.inj heq).1 (hne '.' (by decide))
    · rename_i heq
      rw [← (List.cons.inj heq).1]
      exact Text.not_isDigit_of_isIdentStart hfirst
    · rfl
  have hrun := @takeRun_append name.toList more p (.expression depth :: outer) false Text.isIdentPart
    hpart hmore.not_isIdentPart
  have hskip := Text.not_isBlank_of_isIdentStart hfirst
  simp only [hname, List.cons_append] at hrun ⊢
  rw [next_word hskip (hne _ (by decide)) (hne _ (by decide))]
  simp only [hne '"' (by decide), hne '\'' (by decide), hnumber, hfirst, hrun, decide_false,
    Bool.or_false, Bool.false_eq_true, if_false, if_true]
  rw [← hname, String.ofList_toList]

/-- A number starts with a digit, or with a point and a digit. -/
theorem startsNumber_cases {cs : List Char} (h : startsNumber cs) :
    (∃ d rest, cs = '.' :: d :: rest ∧ d.isDigit) ∨ ∃ c rest, cs = c :: rest ∧ c.isDigit := by
  unfold startsNumber at h
  split at h
  · exact .inl ⟨_, _, rfl, h⟩
  · exact .inr ⟨_, _, rfl, h⟩
  · cases h

theorem startsNumber_append {cs : List Char} (more : List Char) (h : startsNumber cs) :
    startsNumber (cs ++ more) := by
  obtain ⟨d, rest, rfl, hd⟩ | ⟨c, rest, rfl, hc⟩ := startsNumber_cases h
  · exact hd
  · have hpoint : c ≠ '.' := by rintro rfl; cases hc
    simpa [startsNumber, hpoint] using hc

theorem number_lexes {cs : List Char} {x : Float} (h : Denotes cs x) :
    Lexes (.expression depth :: outer) cs [.number x] (.expression depth :: outer) Closed := by
  obtain ⟨hstart, n, hnumeral, rfl⟩ := h
  have hfirst : ∃ c rest, cs = c :: rest ∧ (c = '.' ∨ c.isDigit) := by
    obtain ⟨d, rest, rfl, -⟩ | ⟨c, rest, rfl, hc⟩ := startsNumber_cases hstart
    · exact ⟨_, _, rfl, .inl rfl⟩
    · exact ⟨_, _, rfl, .inr hc⟩
  obtain ⟨c, rest, hcs, hc⟩ := hfirst
  have hblank : Text.isBlank c = false := by
    rcases hc with rfl | hc
    · decide
    · exact Text.not_isBlank_of_isDigit hc
  have hne : ∀ d, d ≠ '.' → d.isDigit = false → c ≠ d := by
    rintro _ hpoint hdigit rfl
    rcases hc with rfl | hc
    · exact hpoint rfl
    · rw [hc] at hdigit
      cases hdigit
  refine Lexes.one (by simp [hcs]) fun more p hmore => ⟨p, ?_⟩
  have hstart := startsNumber_append more hstart
  have htake := @Number.takeNumeral_append cs more hmore.ended
  have hupTo := @upTo_append cs more p (.expression depth :: outer) false
  rw [hnumeral] at htake
  simp only [hcs, List.cons_append, List.nil_append] at hstart htake hupTo ⊢
  rw [next_word hblank (hne _ (by decide) (by decide)) (hne _ (by decide) (by decide))]
  simp only [hne '"' (by decide) (by decide), hne '\'' (by decide) (by decide), hstart, htake, hupTo,
    decide_false, Bool.or_false, Bool.false_eq_true, if_false, if_true]

theorem stringBody?_plain {quote c : Char} {cs : List Char} (hquote : c ≠ quote) (hslash : c ≠ '\\')
    (hcs : cs ≠ []) : stringBody? quote (c :: cs) =
      (stringBody? quote cs).map fun r => (c :: r.1, r.2) := by
  obtain ⟨d, cs, rfl⟩ := List.exists_cons_of_ne_nil hcs
  simp [stringBody?, hquote, hslash]

theorem stringBody?_escaped {quote : Char} (d : Char) (cs : List Char) (hquote : quote ≠ '\\') :
    stringBody? quote ('\\' :: d :: cs) =
      (stringBody? quote cs).map fun r => (escapedChar d :: r.1, r.2) := by
  simp [stringBody?, hquote.symm]

theorem stringBody?_escape (cs more : List Char) :
    stringBody? '"' (escapeString cs ++ '"' :: more) = some (cs, more) := by
  induction cs with
  | nil => cases more <;> rfl
  | cons c cs ih =>
    unfold escapeString
    split
    · cases ‹_ = _›
    all_goals rename_i heq; obtain ⟨rfl, rfl⟩ := List.cons.inj heq
    · rw [List.cons_append, List.cons_append, stringBody?_escaped _ _ (by decide), ih]
      rfl
    · rw [List.cons_append, List.cons_append, stringBody?_escaped _ _ (by decide), ih]
      rfl
    · rw [List.cons_append, List.cons_append, stringBody?_escaped _ _ (by decide), ih]
      rfl
    · rename_i hquote hslash _
      rw [List.cons_append, stringBody?_plain ?_ ?_ (by simp), ih]
      · rfl
      · rintro rfl
        exact hquote rfl
      · rintro rfl
        exact hslash rfl

/-- The body of a string ends where it does, whatever comes then. -/
theorem stringBody?_self {quote : Char} {cs body rest : List Char}
    (h : stringBody? quote cs = some (body, rest)) :
    ∃ taken, cs = taken ++ rest ∧ ∀ more, stringBody? quote (taken ++ more) = some (body, more) := by
  fun_induction stringBody? quote cs generalizing body rest with
  | case1 | case3 => cases h
  | case2 =>
    cases h
    refine ⟨[quote], rfl, fun more => ?_⟩
    cases more <;> simp [stringBody?]
  | case4 d cs =>
    cases h
    refine ⟨[quote], rfl, fun more => ?_⟩
    cases more <;> simp [stringBody?]
  | case5 d cs hquote ih =>
    obtain ⟨found, hfound, hmap⟩ := Option.map_eq_some_iff.mp h
    cases hmap
    obtain ⟨taken, rfl, hself⟩ := ih hfound
    refine ⟨'\\' :: d :: taken, rfl, fun more => ?_⟩
    simp [stringBody?, hquote, hself]
  | case6 c d cs hquote hslash ih =>
    obtain ⟨found, hfound, hmap⟩ := Option.map_eq_some_iff.mp h
    cases hmap
    obtain ⟨taken, htaken, hself⟩ := ih hfound
    have hsome : taken ≠ [] := by
      rintro rfl
      cases hself []
    refine ⟨c :: taken, congrArg (c :: ·) htaken, fun more => ?_⟩
    rw [List.cons_append, stringBody?_plain hquote hslash (by simp [hsome]), hself]
    rfl

theorem quoted_lexes {quote : Char} {cs body : List Char} (hquote : quote = '"' ∨ quote = '\'')
    (h : stringBody? quote cs = some (body, [])) :
    Lexes (.expression depth :: outer) (quote :: cs) [.string (String.ofList body)]
      (.expression depth :: outer) fun _ => True := by
  refine Lexes.one (by simp) fun more p _ => ⟨p, ?_⟩
  obtain ⟨taken, htaken, hself⟩ := stringBody?_self h
  obtain rfl : cs = taken := by simpa using htaken
  have hupTo := @upTo_append (quote :: cs) more p (.expression depth :: outer) false
  have hkind : (quote = '"' || quote = '\'') = true := by simpa using hquote
  rw [List.cons_append] at hupTo ⊢
  rw [next_word (by rcases hquote with rfl | rfl <;> rfl) (by rcases hquote with rfl | rfl <;> decide)
    (by rcases hquote with rfl | rfl <;> decide)]
  simp only [hkind, if_true, string, List.drop_one, List.tail_cons, hself, hupTo]

theorem string_lexes (s : String) :
    Lexes (.expression depth :: outer) ('"' :: escapeString s.toList ++ ['"']) [.string s]
      (.expression depth :: outer) fun _ => True := by
  simpa using quoted_lexes (.inl rfl) (stringBody?_escape s.toList [])

section
variable {symbol : Symbol} (hopen : symbol ≠ .braceOpen) (hclose : symbol ≠ .braceClose)
include hopen hclose

def startsSymbol (c : Char) : Bool :=
  !Text.isBlank c && !Text.isIdentStart c && c ≠ '{' && c ≠ '}' && c ≠ '"' && c ≠ '\''

theorem symbol_head : ∃ c rest, symbol.text.toList = c :: rest ∧ startsSymbol c := by
  cases symbol <;> first | exact ⟨_, _, rfl, by decide⟩ | contradiction

/-- No longer symbol starts with this one. -/
theorem symbol?_self : symbol? symbol.text.toList = some symbol ∧
    startsNumber symbol.text.toList = false := by
  cases symbol <;> first | exact ⟨rfl, rfl⟩ | contradiction

theorem symbol_lexes : Lexes (.expression depth :: outer) symbol.text.toList [.symbol symbol]
    (.expression depth :: outer) Closed := by
  obtain ⟨c, rest, htext, hc⟩ := symbol_head hopen hclose
  simp only [startsSymbol, Bool.and_eq_true, Bool.not_eq_true', decide_eq_true_eq] at hc
  obtain ⟨⟨⟨⟨⟨hblank, hident⟩, hbrace⟩, hbrace'⟩, hquote⟩, hquote'⟩ := hc
  refine Lexes.one (by simp [htext]) fun more p hmore => ⟨p, ?_⟩
  obtain ⟨hsymbol, hnumber⟩ := symbol?_self hopen hclose
  have hadvance := @advance_append symbol.text.toList more p (.expression depth :: outer) false
  rw [String.length_toList] at hadvance
  rw [htext] at hsymbol hnumber
  rw [← hmore.symbol?] at hsymbol
  rw [← hmore.startsNumber] at hnumber
  simp only [htext, List.cons_append] at hadvance ⊢
  rw [next_word hblank hbrace hbrace']
  simp only [hquote, hquote', hnumber, hident, hsymbol, hadvance, decide_false, Bool.or_false,
    Bool.false_eq_true, if_false]

end

theorem braceOpen_lexes : Lexes (.expression depth :: outer) ['{'] [.symbol .braceOpen]
    (.expression (depth + 1) :: outer) fun _ => True := by
  refine Lexes.one (by simp) fun more p _ => ⟨p, ?_⟩
  rfl

theorem braceClose_lexes : Lexes (.expression (depth + 1) :: outer) ['}'] [.symbol .braceClose]
    (.expression depth :: outer) fun _ => True := by
  refine Lexes.one (by simp) fun more p _ => ⟨p, ?_⟩
  rfl

theorem mustacheClose_lexes : Lexes (.expression 0 :: outer) ['}'] [.mustacheClose] outer
    fun _ => True := by
  refine Lexes.one (by simp) fun more p _ => ⟨p, ?_⟩
  rfl

-- ---------------------------------------------------------------------------
-- Many words
-- ---------------------------------------------------------------------------

/-- The words of these kinds are the same at every depth; a number is one that `numeral` writes. -/
def Plain (numeral : Float → List Char) : TokenKind → Prop
  | .identifier name => IsWord name
  | .symbol s => s ≠ .braceOpen ∧ s ≠ .braceClose
  | .number x => Denotes (numeral x) x
  | .string _ => True
  | _ => False

/-- The words are read at every depth, with or without a blank before the first. -/
def Written (numeral : Float → List Char) (words : List TokenKind) : Prop :=
  ∀ depth outer,
    Lexes (.expression depth :: outer) (spellWords numeral words) words
      (.expression depth :: outer) Gap ∧
    Lexes (.expression depth :: outer) (spellWords numeral words).tail words
      (.expression depth :: outer) Gap

variable {word : TokenKind} {words more : List TokenKind}

theorem plain_lexes (h : Plain numeral word) :
    Lexes (.expression depth :: outer) (word.spell numeral) [word] (.expression depth :: outer)
      Gap := by
  cases word with
  | identifier name => exact (identifier_lexes h).mono fun _ => Gap.closed
  | symbol s => exact (symbol_lexes h.1 h.2).mono fun _ => Gap.closed
  | number x => exact (number_lexes h).mono fun _ => Gap.closed
  | string s => exact (string_lexes s).mono fun _ _ => trivial
  | _ => exact h.elim

theorem plain_spell_ne_nil (h : Plain numeral word) : word.spell numeral ≠ [] := by
  cases word with
  | identifier name =>
    obtain ⟨first, rest, hname, -⟩ := h
    simp [TokenKind.spell, hname]
  | symbol s => cases s <;> simp [TokenKind.spell, Symbol.text]
  | number x =>
    obtain ⟨hstart, -⟩ := h
    intro hnil
    rw [TokenKind.spell] at hnil
    rw [hnil] at hstart
    cases hstart
  | string s => simp [TokenKind.spell]
  | _ => exact h.elim

@[simp] theorem spellWords_append : spellWords numeral (words ++ more) =
    spellWords numeral words ++ spellWords numeral more := by
  simp [spellWords]

theorem spellWords_cons : spellWords numeral (word :: words) =
    ' ' :: word.spell numeral ++ spellWords numeral words := by
  simp [spellWords]

theorem gap_spellWords {rest : List Char} (h : Gap rest) :
    Gap (spellWords numeral words ++ rest) := by
  cases words with
  | nil => exact h
  | cons word words => exact .inl rfl

namespace Written

theorem nil : Written numeral [] := fun _ _ => ⟨.nil, .nil⟩

theorem append (h : Written numeral words) (h' : Written numeral more) :
    Written numeral (words ++ more) := by
  intro depth outer
  obtain ⟨hblank, htight⟩ := h depth outer
  obtain ⟨hblank', htight'⟩ := h' depth outer
  rw [spellWords_append]
  refine ⟨hblank.append hblank' fun _ => gap_spellWords, ?_⟩
  cases words with
  | nil => exact htight'
  | cons word words =>
    rw [spellWords_cons, List.cons_append, List.cons_append, List.tail_cons]
    exact htight.append hblank' fun _ => gap_spellWords

theorem single (h : Plain numeral word) : Written numeral [word] := by
  intro depth outer
  rw [spellWords_cons, show spellWords numeral [] = [] from rfl, List.append_nil]
  exact ⟨(plain_lexes h).blank (plain_spell_ne_nil h), plain_lexes h⟩

theorem cons (h : Plain numeral word) (h' : Written numeral words) :
    Written numeral (word :: words) :=
  (single h).append h'

theorem symbol (s : Symbol) (h : s ≠ .braceOpen ∧ s ≠ .braceClose) :
    Written numeral [.symbol s] :=
  single h

/-- Braces are one deeper inside. -/
theorem braces (h : Written numeral words) :
    Written numeral (.symbol .braceOpen :: words ++ [.symbol .braceClose]) := by
  intro depth outer
  -- the closing brace ends no mustache, for it is one deeper
  have hclose : Lexes (.expression (depth + 1) :: outer) [' ', '}'] [.symbol .braceClose]
      (.expression depth :: outer) fun _ => True := braceClose_lexes.blank (by simp)
  have hinner := (h (depth + 1) outer).1.append hclose fun _ _ => .inl rfl
  have htight := braceOpen_lexes.append hinner fun _ _ => trivial
  have hspell : spellWords numeral (.symbol .braceOpen :: words ++ [.symbol .braceClose]) =
      ' ' :: '{' :: (spellWords numeral words ++ [' ', '}']) := by
    simp [spellWords, TokenKind.spell, Symbol.text]
  rw [hspell]
  exact ⟨(htight.blank (by simp)).mono fun _ _ => trivial, htight.mono fun _ _ => trivial⟩

theorem wrap (h : Written numeral words) (inside : Bool) : Written numeral (wrap inside words) := by
  cases inside with
  | false => exact h
  | true => exact cons ⟨by decide, by decide⟩ (h.append (symbol .parenClose (by decide)))

end Written

/-- Each number has a literal. -/
def Numbered (numeral : Float → List Char) (words : List TokenKind) : Prop :=
  ∀ x, .number x ∈ words → Denotes (numeral x) x

@[simp] theorem numbered_append : Numbered numeral (words ++ more) ↔
    Numbered numeral words ∧ Numbered numeral more := by
  simp only [Numbered, List.mem_append]
  exact ⟨fun h => ⟨fun x hx => h x (.inl hx), fun x hx => h x (.inr hx)⟩,
    fun h x hx => hx.elim (h.1 x) (h.2 x)⟩

@[simp] theorem numbered_cons : Numbered numeral (word :: words) ↔
    (∀ x, .number x = word → Denotes (numeral x) x) ∧ Numbered numeral words := by
  simp only [Numbered, List.mem_cons]
  exact ⟨fun h => ⟨fun x hx => h x (.inl hx), fun x hx => h x (.inr hx)⟩,
    fun h x hx => hx.elim (h.1 x) (h.2 x)⟩

@[simp] theorem numbered_wrap (inside : Bool) :
    Numbered numeral (wrap inside words) ↔ Numbered numeral words := by
  cases inside <;> simp [wrap, Numbered]

end Lexer

end PromptTemplate
