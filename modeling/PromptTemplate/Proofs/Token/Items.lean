import PromptTemplate.Proofs.Token.Markup

/-!
# Reading items as text

Between items the lexer is in no mode but text. It reads every item as it is
written, if no text comes right after another one.
-/

namespace PromptTemplate.Lexer

variable {numeral : Float → List Char}

-- ---------------------------------------------------------------------------
-- Attributes
-- ---------------------------------------------------------------------------

theorem quoteFor_fits {text : String} (h : '"' ∉ text.toList ∨ '\'' ∉ text.toList) :
    (quoteFor text = '"' ∨ quoteFor text = '\'') ∧ quoteFor text ∉ text.toList := by
  unfold quoteFor
  split
  · exact ⟨.inr rfl, h.resolve_left (not_not_intro ‹_›)⟩
  · exact ⟨.inl rfl, ‹_›⟩

theorem attributeValue_lexes {value : AttributeValue} (h : value.WellFormed)
    (hn : Numbered numeral value.words) :
    Lexes [.tag] (value.spell numeral) value.words [.tag] fun _ => True := by
  cases value with
  | flag => exact .nil
  | literal text =>
    obtain ⟨hquote, hfits⟩ := quoteFor_fits h
    exact assign_opens.lexes.append (attributeValue_opens hquote hfits).lexes fun _ _ => trivial
  | expression value =>
    simp only [AttributeValue.words, numbered_append, numbered_cons] at hn
    have hwords := @closed_lexes_tight numeral [.tag] _ (value.written false h hn.1.2.2)
    have hbraced := attributeMustache_opens.lexes.append hwords fun rest _ => by
      rw [List.append_assoc]
      exact spell_mustache h hn.1.2.2 _
    simpa [AttributeValue.spell, AttributeValue.words, Expr.spell] using
      assign_opens.lexes.append hbraced fun _ _ => trivial

theorem attribute_lexes {a : Attribute} (h : IsAttributeName a.name ∧ a.value.WellFormed)
    (hn : Numbered numeral a.words) :
    Lexes [.tag] (a.spell numeral) a.words [.tag] AfterAttribute := by
  simp only [Attribute.words, numbered_cons] at hn
  have hname := (attributeName_opens h.1).lexes.blank (attributeName_opens h.1).1
  have hvalue : Lexes [.tag] (a.value.spell numeral) a.value.words [.tag] AfterAttribute :=
    (attributeValue_lexes h.2 hn.2).mono fun _ _ => trivial
  refine hname.append hvalue ?_
  rintro _ ⟨c, rest, rfl, hc⟩
  cases a.value with
  | flag => exact ⟨c, rest, rfl, hc.imp_right (Or.imp_right .inl)⟩
  | literal text | expression value => exact ⟨_, _, rfl, by simp⟩

theorem attributes_lexes {attributes : List Attribute}
    (h : ∀ a ∈ attributes, IsAttributeName a.name ∧ a.value.WellFormed)
    (hn : Numbered numeral (attributes.flatMap Attribute.words)) :
    Lexes [.tag] (attributes.flatMap (Attribute.spell numeral)) (attributes.flatMap Attribute.words)
      [.tag] AfterAttribute := by
  induction attributes with
  | nil => exact .nil
  | cons a rest ih =>
    simp only [List.flatMap_cons, numbered_append] at hn ⊢
    refine (attribute_lexes (h a (by simp)) hn.1).append (ih (fun b hb => h b (by simp [hb])) hn.2) ?_
    intro more hmore
    cases rest with
    | nil => exact hmore
    | cons second rest => exact ⟨' ', _, rfl, .inl rfl⟩

-- ---------------------------------------------------------------------------
-- Items
-- ---------------------------------------------------------------------------

/-- A piece of text between items is read from its first character on. -/
def Takes (chars : List Char) (kinds : List TokenKind) (follow : List Char → Prop) : Prop :=
  ∀ more p, follow more → ∃ token tokens, token.span.start = p.offset ∧
    (token :: tokens).map Token.kind = kinds ∧
      Emits ⟨chars ++ more, p, [], false⟩ (token :: tokens) ⟨more, p.afterAll chars, [], false⟩

theorem Opens.takes {chars chars' : List Char} {kind : TokenKind} {kinds : List TokenKind}
    {modes : List Mode} {follow follow' : List Char → Prop} (h : Opens [] chars kind modes follow)
    (h' : Lexes modes chars' kinds [] follow') (hfollow : ∀ more, follow' more → follow (chars' ++ more)) :
    Takes (chars ++ chars') (kind :: kinds) follow' := by
  intro more p hmore
  have hstep := h.2 (chars' ++ more) p (hfollow more hmore)
  obtain ⟨tokens, hkinds, hemits⟩ := h' more (p.afterAll chars) hmore
  have hpos := List.length_pos_iff.mpr h.1
  refine ⟨⟨kind, .between p (p.afterAll chars)⟩, tokens, rfl, by simp [hkinds], ?_⟩
  rw [List.append_assoc, Position.afterAll_append]
  exact .cons hstep (by simp; omega) hemits

theorem spellWords_spell (e : Expr) :
    ' ' :: e.spell numeral = spellWords numeral (e.words false) :=
  spellWords_tail fun h => by simpa [h] using e.words_length false

theorem Takes.always {chars : List Char} {kinds : List TokenKind} {follow : List Char → Prop}
    (h : Takes chars kinds fun _ => True) : Takes chars kinds follow :=
  fun more p _ => h more p trivial

theorem text_takes {value : String} (h : value ≠ "") :
    Takes (escapeText value.toList) [.text value] Bounded := by
  intro more p hmore
  have hchars : escapeText value.toList ≠ [] := by
    obtain ⟨c, cs, hcs⟩ := List.exists_cons_of_ne_nil (show value.toList ≠ [] by simpa using h)
    rw [hcs, escapeText]
    split <;> simp
  have hpos := List.length_pos_iff.mpr hchars
  exact ⟨_, [], rfl, rfl, .cons (next_text h hmore) (by simp; omega) .nil⟩

/-- The opening of a tag, after its name. -/
theorem tag_takes {name : String} {attributes : List Attribute} (h : Tag.Allowed name attributes)
    (hn : Numbered numeral (attributes.flatMap Attribute.words)) {chars : List Char}
    {close : TokenKind} (hclose : Lexes [.tag] chars [close] [] fun _ => True)
    (hchars : ∀ more, AfterAttribute (chars ++ more)) :
    Takes ('<' :: name.toList ++ (attributes.flatMap (Attribute.spell numeral) ++ chars))
      (.tagOpen name :: (attributes.flatMap Attribute.words ++ [close])) fun _ => True := by
  have hrest := (attributes_lexes h.each hn).append hclose fun more _ => hchars more
  refine (tagOpen_opens h.tag).takes hrest ?_
  intro more _
  cases attributes with
  | nil => exact hchars more
  | cons a rest => exact ⟨' ', _, rfl, .inl rfl⟩

theorem item_takes {item : Item} (h : item.WellFormed) (hn : Numbered numeral item.words) :
    Takes (item.spell numeral) item.words fun more => item.isText → Bounded more := by
  have helse : IsWord "else" := isWord_of rfl (by decide)
  cases item with
  | text value =>
    intro more p hmore
    exact text_takes h more p (hmore rfl)
  | mustache value =>
    simp only [Item.words, numbered_append, numbered_cons] at hn
    refine (mustache_opens.takes (closed_lexes_tight (value.written false h hn.1.2)) ?_).always
    intro more _
    rw [List.append_assoc]
    exact spell_mustache h hn.1.2 _
  | ifOpen condition =>
    simp only [Item.words, numbered_append, numbered_cons] at hn
    have hopens : Opens [] ('{' :: '#' :: "if".toList) (.blockOpen "if") [.expression 0] Gap :=
      blockOpen_opens (isWord_of rfl (by decide))
    have htakes := hopens.takes (closed_lexes (condition.written false h hn.1.2)) fun more _ => by
      rw [← spellWords_spell]
      exact .inl rfl
    simpa [Item.spell, Item.words, ← spellWords_spell] using htakes.always
  | elseIf condition =>
    simp only [Item.words, numbered_append, numbered_cons] at hn
    have hif : Plain numeral (.identifier "if") := isWord_of rfl (by decide)
    have hwords : Written numeral (.identifier "else" :: .identifier "if" :: condition.words false) :=
      .cons helse (.cons hif (condition.written false h hn.1.2.2.2))
    have htakes := blockBranch_opens.takes (closed_lexes_tight hwords) fun _ _ => trivial
    simpa [Item.spell, Item.words, ← spellWords_spell, spellWords_cons, TokenKind.spell]
      using htakes.always
  | otherwise =>
    have hwords : Written numeral [.identifier "else"] := .single helse
    exact (blockBranch_opens.takes (closed_lexes_tight hwords) fun _ _ => trivial).always
  | ifClose =>
    have hopens : Opens [] ('{' :: '/' :: "if".toList) (.blockClose "if") [.expression 0] Gap :=
      blockClose_opens (isWord_of rfl (by decide))
    have hwords : Written numeral [] := .nil
    exact (hopens.takes (closed_lexes hwords) fun _ _ => close_gap _).always
  | eachOpen iterable item index =>
    simp only [Item.words, numbered_append, numbered_cons] at hn
    have hopens : Opens [] ('{' :: '#' :: "each".toList) (.blockOpen "each") [.expression 0] Gap :=
      blockOpen_opens (isWord_of rfl (by decide))
    have hindex : Written numeral (Ident.words index) := by
      cases index with
      | none => exact .nil
      | some index =>
        have hword : Plain numeral (.identifier index.name) := h.2.2 index rfl
        exact written_symbol .comma (.single hword) (by decide)
    have has : Plain numeral (.identifier "as") := isWord_of rfl (by decide)
    have hwords := (iterable.written false h.1 hn.1.1.1.2).append
      (.cons has ((item.written h.2.1).append hindex))
    have htakes := hopens.takes (closed_lexes hwords) fun more _ => by
      rw [spellWords_append, ← spellWords_spell]
      exact .inl rfl
    simpa [Item.spell, Item.words, ← spellWords_spell, spellWords_cons, TokenKind.spell]
      using htakes.always
  | eachClose =>
    have hopens : Opens [] ('{' :: '/' :: "each".toList) (.blockClose "each") [.expression 0] Gap :=
      blockClose_opens (isWord_of rfl (by decide))
    have hwords : Written numeral [] := .nil
    exact (hopens.takes (closed_lexes hwords) fun _ _ => close_gap _).always
  | tagOpen name attributes =>
    simp only [Item.words, numbered_append, numbered_cons] at hn
    have htakes := tag_takes h hn.1.2 tagEnd_opens.lexes fun more => ⟨'>', more, rfl, by simp⟩
    simpa [Item.spell, Item.words] using htakes.always
  | tagSelf name attributes =>
    simp only [Item.words, numbered_append, numbered_cons] at hn
    have htakes := tag_takes h hn.1.2 tagSelfClose_opens.lexes fun more => ⟨'/', '>' :: more, rfl, by simp⟩
    simpa [Item.spell, Item.words] using htakes.always
  | tagClose name =>
    have hnil : Lexes [] [] [] [] fun _ => True := .nil
    have htakes := (tagClose_opens h).takes hnil fun _ _ => trivial
    rw [List.append_nil] at htakes
    exact htakes.always

theorem spell_bounded {item : Item} (h : item.WellFormed) (htext : item.isText = false)
    (more : List Char) : Bounded (item.spell numeral ++ more) := by
  cases item with
  | text value => cases htext
  | tagOpen name attributes | tagSelf name attributes =>
    obtain ⟨first, rest, hname, hfirst, -⟩ := h.tag
    refine .inr (.inr ⟨_, rfl, ?_⟩)
    simp [hname, startsTag, hfirst]
  | tagClose name => exact .inr (.inr ⟨_, rfl, rfl⟩)
  | _ => exact .inr (.inl ⟨_, rfl⟩)

theorem spellItems_bounded {items : List Item} (h : ∀ item ∈ items, item.WellFormed)
    (htext : ∀ item ∈ items.head?, item.isText = false) : Bounded (spellItems numeral items) := by
  cases items with
  | nil => exact .inl rfl
  | cons item items => exact spell_bounded (h item (by simp)) (htext item rfl) _

/-- Items are read one after the other; each has its first token where it starts. -/
theorem items_emit {done : List Item} (rest : List Item)
    (hwell : ∀ item ∈ done ++ rest, item.WellFormed)
    (hn : ∀ item ∈ done ++ rest, Numbered numeral item.words)
    (hseparate : Item.Separate (done ++ rest)) (p : Position) :
    ∃ tokens, tokens.map Token.kind = done.flatMap Item.words ∧
      (∀ token ∈ tokens.head?, token.span.start = p.offset) ∧
      Emits ⟨spellItems numeral (done ++ rest), p, [], false⟩ tokens
        ⟨spellItems numeral rest, p.afterAll (spellItems numeral done), [], false⟩ := by
  induction done generalizing p with
  | nil => exact ⟨[], rfl, nofun, .nil⟩
  | cons item done ih =>
    have hmore : ∀ i ∈ done ++ rest, i.WellFormed := fun i hi => hwell i (by simp_all)
    have hfollow : item.isText → Bounded (spellItems numeral (done ++ rest)) := fun htext =>
      spellItems_bounded hmore (hseparate.1 htext)
    obtain ⟨token, tokens, hstart, hkinds, hemits⟩ :=
      item_takes (hwell item (by simp)) (hn item (by simp)) _ p hfollow
    obtain ⟨others, hothers, -, hemits'⟩ := ih hmore (fun i hi => hn i (by simp_all)) hseparate.2
      (p.afterAll (item.spell numeral))
    refine ⟨token :: tokens ++ others, by simp [← hkinds, hothers], by simpa using hstart, ?_⟩
    have hall := hemits.append hemits'
    rw [← Position.afterAll_append] at hall
    exact hall

end PromptTemplate.Lexer
