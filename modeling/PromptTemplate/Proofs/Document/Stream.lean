import PromptTemplate.Proofs.Node.Tracks
import PromptTemplate.Proofs.Span.Place
import PromptTemplate.Proofs.Token.Items
import PromptTemplate.Proofs.Token.Section

/-!
# The tokens of a written document

Without an opening section a document is read from its first character in no
mode but text. The tokens of a row of items are its words, and every item has
its first one where it starts.
-/

namespace PromptTemplate

namespace Lexer

theorem document_stream {source : String} (h : (document source).config? = none) :
    (document source).stream = (⟨source.toList, .start, [], false⟩ : Lexer).stream := by
  have hnext : (document source).next = (⟨source.toList, .start, [], false⟩ : Lexer).next := by
    have hconfig : (⟨source.toList, .start, [], false⟩ : Lexer).config? = none :=
      config?_none_pending h
    simp [next, document, hconfig]
  simp only [stream, document, streamWithin] at hnext ⊢
  rw [hnext]

variable {numeral : Float → List Char} {items : List Item}

/-- Rows of items that the lexer reads as they are written. -/
structure Readable (numeral : Float → List Char) (items : List Item) : Prop where
  wellFormed : ∀ item ∈ items, item.WellFormed
  numbered : ∀ item ∈ items, Numbered numeral item.words
  separate : Item.Separate items

theorem Readable.append_right {done rest : List Item} (h : Readable numeral (done ++ rest)) :
    Readable numeral rest where
  wellFormed := (List.forall_mem_append.mp h.wellFormed).2
  numbered := (List.forall_mem_append.mp h.numbered).2
  separate := h.separate.append_right

theorem Readable.emit (h : Readable numeral items) (p : Position) :
    ∃ tokens, tokens.map Token.kind = items.flatMap Item.words ∧
      (∀ token ∈ tokens.head?, token.span.start = p.offset) ∧
      Emits ⟨spellItems numeral items, p, [], false⟩ tokens
        ⟨[], p.afterAll (spellItems numeral items), [], false⟩ := by
  have hemits := @items_emit numeral items []
  simp only [List.append_nil] at hemits
  exact hemits h.wellFormed h.numbered h.separate p

theorem next_end {p : Position} :
    (⟨[], p, [], false⟩ : Lexer).next = (.ok none, ⟨[], p, [], false⟩) := rfl

theorem items_stream (h : Readable numeral items) : ∃ tokens,
    (⟨spellItems numeral items, .start, [], false⟩ : Lexer).stream =
      ⟨tokens, .ok (Position.start.afterAll (spellItems numeral items))⟩ ∧
    tokens.map Token.kind = items.flatMap Item.words := by
  obtain ⟨tokens, hkinds, -, hemits⟩ := h.emit .start
  exact ⟨tokens, hemits.stream next_end, hkinds⟩

end Lexer

open Lexer TokenStream

/-- What is left of the tokens starts where what is left of the items does. -/
theorem items_front {numeral : Float → List Char} {done rest : List Item}
    (h : Readable numeral (done ++ rest)) {t : TokenStream} (ht : Holds [] rest t)
    (hlater : Later (⟨spellItems numeral (done ++ rest), .start, [], false⟩ : Lexer).stream t) :
      t.front = ((spellItems numeral done).map Char.utf8Size).sum := by
  obtain ⟨first, hfirst, -, hemits⟩ := items_emit rest h.wellFormed h.numbered h.separate .start
  obtain ⟨second, hsecond, hstart, hemits'⟩ :=
    h.append_right.emit (Position.start.afterAll (spellItems numeral done))
  have hstream := (hemits.append hemits').stream next_end
  rw [hstream] at hlater
  have htokens : t.tokens = second := by
    have hlength : t.tokens.length = second.length := by
      simpa using congrArg List.length (ht.1.trans hsecond.symm)
    exact (List.suffix_of_suffix_length_le hlater.suffix (List.suffix_append first second)
      (Nat.le_of_eq hlength)).eq_of_length hlength
  have hoffset : (Position.start.afterAll (spellItems numeral done)).offset =
      ((spellItems numeral done).map Char.utf8Size).sum := by
    rw [Position.afterAll_offset]
    exact Nat.zero_add _
  cases second with
  | nil =>
    obtain rfl : rest = [] := by
      cases rest with
      | nil => rfl
      | cons item rest =>
        have hpos := item.words_length_pos
        rw [List.map_nil, List.flatMap_cons] at hsecond
        rw [List.nil_eq_append_iff.mp hsecond |>.1] at hpos
        cases hpos
    simp only [front, htokens, hlater.stop]
    exact hoffset
  | cons token second =>
    simp only [front, htokens]
    rw [hstart token rfl, hoffset]

end PromptTemplate
