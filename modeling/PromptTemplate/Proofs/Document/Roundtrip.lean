import PromptTemplate.Proofs.Document.Nesting
import PromptTemplate.Proofs.Node.Sound
import PromptTemplate.Proofs.Token.Lexed
import PromptTemplate.Proofs.Token.Numbered

/-!
# Printing and parsing again

A parsed document is well-formed, so the row of items it is printed as is read
as it is written, and this row has only one tree.
-/

namespace PromptTemplate

open PromptTemplate.Parser TokenStream Lexer

theorem document_good {source : String} (h : (Lexer.document source).config? = none) :
    (Lexer.document source).stream.Good := by
  rw [document_stream h]
  exact (streamWithin_good _ rfl).1

theorem parseDocument_wellFormed {source : String} {d : Document}
    (hconfig : (Lexer.document source).config? = none) (hparse : parseDocument source = .ok d) :
    Node.AllWellFormed d.nodes := by
  have hsound := Document.parser_sound (Lexer.document source).stream
  simp only [parseDocument, StateT.run] at hparse
  cases hrun : Document.parser (Lexer.document source).stream with
  | error error => rw [hrun] at hparse; cases hparse
  | ok found =>
    rw [hrun] at hparse
    obtain rfl : found.1 = d := Except.ok.inj hparse
    exact (hsound _ _ (document_good hconfig) hrun).2

-- ---------------------------------------------------------------------------
-- The comment in front
-- ---------------------------------------------------------------------------

namespace Lexer

variable {cs : List Char} {p : Position}

/-- After a comment the same comes next, only that a text starts before it. -/
theorem next_comment {found : Option Token} {m : Lexer}
    (h : (⟨cs, p.afterAll emptyComment, [], false⟩ : Lexer).next = (.ok found, m)) :
    ∃ found', found'.map Token.kind = found.map Token.kind ∧
      (⟨emptyComment ++ cs, p, [], false⟩ : Lexer).next = (.ok found', m) := by
  have hne : emptyComment ++ cs ≠ [] := by simp [emptyComment]
  cases cs with
  | nil => exact ⟨found, rfl, h⟩
  | cons c cs =>
    simp only [next, nextInMode, nextText, hne, Bool.false_eq_true, if_false, textRun_comment,
      reduceCtorEq] at h ⊢
    generalize textRun none (p.afterAll emptyComment) (c :: cs) = run at h
    -- the position before the comment is seen only in the span of a text
    by_cases htext : run.text = []
    · refine ⟨found, rfl, ?_⟩
      simp only [htext, ne_eq, not_true, if_true, if_false] at h ⊢
      revert h
      split
      · exact id
      · exact id
      · split
        · exact id
        · rintro ⟨⟩
        · exact id
        · exact id
    · simp only [htext, ne_eq, not_false_eq_true, if_true, if_false] at h ⊢
      split at h
      · cases h
      · cases h
        exact ⟨some ⟨.text (String.ofList run.text), .between p run.position⟩, rfl, rfl⟩
      · cases h
        exact ⟨some ⟨.text (String.ofList run.text), .between p run.position⟩, rfl, rfl⟩

theorem comment_stream {tokens : List Token} {m n : Lexer}
    (h : Emits ⟨cs, p.afterAll emptyComment, [], false⟩ tokens m) (hend : m.next = (.ok none, n)) :
    ∃ tokens', tokens'.map Token.kind = tokens.map Token.kind ∧
      (⟨emptyComment ++ cs, p, [], false⟩ : Lexer).stream = ⟨tokens', .ok n.position⟩ := by
  generalize hl : (⟨cs, p.afterAll emptyComment, [], false⟩ : Lexer) = l at h
  cases h with
  | nil =>
    subst hl
    obtain ⟨found, hfound, hnext⟩ := next_comment hend
    obtain rfl : found = none := by simpa using hfound
    exact ⟨[], rfl, Emits.nil.stream hnext⟩
  | cons first less more =>
    subst hl
    obtain ⟨found, hfound, hnext⟩ := next_comment first
    obtain ⟨token, rfl, hkind⟩ := Option.map_eq_some_iff.mp hfound
    have hemits := Emits.cons hnext (Nat.lt_of_lt_of_le less (by simp)) more
    exact ⟨token :: _, by simp [hkind], hemits.stream hend⟩

end Lexer

theorem print_holds {numeral : Float → List Char} {d : Document}
    (h : Readable numeral (Node.allItems d.nodes)) :
    Holds [] (Node.allItems d.nodes) (Lexer.document (d.print numeral)).stream := by
  have hconfig : (Lexer.document (d.print numeral)).config? = none := by
    rw [Lexer.document, Document.print, String.toList_ofList]
    exact config?_none (by decide) (by decide)
  have hstream := document_stream hconfig
  rw [Document.print, String.toList_ofList] at hstream
  obtain ⟨tokens, hkinds, -, hemits⟩ := h.emit (Position.start.afterAll emptyComment)
  obtain ⟨tokens', hkinds', htokens⟩ := comment_stream hemits next_end
  rw [Document.print, hstream, htokens]
  exact ⟨hkinds'.trans hkinds, _, rfl⟩

theorem allItems_readable {numeral : Float → List Char} {nodes : List Node}
    (h : Node.AllWellFormed nodes)
    (hnumeral : ∀ item ∈ Node.allItems nodes, Numbered numeral item.words) :
    Readable numeral (Node.allItems nodes) where
  wellFormed := Node.allItems_wellFormed nodes h
  numbered := hnumeral
  separate := by simpa using Node.allItems_separate nodes [] h trivial nofun

/-- What is printed of well-formed nodes is parsed as the same ones. -/
theorem parseDocument_of_wellFormed {numeral : Float → List Char} {d : Document}
    (h : Node.AllWellFormed d.nodes)
    (hnumeral : ∀ item ∈ Node.allItems d.nodes, Numbered numeral item.words) :
    ∃ d', parseDocument (d.print numeral) = .ok d' ∧ d'.erase = d.erase := by
  have hreadable := allItems_readable h hnumeral
  have hderives := Node.allDerives d.nodes h
  obtain ⟨d', hparse, hnodes⟩ :=
    parseDocument_of_derives hreadable.wellFormed (print_holds hreadable) hderives
  exact ⟨d', hparse, by rw [Document.erase, Document.erase, hnodes]⟩

/-- A parsed document can be printed, and what is printed of it is parsed as the same document,
whichever literals its numbers are written by. -/
theorem parseDocument_print {source : String} {d : Document}
    (hconfig : (Lexer.document source).config? = none) (hparse : parseDocument source = .ok d) :
    (∃ numeral, ∀ item ∈ Node.allItems d.nodes, Numbered numeral item.words) ∧
    ∀ numeral, (∀ item ∈ Node.allItems d.nodes, Numbered numeral item.words) →
      ∃ d', parseDocument (d.print numeral) = .ok d' ∧ d'.erase = d.erase := by
  have hwell := parseDocument_wellFormed hconfig hparse
  refine ⟨?_, fun numeral => parseDocument_of_wellFormed hwell⟩
  obtain ⟨numeral, hnumeral⟩ := exists_literals
  exact ⟨numeral, fun item hitem =>
    Item.numbered hnumeral (Node.allItems_wellFormed d.nodes hwell item hitem)⟩

/-- An escaped brace and a product in a sum are printed so that they are read again. -/
theorem parseDocument_print_escaped :
    ∃ d, parseDocument "a\\\x7b\x7bx+y*z\x7d" = .ok d ∧
      d.print (fun _ => []) = "/**/a\\\x7b\x7bx + ( y * z )\x7d" ∧
      ∃ d', parseDocument (d.print fun _ => []) = .ok d' ∧ d'.erase = d.erase := by
  let x : Expr := .identifier ⟨4, 5, 1, 5⟩ "x"
  let y : Expr := .identifier ⟨6, 7, 1, 7⟩ "y"
  let z : Expr := .identifier ⟨8, 9, 1, 9⟩ "z"
  let sum : Expr := .binary ⟨4, 9, 1, 5⟩ .add x (.binary ⟨6, 9, 1, 7⟩ .multiply y z)
  let d : Document := ⟨[.text ⟨0, 3, 1, 1⟩ "a\x7b", .mustache ⟨3, 10, 1, 4⟩ sum]⟩
  have hconfig : (Lexer.document "a\\\x7b\x7bx+y*z\x7d").config? = none := rfl
  have hparse : parseDocument "a\\\x7b\x7bx+y*z\x7d" = .ok d := rfl
  have hnumeral : ∀ item ∈ Node.allItems d.nodes, Numbered (fun _ => []) item.words := by
    simp [d, sum, x, y, z, Node.allItems, Node.items, Item.words, Expr.words, BinaryOp.word]
  exact ⟨d, hparse, rfl, (parseDocument_print hconfig hparse).2 _ hnumeral⟩

end PromptTemplate
