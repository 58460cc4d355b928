import PromptTemplate.Proofs.Text.Trim
import PromptTemplate.Proofs.Token.Tail

/-!
# Words end where their text does

The last character of a word of an expression is not blank (`solid_of_token`),
and neither is its first one. So what a run of words takes up has nothing to
trim.
-/

namespace PromptTemplate.Lexer

variable {cs rest : List Char} {p : Position} {depth : Nat} {outer modes : List Mode} {token : Token}
  {m : Lexer}

/-- The text up to `rest` ends with something other than a blank. -/
def Solid (cs rest : List Char) : Prop := ∃ x d, cs = x ++ d :: rest ∧ Text.isBlank d = false

theorem Solid.append (h : Solid cs rest) (before : List Char) : Solid (before ++ cs) rest := by
  obtain ⟨x, d, rfl, hd⟩ := h
  exact ⟨before ++ x, d, (List.append_assoc ..).symm, hd⟩

theorem Solid.upTo_rest (h : Solid cs rest) : ((⟨cs, p, modes, false⟩ : Lexer).upTo rest).rest = rest := by
  obtain ⟨x, d, rfl, -⟩ := h
  rw [show x ++ d :: rest = x ++ [d] ++ rest by simp, upTo_append]

theorem Solid.of_last {taken : List Char} (htaken : taken ≠ [])
    (h : ∀ d ∈ taken.getLast?, Text.isBlank d = false) : Solid (taken ++ rest) rest := by
  obtain ⟨x, d, rfl⟩ : ∃ x d, taken = x ++ [d] :=
    ⟨_, _, (List.dropLast_concat_getLast htaken).symm⟩
  exact ⟨x, d, by simp, h d (List.getLast?_concat ..)⟩

/-- There is nothing to trim. -/
theorem Solid.trim {text : List Char} (h : Solid (text ++ rest) rest) {c : Char}
    (htext : c :: cs = text ++ rest) (hc : Text.isBlank c = false) :
    Text.trim (String.ofList text) = String.ofList text := by
  obtain ⟨x, d, hx, hd⟩ := h
  obtain rfl : text = x ++ [d] := by
    rw [List.append_cons] at hx
    exact List.append_cancel_right hx
  rw [Text.trim, String.toList_ofList, Text.trimChars_of_ends]
  · cases x <;> simp_all
  · simpa using hd

-- ---------------------------------------------------------------------------
-- One word
-- ---------------------------------------------------------------------------

/-- A string ends with its quote. -/
theorem stringBody?_last {quote : Char} {cs body rest : List Char}
    (h : stringBody? quote cs = some (body, rest)) : ∃ x, cs = x ++ quote :: rest := by
  fun_induction stringBody? quote cs generalizing body rest with
  | case1 | case3 => cases h
  | case2 | case4 =>
    cases h
    exact ⟨[], rfl⟩
  | case5 d cs hquote ih =>
    obtain ⟨⟨found, _⟩, hfound, hmap⟩ := Option.map_eq_some_iff.mp h
    cases hmap
    obtain ⟨x, rfl⟩ := ih hfound
    exact ⟨'\\' :: d :: x, rfl⟩
  | case6 c d cs hquote hslash ih =>
    obtain ⟨⟨found, _⟩, hfound, hmap⟩ := Option.map_eq_some_iff.mp h
    cases hmap
    obtain ⟨x, hx⟩ := ih hfound
    exact ⟨c :: x, congrArg (c :: ·) hx⟩

theorem string_solid {quote : Char} (hquote : quote = '"' ∨ quote = '\'')
    (h : (⟨quote :: cs, p, modes, false⟩ : Lexer).string quote = (.ok (some token), m)) :
    Solid (quote :: cs) m.rest := by
  simp only [string, List.drop_one, List.tail_cons] at h
  cases hbody : stringBody? quote cs with
  | none =>
    rw [hbody] at h
    cases h
  | some found =>
    obtain ⟨body, rest⟩ := found
    obtain ⟨x, rfl⟩ := stringBody?_last hbody
    have hsolid : Solid (quote :: (x ++ quote :: rest)) rest :=
      ⟨quote :: x, quote, rfl, by obtain rfl | rfl := hquote <;> decide⟩
    rw [hbody] at h
    cases h
    rwa [hsolid.upTo_rest]

/-- A numeral does not take a blank. -/
theorem takeNumeral_solid (h : startsNumber cs) : Solid cs (Number.takeNumeral cs).2 := by
  have hless := takeNumeral_shorter h
  rcases hnumeral : Number.takeNumeral cs with ⟨numeral, rest⟩
  rw [hnumeral] at hless
  obtain ⟨taken, rfl, hself⟩ := Number.takeNumeral_self hnumeral
  have htaken : taken ≠ [] := by
    rintro rfl
    exact absurd hless (Nat.lt_irrefl _)
  refine .of_last htaken fun d hd => ?_
  by_contra hblank
  obtain ⟨x, rfl⟩ := List.getLast?_eq_some_iff.1 hd
  have hends : endsWord d := by
    simp [endsWord, (Bool.not_eq_false _).to_iff.1 hblank]
  rw [Number.takeNumeral_append (closed_cons hends []).ended] at hself
  simp at hself

theorem takeRun_solid (cs : List Char) (p : Position) (modes : List Mode) {r : Char → Bool}
    (hr : ∀ d, Text.isBlank d → r d = false) {c : Char} (hc : r c) :
    Solid (c :: cs) ((⟨c :: cs, p, modes, false⟩ : Lexer).takeRun r).2.rest := by
  have hsplit : (c :: cs).takeWhile r ++ (c :: cs).dropWhile r = c :: cs :=
    List.takeWhile_append_dropWhile
  have hrun : (c :: cs).takeWhile r ≠ [] := by simp [hc]
  have hlast : ∀ d ∈ ((c :: cs).takeWhile r).getLast?, Text.isBlank d = false := by
    intro d hd
    by_contra hblank
    have hpart := List.mem_takeWhile_imp (List.mem_of_getLast? hd)
    rw [hr d ((Bool.not_eq_false _).to_iff.1 hblank)] at hpart
    cases hpart
  simp only [takeRun]
  generalize (c :: cs).takeWhile r = run at *
  rw [← hsplit, advance_append]
  exact .of_last hrun hlast

theorem symbol_last : ∀ symbol ∈ Symbol.table, symbol.text.toList ≠ [] ∧
    symbol.text.toList.getLast?.all fun d => !Text.isBlank d := by
  decide

theorem symbol_solid (p : Position) (modes : List Mode) {symbol : Symbol}
    (h : symbol? cs = some symbol) :
    Solid cs ((⟨cs, p, modes, false⟩ : Lexer).advance symbol.text.length).rest := by
  obtain ⟨hne, hlast⟩ := symbol_last symbol (List.mem_of_find?_eq_some h)
  have hfront := List.find?_some h
  obtain ⟨rest, rfl⟩ := List.isPrefixOf_iff_prefix.1 (Bool.and_eq_true_iff.1 hfront).1
  rw [← String.length_toList, advance_append]
  refine .of_last hne fun d hd => ?_
  rw [Option.mem_def.1 hd] at hlast
  simpa using hlast

theorem word_solid {c : Char} (hblank : Text.isBlank c = false) (hopen : c ≠ '{') (hclose : c ≠ '}')
    (h : (⟨c :: cs, p, .expression depth :: outer, false⟩ : Lexer).next = (.ok (some token), m)) :
    Solid (c :: cs) m.rest := by
  rw [next_word hblank hopen hclose] at h
  dsimp only at h
  split at h
  · rename_i hquote
    exact string_solid (by simpa using hquote) h
  · split at h
    · rename_i hnumber
      have hsolid := takeNumeral_solid hnumber
      cases h
      rwa [hsolid.upTo_rest]
    · split at h
      · rename_i hident
        have hsolid := takeRun_solid cs p (.expression depth :: outer)
          (fun d => Text.not_isIdentPart_of_isBlank) (Text.isIdentPart_of_isIdentStart hident)
        cases h
        exact hsolid
      · split at h
        · rename_i symbol hsymbol
          have hsolid := symbol_solid p (.expression depth :: outer) hsymbol
          cases h
          exact hsolid
        · cases h

/-- A token of an expression ends with something other than a blank. -/
theorem solid_of_token
    (h : (⟨cs, p, .expression depth :: outer, false⟩ : Lexer).next = (.ok (some token), m)) :
    Solid cs m.rest := by
  induction cs generalizing p with
  | nil => cases h
  | cons c cs ih =>
    by_cases hblank : Text.isBlank c
    · exact (ih (next_of_blank hblank h)).append [c]
    · by_cases hopen : c = '{'
      · subst hopen
        cases h
        exact ⟨[], '{', rfl, rfl⟩
      · by_cases hclose : c = '}'
        · subst hclose
          cases depth <;> cases h <;> exact ⟨[], '}', rfl, rfl⟩
        · exact word_solid (by simpa using hblank) hopen hclose h

end PromptTemplate.Lexer
