import PromptTemplate.Proofs.Token.Modes
import PromptTemplate.Proofs.Token.Placed
import PromptTemplate.Proofs.Token.Tail

/-!
# A whole text in front of another

A text that is read to its end as an expression gives the same tokens in front
of anything that ends words (`emits_embedded`).
-/

namespace PromptTemplate.Lexer

variable {cs more : List Char} {p : Position} {depth : Nat} {outer : List Mode} {m : Lexer} {c : Char}

/-- At the end of the words, what comes then is seen. -/
theorem next_append_of_finished
    (h : (⟨cs, p, .expression depth :: outer, false⟩ : Lexer).next = (.ok none, m)) :
    (⟨cs ++ c :: more, p, .expression depth :: outer, false⟩ : Lexer).next =
      (⟨c :: more, p.afterAll cs, .expression depth :: outer, false⟩ : Lexer).next := by
  induction cs generalizing p with
  | nil => rfl
  | cons d cs ih =>
    have hblank : Text.isBlank d := by
      by_contra hblank
      by_cases hopen : d = '{'
      · subst hopen
        cases h
      · by_cases hclose : d = '}'
        · subst hclose
          cases depth <;> cases h
        · rw [next_word (by simpa using hblank) hopen hclose] at h
          dsimp only at h
          unfold string at h
          (repeat' split at h) <;> cases h
    rw [List.cons_append, next_blank hblank (by simp), Position.afterAll_cons]
    by_cases hcs : cs = []
    · rw [hcs]
      rfl
    · rw [next_blank hblank hcs] at h
      exact ih h

/-- How many braces are open behind a token, if all are closed at the end. -/
theorem braces_of_shift {kind : TokenKind} {kinds : List TokenKind} {modes : List Mode}
    (h : Shift [.expression depth] kind modes) (hkind : kind ≠ .mustacheClose)
    (hbraces : depth + (kind :: kinds).count (.symbol .braceOpen) =
      (kind :: kinds).count (.symbol .braceClose)) :
    ∃ depth', modes = [.expression depth'] ∧
      depth' + kinds.count (.symbol .braceOpen) = kinds.count (.symbol .braceClose) := by
  cases h with
  | opening _ houter => simp at houter
  | operand hoperand =>
    have hopen : kind ≠ .symbol .braceOpen := by rintro rfl; cases hoperand
    have hclose : kind ≠ .symbol .braceClose := by rintro rfl; cases hoperand
    rw [List.count_cons_of_ne hopen, List.count_cons_of_ne hclose] at hbraces
    exact ⟨depth, rfl, hbraces⟩
  | braceOpen =>
    rw [List.count_cons_self, List.count_cons_of_ne (by simp)] at hbraces
    exact ⟨depth + 1, rfl, by omega⟩
  | @braceClose depth' =>
    rw [List.count_cons_self, List.count_cons_of_ne (by simp)] at hbraces
    exact ⟨depth', rfl, by omega⟩
  | closing => exact absurd rfl hkind

/-- The tokens of an expression come first, and then those of what is behind it, if its own braces
are closed. -/
theorem emits_embedded {l n : Lexer} {tokens : List Token} (hmodes : l.modes = [.expression depth])
    (hpending : l.configPending = false) (hstop : ∃ q, l.stream.stop = .ok q)
    (hclose : ∀ token ∈ l.stream.tokens, token.kind ≠ .mustacheClose)
    (hbraces : depth + (l.stream.tokens.map Token.kind).count (.symbol .braceOpen) =
      (l.stream.tokens.map Token.kind).count (.symbol .braceClose)) (hc : endsWord c)
    (htokens : tokens ≠ [])
    (h : Emits ⟨c :: more, l.position.afterAll l.rest, [.expression 0], false⟩ tokens n) :
    Emits ⟨l.rest ++ c :: more, l.position, l.modes, false⟩ (l.stream.tokens ++ tokens) n := by
  induction hlength : l.rest.length using Nat.strong_induction_on generalizing l depth with
  | _ n ih =>
    obtain ⟨cs, p, modes, pending⟩ := l
    dsimp only at hmodes hpending hlength h ⊢
    subst hmodes hpending hlength
    rcases hnext : (⟨cs, p, [.expression depth], false⟩ : Lexer).next with ⟨e | _ | token, m⟩
    · obtain ⟨q, hq⟩ := hstop
      rw [stream_of_error hnext] at hq
      cases hq
    · rw [stream_of_finished hnext] at hbraces ⊢
      obtain rfl : depth = 0 := by simpa using hbraces
      rw [List.nil_append]
      exact h.replace htokens (next_append_of_finished hnext) (by simp)
    · have hmatches := @expression_matches cs [] (c :: more) p depth [] _ _ (by rwa [List.append_nil])
        (Nat.zero_le _) fun _ => ⟨nofun, closed_cons hc more⟩
      obtain ⟨taken, htaken, hposition⟩ := (next_placed (Place.Leads.refl
        (⟨cs, p, [.expression depth], false⟩ : Lexer).place)).lexer
      rw [List.append_nil, hnext] at hmatches
      rw [hnext] at htaken hposition
      generalize hnext' : (⟨cs ++ c :: more, p, [.expression depth], false⟩ : Lexer).next = step
        at hmatches
      cases hmatches with
      | intro _ x q modes =>
        rw [List.append_nil] at hnext
        have hshift := (next_turns (m := ⟨cs, p, [.expression depth], false⟩) rfl).shift token
          (by rw [hnext])
        rw [hnext] at hshift
        rw [stream_of_token hnext] at hstop hclose hbraces ⊢
        obtain ⟨hkind, hclose⟩ := List.forall_mem_cons.1 hclose
        obtain ⟨depth, rfl, hbraces⟩ := braces_of_shift hshift hkind hbraces
        have hless := length_of_token hnext
        obtain rfl : cs = taken ++ x := by simpa [place] using htaken
        obtain rfl : q = p.afterAll taken := hposition
        rw [Position.afterAll_append] at h
        have hrest := ih _ hless rfl rfl hstop hclose hbraces h rfl
        refine .cons hnext' ?_ hrest
        simpa using hless

end PromptTemplate.Lexer
