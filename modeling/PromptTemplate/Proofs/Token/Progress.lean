import PromptTemplate.Proofs.Token.Modes
import PromptTemplate.Proofs.Token.Trivia

/-!
# The lexer gets on

A step that gives a token or an error takes at least one character, unless the
lexer is stuck. Then it gives the same error again and again, so the steps of a
text come to its end if and only if the lexer never gets stuck
(`steps_end_iff`), as it does in `<a/`.
-/

namespace PromptTemplate.Lexer

variable {l : Lexer}

theorem Step.Reads.passes {s : Step} (h : Step.Reads l s) (hitem : s.1 ≠ .ok none)
    (hstuck : ¬ l.Stuck) : l.place.Passes s.2.place := by
  obtain ⟨error | _ | token, m⟩ := s
  · exact h.resolve_left hstuck
  · exact absurd rfl hitem
  · obtain ⟨first, hskip, hpass, -⟩ := h
    exact hskip.leads.passes hpass

theorem nextTag_unreadable (h : Unreadable l.rest) :
    l.nextTag = l.fail l.position (.unexpected ">") := by
  obtain ⟨c, more, hrest, hblank, hnot, hstart, hslash⟩ := h
  have hskip : l.skipBlanks = l := skipBlanks_self (by simpa [hrest] using hblank)
  simp only [List.mem_cons, List.not_mem_nil, or_false, not_or] at hnot
  obtain ⟨hangle, hsign, hbrace, hdouble, hsingle⟩ := hnot
  unfold nextTag
  simp only [hskip, hrest]
  split
  · rename_i heq
    cases heq
  · rename_i heq
    cases heq
    exact absurd ⟨rfl, rfl⟩ hslash
  · rename_i heq
    exact absurd (List.cons.inj heq).1 hangle
  · rename_i heq
    exact absurd (List.cons.inj heq).1 hsign
  · rename_i heq
    exact absurd (List.cons.inj heq).1 hbrace
  · rename_i heq
    cases heq
    simp [hdouble, hsingle, hstart]

theorem next_of_stuck (hpending : l.configPending = false) (h : l.Stuck) :
    l.next = l.fail l.position (.unexpected ">") := by
  obtain ⟨cs, p, modes, _⟩ := l
  obtain rfl := hpending
  obtain ⟨htag, hrest⟩ := h
  obtain ⟨outer, rfl⟩ := List.head?_eq_some_iff.mp htag
  have hsome : cs ≠ [] := by
    obtain ⟨c, more, rfl, -⟩ := hrest
    exact List.cons_ne_nil c more
  simp only [next, Bool.false_eq_true, if_false, hsome]
  exact nextTag_unreadable hrest

/-- The errors of a lexer that is stuck never end. -/
theorem after_of_stuck (hpending : l.configPending = false) (h : l.Stuck) (n : Nat) :
    l.after n = l := by
  induction n with
  | zero => rfl
  | succ n ih =>
    rw [after_succ, ih, next_of_stuck hpending h]
    rfl

theorem leads_after (l : Lexer) (n : Nat) : l.place.Leads (l.after n).place := by
  induction n with
  | zero => exact .refl _
  | succ n ih =>
    rw [after_succ]
    exact ih.trans (next_placed (.refl _)).lexer

theorem exists_end (h : ∀ n, ¬ (l.after n).Stuck) : ∃ n, (l.after n).next.1 = .ok none := by
  induction hlength : l.rest.length using Nat.strong_induction_on generalizing l with
  | _ length ih =>
    by_cases hend : l.next.1 = .ok none
    · exact ⟨0, hend⟩
    · have hpass := (next_reads l).passes hend (h 0)
      obtain ⟨n, hn⟩ := ih _ (hlength ▸ hpass.shorter) (fun n => h (n + 1)) rfl
      exact ⟨n + 1, hn⟩

/-- Nothing is left after the end, so no later step can be stuck; and no earlier one, since a lexer
that is stuck stays so. -/
theorem not_stuck_of_end {m n : Nat}
    (hpending : (l.after m).Stuck → (l.after m).configPending = false)
    (hend : (l.after n).next.1 = .ok none) : ¬ (l.after m).Stuck := by
  intro hstuck
  have hnext := next_of_stuck (hpending hstuck) hstuck
  rcases Nat.lt_or_ge n m with hlt | hle
  · obtain ⟨k, rfl⟩ := Nat.exists_eq_add_of_le hlt
    have hreads : Step.Reads (l.after n) (.ok none, l.after (n + 1)) := by
      rw [after_succ, ← hend]
      exact next_reads _
    have hlength := (leads_after (l.after (n + 1)) k).length_le
    obtain ⟨-, c, more, hrest, -⟩ := hstuck
    rw [← after_add] at hlength
    simp [place, hreads.2, hrest] at hlength
  · obtain ⟨k, rfl⟩ := Nat.exists_eq_add_of_le hle
    rw [after_add, after_of_stuck (hpending hstuck) hstuck, hnext] at hend
    cases hend

theorem configPending_of_stuck {source : String} (hl : l = document source ∨ l = expression source)
    {n : Nat} (h : (l.after n).Stuck) : (l.after n).configPending = false := by
  cases n with
  | zero =>
    obtain rfl | rfl := hl
    · cases h.1
    · rfl
  | succ n =>
    rw [after_succ]
    exact next_configPending _

/-- A step that gives a token or an error goes on in the text if and only if the lexer is not stuck,
and the steps come to the end of the text if and only if the lexer never gets stuck. -/
theorem steps_end_iff {source : String} (hl : l = document source ∨ l = expression source) :
    (∀ n, (l.after n).next.1 ≠ .ok none →
      ((l.after n).position.offset < (l.after (n + 1)).position.offset ↔ ¬ (l.after n).Stuck)) ∧
    ((∃ n, (l.after n).next.1 = .ok none) ↔ ∀ n, ¬ (l.after n).Stuck) := by
  refine ⟨fun n hitem => ?_, fun ⟨n, hn⟩ m => ?_, exists_end⟩
  · rw [after_succ]
    constructor
    · intro hlt hstuck
      rw [next_of_stuck (configPending_of_stuck hl hstuck) hstuck] at hlt
      exact absurd hlt (Nat.lt_irrefl _)
    · intro hstuck
      exact ((next_reads _).passes hitem hstuck).offset_lt
  · exact not_stuck_of_end (configPending_of_stuck hl) hn

theorem stuck_afterSlash : ((document "<a/").after 1).Stuck :=
  ⟨rfl, '/', [], rfl, by decide⟩

/-- A slash in a tag that no angle follows is reported, and stays ahead. -/
theorem steps_end_iff_slash :
    ((document "<a/").after 2).position.offset ≤ ((document "<a/").after 1).position.offset := by
  have hitem : ((document "<a/").after 1).next.1 ≠ .ok none := by
    rw [next_of_stuck rfl stuck_afterSlash]
    nofun
  exact Nat.le_of_not_lt fun hlt =>
    ((steps_end_iff (.inl rfl)).1 1 hitem).mp hlt stuck_afterSlash

/-- It is reported forever. -/
theorem steps_never_end : ¬ ∃ n, ((document "<a/").after n).next.1 = .ok none :=
  fun ⟨_, hend⟩ => not_stuck_of_end (fun _ => rfl) hend stuck_afterSlash

end PromptTemplate.Lexer
