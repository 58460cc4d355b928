import PromptTemplate.Proofs.Token.Lexed
import PromptTemplate.Proofs.Token.Placed
import PromptTemplate.Proofs.Token.Section

/-!
# What lies between tokens

A step of the lexer passes over trivia, that is blanks or whole comments, and
takes a token of at least one character. At the end of the text nothing but
trivia is left. An error takes a character too, unless the lexer is stuck: in
front of a character inside a tag that no word there starts with.
-/

namespace PromptTemplate.Lexer

/-- From the opening of a comment to the first closing after it. -/
def IsComment (cs : List Char) : Prop :=
  ∃ body, cs = '/' :: '*' :: (body ++ ['*', '/']) ∧ ¬ ['*', '/'] <:+: body

/-- Blanks, or comments one after the other. -/
def IsTrivia (cs : List Char) : Prop :=
  (∀ c ∈ cs, Text.isBlank c) ∨
    ∃ comments : List (List Char), (∀ comment ∈ comments, IsComment comment) ∧ cs = comments.flatten

theorem isTrivia_nil : IsTrivia [] := .inl nofun

/-- One comes from `a` to `b` over trivia. -/
def Skips (a b : Place) : Prop :=
  ∃ trivia, IsTrivia trivia ∧ a.ahead = trivia ++ b.ahead ∧ b.position = a.position.afterAll trivia

theorem Skips.refl (a : Place) : Skips a a := ⟨[], isTrivia_nil, rfl, rfl⟩

theorem Skips.leads {a b : Place} (h : Skips a b) : a.Leads b := by
  obtain ⟨trivia, -, ha, hb⟩ := h
  exact ⟨trivia, ha, hb⟩

/-- What is passed over is told by the texts ahead. -/
theorem Skips.of_leads {a b : Place} {trivia : List Char} (h : a.Leads b)
    (htrivia : IsTrivia trivia) (ha : a.ahead = trivia ++ b.ahead) : Skips a b := by
  obtain ⟨taken, ha', hb⟩ := h
  obtain rfl := List.append_cancel_right (ha.symm.trans ha')
  exact ⟨trivia, htrivia, ha, hb⟩

-- ---------------------------------------------------------------------------
-- Runs of text
-- ---------------------------------------------------------------------------

/-- No comment is closed inside a body that goes on before its closing. -/
theorem not_infix_cons {c d : Char} {body more cs : List Char} (h : ¬ ['*', '/'] <:+: body)
    (hclose : ¬ (c = '*' ∧ d = '/')) (hmore : d :: cs = body ++ '*' :: more) :
    ¬ ['*', '/'] <:+: c :: body := by
  rw [List.infix_cons_iff, not_or]
  refine ⟨fun hprefix => ?_, h⟩
  obtain ⟨rest, hrest⟩ := hprefix
  obtain ⟨rfl, rfl⟩ := List.cons.inj hrest
  exact hclose ⟨rfl, (List.cons.inj hmore).1⟩

/-- If the run is without text and does not fail, it has passed over comments, and inside a comment
over what was left of that one first. If not, it has taken a character. -/
structure TextRun.Skims (comment : Option Position) (cs : List Char) (run : TextRun) : Prop where
  comments : run.text = [] → (∀ error, run.stop ≠ .failure error) →
    ∃ comments : List (List Char), (∀ comment ∈ comments, IsComment comment) ∧
      match comment with
      | none => cs = comments.flatten ++ run.rest
      | some _ => ∃ body, ¬ ['*', '/'] <:+: body ∧
          cs = body ++ '*' :: '/' :: (comments.flatten ++ run.rest)
  within : run.rest.length ≤ cs.length
  shorter : comment = none → run.text ≠ [] ∨ (∃ error, run.stop = .failure error) →
    run.rest.length < cs.length

theorem TextRun.Skims.of_shorter {comment : Option Position} {cs : List Char} {run : TextRun}
    (h : run.text ≠ [] ∨ ∃ error, run.stop = .failure error)
    (hshorter : run.rest.length < cs.length) : TextRun.Skims comment cs run where
  comments htext hstop := by
    obtain hsome | ⟨error, hfailure⟩ := h
    · exact absurd htext hsome
    · exact absurd hfailure (hstop error)
  within := Nat.le_of_lt hshorter
  shorter _ _ := hshorter

theorem textRun_skims (comment : Option Position) (p : Position) (cs : List Char) :
    TextRun.Skims comment cs (textRun comment p cs) := by
  fun_induction textRun comment p cs with
  | case1 | case4 | case11 => exact ⟨fun _ _ => ⟨[], by simp, rfl⟩, Nat.le_refl _, by simp⟩
  | case2 => exact ⟨fun _ hstop => absurd rfl (hstop _), Nat.le_refl _, by simp⟩
  | case3 => exact .of_shorter (.inr ⟨_, rfl⟩) Nat.zero_lt_one
  | case5 => exact .of_shorter (.inl (by simp)) Nat.zero_lt_one
  | case6 p c d cs next beyond start hclose ih =>
    obtain ⟨rfl, rfl⟩ : c = '*' ∧ d = '/' := by simpa using hclose
    refine ⟨fun htext hstop => ?_, Nat.le_trans ih.within (Nat.le_add_right _ 2), by simp⟩
    obtain ⟨comments, hcomments, hcs⟩ := ih.comments htext hstop
    exact ⟨comments, hcomments, [], by simp, congrArg ('*' :: '/' :: ·) hcs⟩
  | case7 p c d cs next start hclose ih =>
    have hclose : ¬ (c = '*' ∧ d = '/') := by simpa using hclose
    refine ⟨fun htext hstop => ?_, Nat.le_succ_of_le ih.within, by simp⟩
    obtain ⟨comments, hcomments, body, hbody, hcs⟩ := ih.comments htext hstop
    exact ⟨comments, hcomments, c :: body, not_infix_cons hbody hclose hcs, congrArg (c :: ·) hcs⟩
  | case8 p c d cs next beyond hescape ih =>
    have hshorter := Nat.lt_succ_of_le (Nat.le_succ_of_le ih.within)
    exact .of_shorter (.inl (by simp [TextRun.push])) hshorter
  | case9 p c d cs next beyond hescape hopen ih =>
    obtain ⟨rfl, rfl⟩ : c = '/' ∧ d = '*' := by simpa using hopen
    have hshorter := Nat.lt_succ_of_le (Nat.le_succ_of_le ih.within)
    refine ⟨fun htext hstop => ?_, Nat.le_of_lt hshorter, fun _ _ => hshorter⟩
    obtain ⟨comments, hcomments, body, hbody, hcs⟩ := ih.comments htext hstop
    refine ⟨('/' :: '*' :: (body ++ ['*', '/'])) :: comments, ?_, ?_⟩
    · exact List.forall_mem_cons.mpr ⟨⟨body, rfl, hbody⟩, hcomments⟩
    · simpa using hcs
  | case10 p c d cs =>
    exact .of_shorter (.inr ⟨_, rfl⟩) (Nat.lt_succ_of_le (Nat.le_succ _))
  | case12 p c d cs next hescape hopen hclose hmarkup ih =>
    exact .of_shorter (.inl (by simp [TextRun.push])) (Nat.lt_succ_of_le ih.within)

-- ---------------------------------------------------------------------------
-- Steps
-- ---------------------------------------------------------------------------

/-- No word inside a tag starts like this. -/
def Unreadable (cs : List Char) : Prop :=
  ∃ c more, cs = c :: more ∧ Text.isBlank c = false ∧ c ∉ ['>', '=', '{', '"', '\''] ∧
    Text.isAttributeStart c = false ∧ ¬ (c = '/' ∧ more.head? = some '>')

/-- The lexer is inside a tag in front of a character that it can do nothing with. -/
def Stuck (l : Lexer) : Prop := l.modes.head? = some .tag ∧ Unreadable l.rest

/-- What a step does to the text. -/
def Step.Reads (l : Lexer) : Step → Prop
  | (.ok (some token), m) => ∃ first : Place, Skips l.place first ∧ first.Passes m.place ∧
      token.span = .between first.position m.position
  | (.ok none, m) => IsTrivia l.rest ∧ m.rest = []
  | (.error _, m) => l.Stuck ∨ l.place.Passes m.place

variable {l m n : Lexer} {c : Char} {more : List Char}

theorem passes_advance {count : Nat} (hrest : m.rest ≠ []) (hcount : 0 < count) :
    m.place.Passes (m.advance count).place :=
  Place.passes_drop m.position hrest hcount

theorem passes_takeRun {q : Char → Bool} (hrest : m.rest = c :: more) (hc : q c) :
    m.place.Passes (m.takeRun q).2.place := by
  refine passes_advance (by simp [hrest]) ?_
  rw [hrest, List.takeWhile_cons_of_pos hc]
  exact Nat.succ_pos _

theorem skips_skipBlanks (l : Lexer) : Skips l.place l.skipBlanks.place := by
  have hblank : ∀ c ∈ l.rest.takeWhile Text.isBlank, Text.isBlank c :=
    List.all_eq_true.mp List.all_takeWhile
  refine .of_leads (leads_skipBlanks l) (.inl hblank) ?_
  change l.rest = _ ++ l.skipBlanks.rest
  rw [rest_skipBlanks, List.takeWhile_append_dropWhile]

theorem not_isBlank_of_skipBlanks (h : m.skipBlanks.rest = c :: more) : Text.isBlank c = false := by
  have hhead := List.head?_dropWhile_not Text.isBlank m.rest
  rw [← rest_skipBlanks, h] at hhead
  exact hhead

theorem isTrivia_of_skipBlanks (h : m.skipBlanks.rest = []) : IsTrivia m.rest := by
  refine .inl fun c hc => ?_
  rw [rest_skipBlanks, List.dropWhile_eq_nil_iff] at h
  exact h c hc

theorem emit_reads {kind : TokenKind} (hskip : Skips l.place m.place)
    (hpass : m.place.Passes n.place) : Step.Reads l (n.emit m.position kind) :=
  ⟨m.place, hskip, hpass, rfl⟩

theorem fail_reads {start : Position} {cause : Cause} (hskip : Skips l.place m.place)
    (hpass : m.place.Passes n.place) : Step.Reads l (n.fail start cause) :=
  .inr (hskip.leads.passes hpass)

-- ---------------------------------------------------------------------------
-- Text and tags
-- ---------------------------------------------------------------------------

section
variable (hskip : Skips l.place m.place) (hrest : m.rest ≠ [])
include hskip hrest

theorem brace_reads : Step.Reads l m.brace := by
  have hadvance := passes_advance hrest Nat.one_pos
  unfold brace
  dsimp only
  split
  · exact emit_reads hskip (hadvance.trans ((leads_advance _ 1).trans (leads_takeRun _ _)))
  · exact emit_reads hskip (hadvance.trans (leads_advance _ 1))
  · exact emit_reads hskip (hadvance.trans ((leads_advance _ 1).trans (leads_takeRun _ _)))
  · exact emit_reads hskip hadvance

theorem closingTag_reads : Step.Reads l m.closingTag := by
  have hname := (passes_advance hrest Nat.two_pos).trans (leads_takeRun _ Text.isTagNamePart)
  unfold closingTag
  dsimp only
  split
  · exact fail_reads hskip hname
  · split
    · exact emit_reads hskip (hname.trans ((leads_skipBlanks _).trans (leads_advance _ 1)))
    · exact fail_reads hskip (hname.trans (leads_skipBlanks _))

theorem openingTag_reads : Step.Reads l m.openingTag := by
  have hname := (passes_advance hrest Nat.one_pos).trans (leads_takeRun _ Text.isTagNamePart)
  unfold openingTag
  dsimp only
  split
  · exact emit_reads hskip hname
  · split
    · exact emit_reads hskip hname
    · exact fail_reads hskip (hname.trans (leads_advance _ 1))

theorem attributeValue_reads {quote : Char} :
    Step.Reads l ((m.advance 1).attributeValue m.position quote) := by
  have hquote := passes_advance hrest Nat.one_pos
  unfold attributeValue
  dsimp only
  split
  · exact emit_reads hskip (hquote.trans (leads_advance _ _))
  · exact fail_reads hskip (hquote.trans (leads_advance _ _))

end

theorem nextText_reads (m : Lexer) : Step.Reads m m.nextText := by
  have hskims := textRun_skims none m.position m.rest
  have hstopped := textRun_stopped none m.position m.rest
  have hleads := (textRun_placed none m.position m.rest (.refl m.place) nofun).finish
  unfold nextText
  dsimp only
  generalize textRun none m.position m.rest = run at hskims hstopped hleads ⊢
  have hpass : run.text ≠ [] ∨ (∃ error, run.stop = .failure error) →
      m.place.Passes (place { m with position := run.position, rest := run.rest }) :=
    fun h => ⟨hleads, hskims.shorter rfl h⟩
  have hcomments : run.text = [] → (∀ error, run.stop ≠ .failure error) →
      ∃ comments, IsTrivia comments ∧ m.rest = comments ++ run.rest := by
    intro htext hstop
    obtain ⟨comments, hall, hcs⟩ := hskims.comments htext hstop
    exact ⟨_, .inr ⟨comments, hall, rfl⟩, hcs⟩
  rw [TextRun.Stopped] at hstopped
  split
  · rename_i error hstop
    exact .inr (hpass (.inr ⟨error, hstop⟩))
  · rename_i hstop
    rw [hstop] at hstopped
    split
    · rename_i htext
      obtain ⟨comments, htrivia, hcs⟩ := hcomments htext (by simp [hstop])
      rw [hstopped, List.append_nil] at hcs
      exact ⟨hcs ▸ htrivia, hstopped⟩
    · rename_i htext
      exact emit_reads (.refl _) (hpass (.inl htext))
  · rename_i hstop
    rw [hstop] at hstopped
    split
    · rename_i htext
      exact emit_reads (.refl _) (hpass (.inl htext))
    · rename_i htext
      obtain ⟨comments, htrivia, hcs⟩ := hcomments (by simpa using htext) (by simp [hstop])
      have hskip : Skips m.place (place { m with position := run.position, rest := run.rest }) :=
        .of_leads hleads htrivia hcs
      obtain ⟨c, rest, hrest, -⟩ := hstopped
      have hsome : run.rest ≠ [] := by simp [hrest]
      split
      · exact brace_reads hskip hsome
      · exact fail_reads hskip (passes_advance hsome Nat.one_pos)
      · exact closingTag_reads hskip hsome
      · exact openingTag_reads hskip hsome

/-- Blanks in front are taken by the step. -/
theorem stuck_or_passes_skipBlanks (hmodes : m.modes.head? = some .tag)
    (h : Unreadable m.skipBlanks.rest) : m.Stuck ∨ m.place.Passes m.skipBlanks.place := by
  cases hblanks : m.rest.takeWhile Text.isBlank with
  | nil =>
    have hsame : m.skipBlanks.rest = m.rest := by simp [skipBlanks, advance, hblanks]
    exact .inl ⟨hmodes, hsame ▸ h⟩
  | cons c blanks =>
    refine .inr (passes_advance ?_ (by simp [hblanks]))
    rintro hrest
    rw [hrest] at hblanks
    cases hblanks

theorem nextTag_reads (hmodes : m.modes.head? = some .tag) : Step.Reads m m.nextTag := by
  have hskip := skips_skipBlanks m
  have hstuck := stuck_or_passes_skipBlanks hmodes
  unfold nextTag
  dsimp only
  split
  · rename_i hrest
    exact ⟨isTrivia_of_skipBlanks hrest, hrest⟩
  · rename_i hrest
    exact emit_reads hskip (passes_advance (by simp [hrest]) Nat.two_pos)
  · rename_i hrest
    exact emit_reads hskip (passes_advance (by simp [hrest]) Nat.one_pos)
  · rename_i hrest
    exact emit_reads hskip (passes_advance (by simp [hrest]) Nat.one_pos)
  · rename_i hrest
    exact brace_reads hskip (by simp [hrest])
  · rename_i c more hslash hangle hsign hbrace hrest
    split
    · exact attributeValue_reads hskip (by simp [hrest])
    · split
      · rename_i hstart
        have hpart := Text.isTagNamePart_of_isAttributeStart hstart
        exact emit_reads hskip (passes_takeRun hrest hpart)
      · rename_i hquote hstart
        refine hstuck ⟨c, more, hrest, ?_, ?_, ?_, ?_⟩
        · exact not_isBlank_of_skipBlanks hrest
        · have hquote : c ≠ '"' ∧ c ≠ '\'' := by simpa using hquote
          simp only [List.mem_cons, List.not_mem_nil, or_false, not_or]
          exact ⟨hangle, hsign, hbrace, hquote⟩
        · simpa using hstart
        · rintro ⟨hc, hmore⟩
          obtain ⟨tail, hmore⟩ := List.head?_eq_some_iff.mp hmore
          exact hslash tail hc hmore

-- ---------------------------------------------------------------------------
-- Expressions
-- ---------------------------------------------------------------------------

theorem stringBody?_shorter {quote : Char} {cs body rest : List Char}
    (h : stringBody? quote cs = some (body, rest)) : rest.length < cs.length := by
  fun_induction stringBody? quote cs generalizing body rest with
  | case1 | case3 => cases h
  | case2 | case4 =>
    cases h
    simp
  | case5 d cs hquote ih =>
    obtain ⟨found, hfound, hmap⟩ := Option.map_eq_some_iff.mp h
    cases hmap
    exact Nat.lt_succ_of_lt (Nat.lt_succ_of_lt (ih hfound))
  | case6 c d cs hquote hslash ih =>
    obtain ⟨found, hfound, hmap⟩ := Option.map_eq_some_iff.mp h
    cases hmap
    exact Nat.lt_succ_of_lt (ih hfound)

theorem takeNumeral_shorter {cs : List Char} (h : startsNumber cs) :
    (Number.takeNumeral cs).2.length < cs.length := by
  rw [startsNumber_iff] at h
  cases hnumeral : Number.takeNumeral cs with
  | mk numeral rest =>
    obtain ⟨taken, rfl, hself⟩ := Number.takeNumeral_self hnumeral
    have htaken : taken ≠ [] := by
      rintro rfl
      cases hself
      rw [hnumeral] at h
      exact h.elim (absurd rfl) (absurd rfl)
    rw [List.length_append]
    exact Nat.lt_add_of_pos_left (List.length_pos_iff.mpr htaken)

theorem passes_upTo {rest : List Char} (h : rest.length < m.rest.length) :
    m.place.Passes (m.upTo rest).place := by
  refine passes_advance ?_ (Nat.sub_pos_of_lt h)
  rintro hrest
  simp [hrest] at h

theorem nextExpression_reads (m : Lexer) (depth : Nat) (outer : List Mode) :
    Step.Reads m (m.nextExpression depth outer) := by
  have hskip := skips_skipBlanks m
  unfold nextExpression
  dsimp only
  split
  · rename_i hrest
    exact ⟨isTrivia_of_skipBlanks hrest, hrest⟩
  · rename_i hrest
    exact emit_reads hskip (passes_advance (by simp [hrest]) Nat.one_pos)
  · rename_i hrest
    have hpass : m.skipBlanks.place.Passes (m.skipBlanks.advance 1).place :=
      passes_advance (by simp [hrest]) Nat.one_pos
    split
    · exact emit_reads hskip hpass
    · exact emit_reads hskip hpass
  · rename_i c more _ _ hrest
    have hsome : m.skipBlanks.rest ≠ [] := by simp [hrest]
    split
    · unfold string
      split
      · rename_i body rest hbody
        rw [hrest, List.drop_one, List.tail_cons] at hbody
        have hshorter := Nat.lt_succ_of_lt (stringBody?_shorter hbody)
        exact emit_reads hskip (passes_upTo (by simpa [hrest] using hshorter))
      · exact fail_reads hskip (passes_advance hsome (by simp [hrest]))
    · split
      · rename_i hstart
        exact emit_reads hskip (passes_upTo (takeNumeral_shorter hstart))
      · split
        · rename_i hstart
          exact emit_reads hskip (passes_takeRun hrest (Text.isIdentPart_of_isIdentStart hstart))
        · split
          · rename_i symbol _
            exact emit_reads hskip (passes_advance hsome (by cases symbol <;> decide))
          · exact fail_reads hskip (passes_advance hsome Nat.one_pos)

theorem config?_reads {step : Step} (h : m.config? = some step) : Step.Reads m step := by
  have hskip := skips_skipBlanks m
  unfold config? at h
  dsimp only at h
  split at h
  · cases h
  · rename_i first more hlines
    split at h
    · rename_i hfence
      have hfirst : 0 < first.length := by
        rw [List.length_pos_iff]
        rintro rfl
        cases hfence
      have hsome : m.skipBlanks.rest ≠ [] := by
        intro hrest
        rw [hrest] at hlines
        cases hlines
      split at h
      · cases h
        exact fail_reads hskip (passes_advance hsome (List.length_pos_iff.mpr hsome))
      · cases h
        exact emit_reads hskip (passes_advance hsome (by omega))
    · cases h

theorem next_reads (m : Lexer) : Step.Reads m m.next := by
  obtain ⟨cs, p, modes, pending⟩ := m
  unfold next
  dsimp only
  split
  · rename_i step hstep
    split at hstep
    · exact config?_reads (m := ⟨cs, p, modes, false⟩) hstep
    · cases hstep
  · split
    · rename_i hrest
      exact ⟨hrest ▸ isTrivia_nil, hrest⟩
    · rcases modes with _ | ⟨depth | _, outer⟩
      · exact nextText_reads ⟨cs, p, [], false⟩
      · exact nextExpression_reads ⟨cs, p, _, false⟩ depth outer
      · exact nextTag_reads (m := ⟨cs, p, .tag :: outer, false⟩) rfl

end PromptTemplate.Lexer
