import PromptTemplate.Proofs.Parser.Watched

/-!
# Watched parsers follow plain ones

`Follows` says that a watched parser has an outcome, which is the one of a plain
parser, if the watch shows the stream and is `Ready`: marks of a given rank and
above may have been passed without a token taken since, and all others may be
passed. There is a rule for each operation; what comes after a token is ready
for every mark.
-/

namespace PromptTemplate

namespace Watch

/-- Fewer than `n` tokens are to come, and since each mark below `rank` a token has been taken. -/
structure Ready (n rank : Nat) (w : Watch) : Prop where
  tokens : w.tokens.length < n
  passages : ∀ p ∈ w.passages, p.Past w ∨
    rank ≤ p.mark.rank ∧ p.taken ≤ w.taken ∧ w.left ≤ p.left

/-- A token is ahead. -/
structure Facing (n rank : Nat) (w : Watch) : Prop extends Ready n rank w where
  ahead : w.tokens ≠ []

structure Ended (n rank : Nat) (w : Watch) : Prop extends Ready n rank w where
  atEnd : w.AtEnd

variable {w v : Watch} {n n' rank rank' : Nat}

theorem Ready.start {l : Lexer} (h : l.stream.tokens.length < n) : Ready n rank (start l) :=
  ⟨h, nofun⟩

theorem Ready.mono (h : Ready n rank w) (hn : n ≤ n') (hrank : rank' ≤ rank) :
    Ready n' rank' w where
  tokens := Nat.lt_of_lt_of_le h.tokens hn
  passages p hp := (h.passages p hp).imp_right fun hkept => ⟨hrank.trans hkept.1, hkept.2⟩

theorem Ready.keep (h : Ready n rank w) (hadvance : Advances false w v) : Ready n rank v where
  tokens := Nat.lt_of_le_of_lt hadvance.tokens h.tokens
  passages p hp := by
    obtain ⟨hpassages, htaken, hleft, -⟩ := hadvance
    rw [hpassages] at hp
    obtain ⟨hlt, hgt⟩ | ⟨hrank, hle, hge⟩ := h.passages p hp
    · exact .inl ⟨Nat.lt_of_lt_of_le hlt htaken, Nat.lt_of_le_of_lt hleft hgt⟩
    · exact .inr ⟨hrank, hle.trans htaken, Nat.le_trans hleft hge⟩

/-- Where a token has been taken every mark may be passed. -/
theorem Ready.fresh (h : Ready n rank w) (hadvance : Advances true w v) :
    Ready (n - 1) Mark.ranks v where
  tokens := by
    have hbefore := h.tokens
    have hafter := hadvance.tokens
    rw [Bool.toNat_true] at hafter
    omega
  passages p hp := by
    obtain ⟨hpassages, htaken, hleft, -⟩ := hadvance
    rw [hpassages] at hp
    rw [Bool.toNat_true] at htaken hleft
    have hbefore : p.taken ≤ w.taken ∧ w.left ≤ p.left :=
      (h.passages p hp).elim (fun hpast => ⟨hpast.1.le, hpast.2.le⟩) And.right
    exact .inl ⟨by omega, by omega⟩

theorem Ready.admits {mark : Mark} (h : Ready n rank w) (hmark : mark.rank < rank) :
    w.Admits mark := by
  rintro p hp rfl
  exact (h.passages p hp).resolve_right fun hkept => absurd hkept.1 (Nat.not_le_of_lt hmark)

theorem Ready.pass {mark : Mark} (h : Ready n rank w) (hmark : mark.rank < rank) :
    Ready n mark.rank { w with passages := ⟨mark, w.taken, w.left⟩ :: w.passages } where
  tokens := h.tokens
  passages p hp := by
    obtain rfl | hp := List.mem_cons.mp hp
    · exact .inr ⟨Nat.le_refl _, Nat.le_refl _, Nat.le_refl _⟩
    · exact (h.passages p hp).imp_right fun hkept => ⟨hmark.le.trans hkept.1, hkept.2⟩

end Watch

open Watch

namespace Watched

variable {α β : Type}

/-- What comes of a watched parser that starts in `w`, and of a plain one. A failure of the lexer is
the outcome. -/
inductive SameOutcome (takes : Bool) (w : Watch) :
    Option (Except CompileError α × Watch) → Except CompileError (α × TokenStream) → Prop
  | value (a) {v t} : v.Shows t → w.Advances takes v →
      SameOutcome takes w (some (.ok a, v)) (.ok (a, t))
  | error {e v} : (∀ failure ∈ v.failure, failure = e) →
      SameOutcome takes w (some (.error e, v)) (.error e)

def Follows (pre : Watch → Prop) (g : Watched α) (p : Parser α) (takes : Bool) : Prop :=
  ∀ w s, w.Shows s → pre w → SameOutcome takes w (g w) (p s)

theorem operate_of_shows {w : Watch} {s : TokenStream} (h : w.Shows s) (action : Action Watch α) :
    operate action w = some (action w) := by
  rw [operate, h.sound]
  rfl

namespace SameOutcome

variable {w v : Watch} {takes takes' : Bool}

theorem of_failure {e : CompileError} (h : v.failure = some e) :
    SameOutcome takes w (some ((.error e : Except CompileError α), v)) (.error e) := by
  refine error ?_
  rw [h]
  rintro _ ⟨⟩
  rfl

theorem weaken {found : Option (Except CompileError α × Watch)}
    {plain : Except CompileError (α × TokenStream)} (h : SameOutcome true w found plain) :
    SameOutcome takes w found plain := by
  cases h with
  | error he => exact error he
  | value a hv hadvance => exact value a hv hadvance.weaken

/-- What was taken before counts. -/
theorem after {found : Option (Except CompileError α × Watch)}
    {plain : Except CompileError (α × TokenStream)} (h : SameOutcome takes' v found plain)
    (hadvance : w.Advances takes v) : SameOutcome (takes || takes') w found plain := by
  cases h with
  | error he => exact error he
  | value a hv hadvance' => exact value a hv (hadvance.trans hadvance')

theorem bind {s : TokenStream} {g : Watched α} {p : Parser α} {f : α → Watched β}
    {f' : α → Parser β} (h : SameOutcome takes w (g w) (p s))
    (hf : ∀ a v t, v.Shows t → w.Advances takes v → SameOutcome takes' v (f a v) (f' a t)) :
    SameOutcome (takes || takes') w ((g >>= f) w) ((p >>= f') s) := by
  rw [Checked.run_bind, Parser.run_bind]
  generalize g w = found at h
  generalize p s = plain at h
  cases h with
  | error he => exact error he
  | value a hv hadvance => exact (hf a _ _ hv hadvance).after hadvance

end SameOutcome

namespace Follows

variable {pre pre' : Watch → Prop} {n n' rank rank' : Nat} {takes : Bool}
  {g : Watched α} {p : Parser α} {f : α → Watched β} {f' : α → Parser β}

theorem before (h : Follows pre' g p takes) (himp : ∀ w, pre w → pre' w) : Follows pre g p takes :=
  fun w s hs hw => h w s hs (himp w hw)

theorem mono (h : Follows (Ready n' rank') g p takes) (hn : n ≤ n') (hrank : rank' ≤ rank) :
    Follows (Ready n rank) g p takes :=
  h.before fun _ hw => hw.mono hn hrank

/-- There is always a token less than that. -/
theorem exhausted (hn : n ≤ 0) : Follows (Ready n rank) g p takes :=
  fun _ _ _ hw => absurd (Nat.lt_of_lt_of_le hw.tokens hn) (Nat.not_lt_zero _)

theorem weaken (h : Follows pre g p true) : Follows pre g p takes :=
  fun w s hs hw => (h w s hs hw).weaken

theorem pure (a : α) : Follows pre (Pure.pure a) (Pure.pure a) false :=
  fun w _ hs _ => .value a hs (.refl w)

/-- What may have taken nothing. -/
theorem look (h : Follows (Ready n rank) g p false)
    (hf : ∀ a, Follows (Ready n rank) (f a) (f' a) takes) :
    Follows (Ready n rank) (g >>= f) (p >>= f') takes := by
  intro w s hs hw
  rw [← Bool.false_or takes]
  exact (h w s hs hw).bind fun a v t ht hadvance => hf a v t ht (hw.keep hadvance)

/-- What takes a token. -/
theorem step (h : Follows (Ready n rank) g p true)
    (hf : ∀ a, Follows (Ready (n - 1) Mark.ranks) (f a) (f' a) false) :
    Follows (Ready n rank) (g >>= f) (p >>= f') takes := by
  refine weaken fun w s hs hw => ?_
  rw [← Bool.true_or false]
  exact (h w s hs hw).bind fun a v t ht hadvance => hf a v t ht (hw.fresh hadvance)

theorem ite {c : Prop} [Decidable c] {g' : Watched α} {p' : Parser α}
    (hthen : c → Follows pre g p takes) (helse : ¬ c → Follows pre g' p' takes) :
    Follows pre (if c then g else g') (if c then p else p') takes := by
  by_cases h : c
  · rw [if_pos h, if_pos h]
    exact hthen h
  · rw [if_neg h, if_neg h]
    exact helse h

/-- A mark is passed where only marks of higher rank may have been passed since the last token. -/
theorem within {mark : Mark} (hmark : mark.rank < rank)
    (h : Follows (Ready n mark.rank) g p takes) :
    Follows (Ready n rank) (Watched.within mark g) p takes := by
  intro w s hs hw
  have hcheck : w.failure.isNone ∧ w.Admits mark := ⟨by rw [hs.sound]; rfl, hw.admits hmark⟩
  rw [Watched.within, if_pos hcheck]
  have hsame := h { w with passages := ⟨mark, w.taken, w.left⟩ :: w.passages } s
    ⟨hs.sound, hs.tokens, hs.stop⟩ (hw.pass hmark)
  generalize g _ = found at hsame
  generalize p s = plain at hsame
  cases hsame with
  | error he => exact .error he
  | value a hv hadvance =>
    refine .value a ⟨hv.sound, hv.tokens, hv.stop⟩ ?_
    exact ⟨rfl, hadvance.taken, hadvance.left, hadvance.tokens⟩

end Follows

-- ---------------------------------------------------------------------------
-- Failures
-- ---------------------------------------------------------------------------

/-- Both parsers fail, with the same error. -/
def Fails (pre : Watch → Prop) (g : Watched α) (p : Parser α) : Prop := ∀ w s, w.Shows s → pre w →
  ∃ e v, g w = some (.error e, v) ∧ (∀ failure ∈ v.failure, failure = e) ∧ p s = .error e

namespace Fails

variable {pre : Watch → Prop} {cause : Cause} {takes : Bool} {g : Watched α} {p : Parser α}

theorem follows (h : Fails pre g p) : Follows pre g p takes := by
  intro w s hs hw
  obtain ⟨e, v, hrun, he, hplain⟩ := h w s hs hw
  rw [hrun, hplain]
  exact .error he

/-- Nothing comes after a failure. -/
theorem bind (h : Fails pre g p) {f : α → Watched β} {f' : α → Parser β} :
    Fails pre (g >>= f) (p >>= f') := by
  intro w s hs hw
  obtain ⟨e, v, hrun, he, hplain⟩ := h w s hs hw
  refine ⟨e, v, ?_, he, ?_⟩
  · rw [Checked.run_bind, hrun]
    rfl
  · rw [Parser.run_bind, hplain]

theorem fail {span : Span} :
    Fails pre (Watched.fail cause span : Watched α) (Parser.fail cause span) := by
  intro w s hs _
  exact ⟨_, w, operate_of_shows hs _, by rw [hs.sound]; nofun, rfl⟩

theorem failAtEnd {n rank : Nat} :
    Fails (Ended n rank) (Watched.failAtEnd cause : Watched α) (Parser.failAtEnd cause) := by
  intro w s hs hend
  refine ⟨_, w, operate_of_shows hs _, by rw [hs.sound]; nofun, ?_⟩
  rw [Parser.failAtEnd, hs.stop_of_atEnd hend.atEnd]

end Fails

-- ---------------------------------------------------------------------------
-- Tokens
-- ---------------------------------------------------------------------------

section
variable {n rank : Nat} {takes : Bool} {g : Watched α} {p : Parser α}

namespace Follows

theorem peekAt {ahead : Nat} :
    Follows (Ready n rank) (Watched.peekAt ahead) (Parser.peekAt ahead) false := by
  intro w s hs _
  rw [Watched.peekAt, operate_of_shows hs]
  obtain ⟨v, hrun, hv, hadvance, hplain, -⟩ | ⟨e, v, hrun, hfailure, hplain⟩ :=
    peekAt_cases ahead hs
  · rw [hrun, hplain]
    exact .value _ hv hadvance
  · rw [hrun, hplain]
    exact .of_failure hfailure

section
variable {f : Option Token → Watched β} {f' : Option Token → Parser β}

theorem peek_bind (hnone : Follows (Ended n rank) (f none) (f' none) takes)
    (hsome : ∀ token, Follows (Facing n rank) (f (some token)) (f' (some token)) takes) :
    Follows (Ready n rank) (Watched.peek >>= f) (Parser.peek >>= f') takes := by
  intro w s hs hw
  rw [Checked.run_bind, Parser.run_bind, Watched.peek, Watched.peekAt, operate_of_shows hs,
    Parser.peek]
  obtain ⟨v, hrun, hv, hadvance, hplain, hend⟩ | ⟨e, v, hrun, hfailure, hplain⟩ := peekAt_cases 0 hs
  · rw [hrun, hplain, ← Bool.false_or takes]
    have hready := hw.keep hadvance
    cases hfound : s.tokens[0]? with
    | none => exact (hnone v s hv ⟨hready, hend hfound⟩).after hadvance
    | some token =>
      have hahead : v.tokens ≠ [] := by
        rw [← hv.tokens]
        rintro hnil
        simp [hnil] at hfound
      exact (hsome token v s hv ⟨hready, hahead⟩).after hadvance
  · rw [hrun, hplain]
    exact .of_failure hfailure

/-- Where there is no token to take, there was none ahead. -/
theorem take_bind_of {pre : Watch → Prop} (hpre : ∀ w, pre w → Ready n rank w)
    (hnone : ∀ w, pre w → w.tokens = [] → Follows (Ended n rank) (f none) (f' none) takes)
    (hsome : ∀ token, Follows (Ready (n - 1) Mark.ranks) (f (some token)) (f' (some token)) false) :
    Follows pre (Watched.take >>= f) (Parser.take >>= f') takes := by
  intro w s hs hw
  have hready := hpre w hw
  rw [Checked.run_bind, Parser.run_bind, Watched.take, operate_of_shows hs]
  obtain ⟨token, t, v, hrun, hv, hadvance, hplain⟩ | ⟨v, hrun, hv, hadvance, hend, hnil, hplain⟩ |
    ⟨e, v, hrun, hfailure, hplain⟩ := take_cases hs
  · rw [hrun, hplain]
    exact ((hsome token v t hv (hready.fresh hadvance)).after hadvance).weaken
  · rw [hrun, hplain, ← Bool.false_or takes]
    rw [hs.tokens] at hnil
    exact (hnone w hw hnil v s hv ⟨hready.keep hadvance, hend⟩).after hadvance
  · rw [hrun, hplain]
    exact .of_failure hfailure

theorem take_bind (hnone : Follows (Ended n rank) (f none) (f' none) takes)
    (hsome : ∀ token, Follows (Ready (n - 1) Mark.ranks) (f (some token)) (f' (some token)) false) :
    Follows (Ready n rank) (Watched.take >>= f) (Parser.take >>= f') takes :=
  take_bind_of (fun _ => id) (fun _ _ _ => hnone) hsome

/-- The token that was looked at is taken. -/
theorem take_facing
    (hsome : ∀ token, Follows (Ready (n - 1) Mark.ranks) (f (some token)) (f' (some token)) false) :
    Follows (Facing n rank) (Watched.take >>= f) (Parser.take >>= f') takes :=
  take_bind_of (fun _ => Facing.toReady) (fun _ hw hnil => absurd hnil hw.ahead) hsome

theorem takeIf_bind {kind : TokenKind} (hnone : Follows (Ready n rank) (f none) (f' none) takes)
    (hsome : ∀ token, Follows (Ready (n - 1) Mark.ranks) (f (some token)) (f' (some token)) false) :
    Follows (Ready n rank) (Watched.takeIf kind >>= f) (Parser.takeIf kind >>= f') takes := by
  rw [Watched.takeIf, Parser.takeIf]
  simp only [bind_assoc]
  refine peek_bind ?_ fun token => ?_
  · simp only [pure_bind]
    exact hnone.before fun _ => Ended.toReady
  · by_cases h : token.kind = kind
    · simp only [h, if_true]
      exact take_facing hsome
    · simp only [h, if_false, pure_bind]
      exact hnone.before fun _ => Facing.toReady

theorem takeSymbol_bind {symbol : Symbol}
    (hnone : Follows (Ready n rank) (f none) (f' none) takes)
    (hsome : ∀ token, Follows (Ready (n - 1) Mark.ranks) (f (some token)) (f' (some token)) false) :
    Follows (Ready n rank) (Watched.takeSymbol symbol >>= f) (Parser.takeSymbol symbol >>= f')
      takes :=
  takeIf_bind hnone hsome

end

theorem peekKind_bind {f : Option TokenKind → Watched β} {f' : Option TokenKind → Parser β}
    (hnone : Follows (Ready n rank) (f none) (f' none) takes)
    (hsome : ∀ kind, Follows (Facing n rank) (f (some kind)) (f' (some kind)) takes) :
    Follows (Ready n rank) (Watched.peekKind >>= f) (Parser.peekKind >>= f') takes := by
  rw [Watched.peekKind, Parser.peekKind]
  simp only [bind_assoc, pure_bind]
  exact peek_bind (hnone.before fun _ => Ended.toReady) fun token => hsome token.kind

theorem peekKind : Follows (Ready n rank) Watched.peekKind Parser.peekKind false :=
  look peekAt fun found => pure (found.map Token.kind)

theorem take : Follows (Ready n rank) Watched.take Parser.take false := by
  rw [← bind_pure Watched.take, ← bind_pure Parser.take]
  exact take_bind (pure none) fun token => pure (some token)

theorem takeIf {kind : TokenKind} :
    Follows (Ready n rank) (Watched.takeIf kind) (Parser.takeIf kind) false := by
  rw [← bind_pure (Watched.takeIf kind), ← bind_pure (Parser.takeIf kind)]
  exact takeIf_bind (pure none) fun token => pure (some token)

theorem takeSymbol {symbol : Symbol} :
    Follows (Ready n rank) (Watched.takeSymbol symbol) (Parser.takeSymbol symbol) false :=
  takeIf

theorem takeWord {word : String} :
    Follows (Ready n rank) (Watched.takeWord word) (Parser.takeWord word) false :=
  look takeIf fun found => pure found.isSome

theorem failExpecting {expected : String} :
    Follows (Ready n rank) (Watched.failExpecting expected : Watched α)
      (Parser.failExpecting expected) takes :=
  peek_bind Fails.failAtEnd.follows fun _ => Fails.fail.follows

theorem failExpecting_bind {expected : String} {f : α → Watched β} {f' : α → Parser β} :
    Follows (Ready n rank) (Watched.failExpecting expected >>= f)
      (Parser.failExpecting expected >>= f') takes := by
  rw [Watched.failExpecting, Parser.failExpecting, bind_assoc, bind_assoc]
  exact peek_bind Fails.failAtEnd.bind.follows fun _ => Fails.fail.bind.follows

theorem takeRequired {expected : String} :
    Follows (Ready n rank) (Watched.takeRequired expected) (Parser.takeRequired expected) true :=
  take_bind Fails.failAtEnd.follows fun token => pure token

theorem expectSymbol {symbol : Symbol} :
    Follows (Ready n rank) (Watched.expectSymbol symbol) (Parser.expectSymbol symbol) true :=
  takeSymbol_bind failExpecting fun token => pure token

theorem expectClose : Follows (Ready n rank) Watched.expectClose Parser.expectClose true :=
  step takeRequired fun token => ite (fun _ => pure token.span) fun _ => Fails.fail.follows

theorem name (hrank : 0 < rank) : Follows (Ready n rank) Watched.name Parser.name true := by
  refine within hrank (take_bind Fails.failAtEnd.follows ?_)
  rintro ⟨kind, span⟩
  cases kind with
  | identifier name => exact pure (name, span)
  | _ => exact Fails.fail.follows

/-- The number of turns is enough: it is that of the tokens to come, and one more. -/
theorem budget_bind {f : Nat → Watched β} {f' : Nat → Parser β}
    (hf : ∀ budget, Follows (Ready budget rank) (f budget) (f' budget) takes) :
    Follows (Ready n rank) (Watched.budget >>= f) (Parser.budget >>= f') takes := by
  intro w s hs hw
  have hbudget : Parser.budget s = .ok (w.tokens.length + 1, s) := by
    rw [← hs.tokens]
    rfl
  rw [Checked.run_bind, Parser.run_bind, hbudget]
  exact hf _ w s hs ⟨Nat.lt_succ_self _, hw.passages⟩

/-- From the start of a text, where no mark has been passed. -/
theorem run {l : Lexer} (h : ∀ n, Follows (Ready n Mark.ranks) g p takes) :
    ∃ w, g (start l) = some (Prod.fst <$> p.run l.stream, w) ∧
      ∀ e, w.failure = some e → Prod.fst <$> p.run l.stream = .error e := by
  have hsame := h _ (start l) l.stream (.start l) (.start (Nat.lt_succ_self _))
  rw [StateT.run]
  generalize g (start l) = found at hsame
  generalize p l.stream = plain at hsame
  cases hsame with
  | value a hw _ =>
    refine ⟨_, rfl, fun e he => ?_⟩
    rw [hw.sound] at he
    cases he
  | error he => exact ⟨_, rfl, fun e hw => congrArg Except.error (he e hw).symm⟩

end Follows

end

end Watched

end PromptTemplate
