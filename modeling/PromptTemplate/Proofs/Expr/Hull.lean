import PromptTemplate.Proofs.Expr.Nests
import PromptTemplate.Proofs.Expr.Parts
import PromptTemplate.Proofs.Token.Cover

/-!
# The tokens that a span covers

The span of an expression goes from one token of its phrase to another, and
leaves out nothing but parentheses in front and behind (`Phrase.hull`). What it
covers is a phrase of the expression if its own parentheses are closed
(`Phrase.of_core`).
-/

namespace PromptTemplate

def Token.Opens (token : Token) : Prop := token.kind = .symbol .parenOpen

def Token.Closes (token : Token) : Prop := token.kind = .symbol .parenClose

/-- Later tokens end later. -/
abbrev Rise (ts : List Token) : Prop :=
  ts.Pairwise fun token later => token.span.stop ≤ later.span.stop

/-- The span goes from the first one of these tokens to the last one. -/
def Span.IsOver (span : Span) (core : List Token) : Prop :=
  ∃ first last, core.head? = some first ∧ core.getLast? = some last ∧
    span = { first.span with stop := last.span.stop }

/-- The span goes over the tokens but for parentheses in front and behind. -/
def Hull (ts : List Token) (span : Span) : Prop :=
  ∃ opens core closes, ts = opens ++ core ++ closes ∧ (∀ token ∈ opens, token.Opens) ∧
    (∀ token ∈ closes, token.Closes) ∧ span.IsOver core

/-- The span ends with the tokens but for parentheses behind. -/
def EndsWith (ts : List Token) (span : Span) : Prop :=
  ∃ before last closes, ts = before ++ last :: closes ∧ (∀ token ∈ closes, token.Closes) ∧
    span.stop = last.span.stop

variable {ts more : List Token} {span last : Span} {token : Token}

namespace EndsWith

theorem single (h : span.stop = token.span.stop) : EndsWith [token] span := ⟨[], token, [], rfl, nofun, h⟩

theorem behind (h : EndsWith more span) : EndsWith (ts ++ more) span := by
  obtain ⟨before, token, closes, rfl, hcloses, hstop⟩ := h
  exact ⟨ts ++ before, token, closes, (List.append_assoc ..).symm, hcloses, hstop⟩

theorem cons (h : EndsWith more span) : EndsWith (token :: more) span :=
  show EndsWith ([token] ++ more) span from h.behind

end EndsWith

namespace Hull

theorem single : Hull [token] token.span := ⟨[], [token], [], rfl, nofun, nofun, token, token, rfl, rfl, rfl⟩

theorem endsWith (h : Hull ts span) : EndsWith ts span := by
  obtain ⟨opens, core, closes, rfl, -, hcloses, first, token, -, hlast, rfl⟩ := h
  obtain ⟨before, rfl⟩ := List.getLast?_eq_some_iff.1 hlast
  exact ⟨opens ++ before, token, closes, by simp, hcloses, rfl⟩

theorem parens {opened closed : Span} (h : Hull ts span) :
    Hull (⟨.symbol .parenOpen, opened⟩ :: ts ++ [⟨.symbol .parenClose, closed⟩]) span := by
  obtain ⟨opens, core, closes, rfl, hopens, hcloses, hover⟩ := h
  refine ⟨⟨.symbol .parenOpen, opened⟩ :: opens, core, closes ++ [⟨.symbol .parenClose, closed⟩],
    by simp, List.forall_mem_cons.2 ⟨rfl, hopens⟩, ?_, hover⟩
  exact List.forall_mem_append.2 ⟨hcloses, List.forall_mem_singleton.2 rfl⟩

/-- From the start of one to the end of another behind it. -/
theorem join (h : Hull ts span) (hmore : EndsWith more last) (hrise : Rise (ts ++ more)) :
    Hull (ts ++ more) (span.join last) := by
  obtain ⟨opens, core, closes, rfl, hopens, -, first, token, hfirst, hlast, rfl⟩ := h
  obtain ⟨before, final, closes', rfl, hcloses', hstop⟩ := hmore
  obtain ⟨rest, rfl⟩ := List.head?_eq_some_iff.1 hfirst
  have hle : token.span.stop ≤ last.stop := by
    rw [hstop]
    have hmem : token ∈ first :: rest := List.mem_of_getLast? hlast
    exact (List.pairwise_append.1 hrise).2.2 token
      (List.mem_append_left _ (List.mem_append_right _ hmem)) final (by simp)
  refine ⟨opens, first :: rest ++ closes ++ before ++ [final], closes', by simp, hopens, hcloses',
    first, final, rfl, List.getLast?_concat .., ?_⟩
  rw [Span.join, max_eq_left hle, hstop]

end Hull

theorem Expr.ofWord_span (place : Span) (name : String) : (ofWord place name).span = place := by
  unfold ofWord
  (repeat' split) <;> rfl

-- ---------------------------------------------------------------------------
-- Phrases
-- ---------------------------------------------------------------------------

namespace Phrase

theorem Elements.endsWith {close : Symbol} {ts : List Token} {elements : List Element} {last : Span} :
    Elements close ts elements last → EndsWith ts last
  | .nil => .single rfl
  | .last _ => .behind (.single rfl)
  | .cons _ hmore => hmore.endsWith.cons.behind

theorem Entries.endsWith {ts : List Token} {entries : List Entry} {last : Span} :
    Entries ts entries last → EndsWith ts last
  | .nil => .single rfl
  | .last _ => .behind (.single rfl)
  | .cons _ hmore => hmore.endsWith.cons.behind

theorem Key.endsWith {optional : Bool} {property : Property} (h : Key optional ts property last) :
    EndsWith ts last := by
  cases h with
  | named | optionalNamed => exact .cons (.single rfl)
  | computed => exact .behind (.single rfl)
  | optionalComputed => exact .behind (.single rfl)

theorem hull : {level : Nat} → {ts : List Token} → {e : Expr} → Phrase level ts e → Rise ts →
    Hull ts e.span
  | _, _, _, .loosen h, hrise => h.hull hrise
  | _, _, _, .number, _ | _, _, _, .string, _ => .single
  | _, _, _, .word _, _ => by
    rw [Expr.ofWord_span]
    exact .single
  | _, _, _, .parens h, hrise => (h.hull (hrise.of_cons.sublist (List.sublist_append_left ..))).parens
  | _, _, _, .array h, hrise => .join .single h.endsWith hrise
  | _, _, _, .object h, hrise => .join .single h.endsWith hrise
  | _, _, _, .member h hkey, hrise =>
    (h.hull (hrise.sublist (List.sublist_append_left ..))).join hkey.endsWith hrise
  | _, _, _, .call h harguments, hrise =>
    (h.hull (hrise.sublist (List.sublist_append_left ..))).join harguments.endsWith.cons hrise
  | _, _, _, .updated h _, hrise =>
    (h.hull (hrise.sublist (List.sublist_append_left ..))).join (.single rfl) hrise
  | _, _, _, .update _ h, hrise | _, _, _, .unary _ h, hrise =>
    .join .single (h.hull hrise.of_cons).endsWith hrise
  | _, _, _, .power h hmore, hrise | _, _, _, .binary _ _ h hmore, hrise
  | _, _, _, .assignment h _ hmore, hrise =>
    have hright := hmore.hull (hrise.sublist (List.sublist_append_right ..)).of_cons
    (h.hull (hrise.sublist (List.sublist_append_left ..))).join hright.endsWith.cons hrise
  | _, _, _, .conditional h _ hno, hrise =>
    have hbehind := (hrise.sublist (List.sublist_append_right ..)).of_cons
    have hright := hno.hull (hbehind.sublist (List.sublist_append_right ..)).of_cons
    (h.hull (hrise.sublist (List.sublist_append_left ..))).join hright.endsWith.cons.behind.cons hrise

-- ---------------------------------------------------------------------------
-- Without the parentheses around
-- ---------------------------------------------------------------------------

theorem ne_nil {level : Nat} {e : Expr} (h : Phrase level ts e) : ts ≠ [] := by
  obtain ⟨token, rest, rfl, -⟩ := h.first
  simp

theorem Key.ne_nil {optional : Bool} {property : Property} (h : Key optional ts property last) :
    ts ≠ [] := by
  cases h <;> simp

/-- The parentheses around are not closed before the end. -/
theorem not_split {front back mid : List Token} {opened closed : Span} {depth : Nat}
    (hfront : Nests front) (hne : front ≠ []) (hback : back ≠ [])
    (hmid : Bracket.paren.depth? 0 mid = some depth)
    (h : front ++ back = ⟨.symbol .parenOpen, opened⟩ :: mid ++ [⟨.symbol .parenClose, closed⟩]) :
    False := by
  obtain ⟨token, front, rfl⟩ := List.exists_cons_of_ne_nil hne
  obtain ⟨rfl, htail⟩ := List.cons.inj h
  obtain ⟨back, final, rfl⟩ : ∃ init final, back = init ++ [final] :=
    ⟨_, _, (List.dropLast_concat_getLast hback).symm⟩
  have hsplit : front ++ back ++ [final] = mid ++ [⟨.symbol .parenClose, closed⟩] :=
    (List.append_assoc ..).trans htail
  obtain ⟨rfl, -⟩ := List.append_inj' hsplit rfl
  rw [Bracket.depth?_append] at hmid
  obtain ⟨k, hk, -⟩ := Option.bind_eq_some_iff.1 hmid
  have hopen := Bracket.depth?_add hk 1
  have hclosed := hfront.depth .paren 0
  rw [Bracket.depth?_opening rfl, Nat.add_comm, hopen] at hclosed
  cases hclosed

/-- In parentheses that belong together there is the expression itself. -/
theorem inside_parens {opened closed : Span} {mid : List Token} {depth : Nat}
    (hmid : Bracket.paren.depth? 0 mid = some depth) : {level : Nat} → {ts : List Token} → {e : Expr} →
    Phrase level ts e → ts = ⟨.symbol .parenOpen, opened⟩ :: mid ++ [⟨.symbol .parenClose, closed⟩] →
    Phrase 0 mid e
  | _, _, _, .loosen h, hts => inside_parens hmid h hts
  | _, _, _, .parens h, hts => by
    obtain ⟨rfl, -⟩ := List.append_inj' (List.cons.inj hts).2 rfl
    exact h
  | _, _, _, .member h hkey, hts => (not_split h.nests h.ne_nil hkey.ne_nil hmid hts).elim
  | _, _, _, .call h _, hts | _, _, _, .updated h _, hts | _, _, _, .power h _, hts
  | _, _, _, .binary _ _ h _, hts | _, _, _, .conditional h _ _, hts
  | _, _, _, .assignment h _ _, hts =>
    (not_split h.nests h.ne_nil (by simp) hmid hts).elim
  | _, _, _, .update hop _, hts => by
    rw [(List.cons.inj hts).1] at hop
    cases hop
  | _, _, _, .unary hop _, hts => by
    rw [(List.cons.inj hts).1] at hop
    cases hop

end Phrase

namespace Bracket

variable {opens closes : List Token} {depth : Nat}

theorem depth?_opens (h : ∀ token ∈ opens, token.Opens) :
    paren.depth? depth opens = some (depth + opens.length) := by
  induction opens generalizing depth with
  | nil => rfl
  | cons token opens ih =>
    obtain ⟨htoken, h⟩ := List.forall_mem_cons.1 h
    rw [depth?_opening (b := paren) htoken, ih h, List.length_cons, Nat.add_right_comm, Nat.add_assoc]

theorem depth?_closes (h : ∀ token ∈ closes, token.Closes) {depth' : Nat} :
    paren.depth? depth closes = some depth' ↔ depth = depth' + closes.length := by
  induction closes generalizing depth with
  | nil => exact Option.some_inj
  | cons token closes ih =>
    obtain ⟨htoken, h⟩ := List.forall_mem_cons.1 h
    cases depth with
    | zero => simp [depth?, htoken.trans rfl, closing, opening]
    | succ depth =>
      rw [depth?_closing (b := paren) htoken, ih h, List.length_cons]
      omega

end Bracket

/-- Without the parentheses around them the tokens are the same expression, if they close their own. -/
theorem Phrase.of_core {opens core closes : List Token} {e : Expr} {level : Nat}
    (h : Phrase level (opens ++ core ++ closes) e) (hopens : ∀ token ∈ opens, token.Opens)
    (hcloses : ∀ token ∈ closes, token.Closes) (hcore : Bracket.paren.depth? 0 core = some 0) :
    Phrase 0 core e := by
  have hcore' (depth : Nat) : Bracket.paren.depth? depth core = some depth := by
    simpa using Bracket.depth?_add hcore depth
  have hlength : opens.length = closes.length := by
    have hnests := h.nests.depth .paren 0
    rw [Bracket.depth?_append, Bracket.depth?_append, Bracket.depth?_opens hopens, Option.bind_some,
      hcore', Option.bind_some, Bracket.depth?_closes hcloses] at hnests
    omega
  induction opens generalizing closes level with
  | nil =>
    obtain rfl : closes = [] := List.length_eq_zero_iff.1 hlength.symm
    rw [List.nil_append, List.append_nil] at h
    exact h.at_looser (Nat.zero_le _)
  | cons opened opens ih =>
    obtain ⟨closes, closed, rfl⟩ : ∃ init final, closes = init ++ [final] :=
      ⟨_, _, (List.dropLast_concat_getLast (by rintro rfl; cases hlength)).symm⟩
    obtain ⟨_, opened⟩ := opened
    obtain ⟨_, closed⟩ := closed
    rw [List.forall_mem_cons] at hopens
    rw [List.forall_mem_append, List.forall_mem_singleton] at hcloses
    obtain ⟨rfl, hopens⟩ := hopens
    obtain ⟨hcloses, rfl⟩ := hcloses
    have hlength : opens.length = closes.length := by simpa using hlength
    have hmid : Bracket.paren.depth? 0 (opens ++ core ++ closes) = some 0 := by
      rw [Bracket.depth?_append, Bracket.depth?_append, Bracket.depth?_opens hopens,
        Option.bind_some, hcore', Option.bind_some, Bracket.depth?_closes hcloses]
      omega
    have hsplit : ⟨.symbol .parenOpen, opened⟩ :: opens ++ core ++ (closes ++
        [⟨.symbol .parenClose, closed⟩]) = ⟨.symbol .parenOpen, opened⟩ :: (opens ++ core ++ closes) ++
          [⟨.symbol .parenClose, closed⟩] := by
      simp
    exact ih (inside_parens hmid h hsplit) hopens hcloses hlength

end PromptTemplate
