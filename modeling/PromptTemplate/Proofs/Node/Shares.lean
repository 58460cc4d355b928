import PromptTemplate.Proofs.Node.Braces
import PromptTemplate.Proofs.Node.Observed

/-!
# Readers of nodes over the same tokens

Two streams have the same tokens up to a place in a text. If a document is read
off the first stream, then the reader gets over them in the second one, too,
and at the place the constructs are open that the tokens leave open.
-/

namespace PromptTemplate

open PromptTemplate.Parser

variable {F : Fork} {halt : Prop} {final stack enclosing : List Construct} {n k b b' : Nat}
  {outer : List Mode} {β : Type} {post : β → List Token → Prop}

-- ---------------------------------------------------------------------------
-- Branches
-- ---------------------------------------------------------------------------

namespace Node

/-- What comes of a branch with these words behind its opening. -/
def branchPlaced (enclosing : List Construct) (first second : Option TokenKind) :
    Except Cause Unit :=
  if first = some (.identifier "elseif") then .error .elseifSpelling
  else if first = some (.identifier "else") then
    if second = some (.identifier "if") then Construct.placeElseIf enclosing
    else Construct.placeElse enclosing
  else .error (.unexpected "else")

/-- Where both words can be seen they decide. -/
theorem checkBranch_seen {span : Span} {s : TokenStream} {first second : Option Token}
    (hfirst : peekAt 1 s = .ok (first, s)) (hsecond : peekAt 2 s = .ok (second, s)) :
    checkBranch enclosing span s =
      match branchPlaced enclosing (first.map Token.kind) (second.map Token.kind) with
      | .ok () => .ok ((), s)
      | .error cause => .error ⟨cause, span⟩ := by
  rw [checkBranch, bind_of_ok hfirst, bind_of_ok hsecond, branchPlaced]
  split
  · rfl
  · split
    · generalize (if second.map Token.kind = some (.identifier "if") then
        Construct.placeElseIf enclosing else Construct.placeElse enclosing) = placed
      rcases placed with cause | ⟨⟩ <;> rfl
    · rfl

/-- In front of a branch that is not spelled with an `else` the reader fails. -/
theorem checkBranch_fails {span : Span} {opening word : Token} {more : List Token}
    {stop : Except CompileError Position} (hword : word.kind ≠ .identifier "else") :
    ∃ e, checkBranch enclosing span ⟨opening :: word :: more, stop⟩ = .error e := by
  rw [checkBranch, bind_of_ok (show peekAt 1 _ = .ok (some word, _) from rfl), run_bind]
  cases peekAt 2 ⟨opening :: word :: more, stop⟩ with
  | error e => exact ⟨e, rfl⟩
  | ok found =>
    dsimp only
    rw [Option.map_some, if_neg (show some word.kind ≠ some (.identifier "else") by simpa using hword)]
    split <;> exact ⟨_, rfl⟩

-- ---------------------------------------------------------------------------
-- Where lists of nodes stop
-- ---------------------------------------------------------------------------

/-- In front of the place, at what closes or branches the innermost construct. -/
structure StopsBefore (final : List Construct) (n : Nat) (enclosing : List Construct)
    (ts : List Token) : Prop where
  awaits : Awaits final n [] enclosing ts
  some : ts ≠ []
  stop : Stop enclosing ts

theorem StopsBefore.mono {ts : List Token} (h : StopsBefore final k enclosing ts) (hle : k ≤ n) :
    StopsBefore final n enclosing ts :=
  { h with awaits := h.awaits.mono hle }

/-- Behind the opening of a branch and its first word. -/
def BehindElse (final : List Construct) (n : Nat) (stack : List Construct) (ts : List Token) : Prop :=
  InBraces final n [] (if ts.head?.map Token.kind = some (.identifier "if") then stack
    else Construct.markElse stack) ts

/-- In front of the first word of a branch. -/
def AtElse (final : List Construct) (n : Nat) (stack : List Construct) (ts : List Token) : Prop :=
  ∃ word more, ts = ⟨.identifier "else", word⟩ :: more ∧ BehindElse final n stack more

theorem BehindElse.plain {ts : List Token} (h : BehindElse final n stack ts)
    (hplain : ∀ token ∈ ts.head?, token.kind ≠ .identifier "if") :
    InBraces final n [] (Construct.markElse stack) ts := by
  unfold BehindElse at h
  rwa [if_neg] at h
  cases ts with
  | nil => exact nofun
  | cons token ts => simpa using hplain

theorem BehindElse.word {place : Span} {more : List Token}
    (h : BehindElse final n stack (⟨.identifier "if", place⟩ :: more)) :
    ∃ k < n, InBraces final k [] stack more := by
  unfold BehindElse at h
  rw [if_pos (by rfl)] at h
  exact h.tail nofun

theorem take_else {f g : Option Token → Parser β}
    (hf : ∀ word, Shares F halt (BehindElse final n stack) (f (some word)) (g (some word)) post) :
    Shares F halt (AtElse final n stack) (take >>= f) (take >>= g) post := by
  rintro _ ⟨word, more, rfl, hmore⟩
  exact hf _ more hmore

/-- The rest of a branch without a condition. -/
theorem closeElse_bind {f g : Span → Parser β}
    (hf : ∀ place, ∀ k < n, Shares F halt (Awaits final k [] (Construct.markElse stack)) (f place)
      (g place) post) :
    Shares F halt (BehindElse final n stack) (expectClose >>= f) (expectClose >>= g) post := by
  refine .expectClose_bind (fun _ h => InBraces.ne_nil h) fun place => ?_
  refine .below (fun more h => ?_) (hf place)
  exact (BehindElse.plain h (by rintro _ ⟨⟩; nofun)).close

/-- A branch or the closer of a block comes next. -/
theorem closer_block {inner : Construct} {expected : String} {f g : Token → Parser β}
    (hinner : inner.isBlock)
    (hbranch : ∀ place, ∀ k < n, Shares F halt (AtElse final k (inner :: enclosing))
      (f ⟨.blockBranch, place⟩) (g ⟨.blockBranch, place⟩) post)
    (hclose : ∀ name place, ∀ k < n, Shares F halt (InBraces final k [] enclosing)
      (f ⟨.blockClose name, place⟩) (g ⟨.blockClose name, place⟩) post) :
    Shares F halt (StopsBefore final n (inner :: enclosing)) (takeRequired expected >>= f)
      (takeRequired expected >>= g) post := by
  rintro ts ⟨hts, hsome, hstop⟩
  cases hstop with
  | @branch _ _ place word more =>
    have hopening : Shift [] .blockBranch [.expression 0] := .opening rfl (.inl rfl)
    have helse : Shift [.expression 0] (.identifier "else") [.expression 0] := .operand rfl
    obtain ⟨k, hk, hword⟩ := hts.tail hopening rfl
    obtain ⟨j, hj, hmore⟩ := hword.tail helse rfl
    refine hbranch place k hk _ ⟨word, more, rfl, InBraces.mono ⟨0, ?_⟩ (Nat.le_of_lt hj)⟩
    rw [List.head?_eq_getElem?, ← List.getElem?_map]
    exact hmore
  | @blockClose _ _ name place more =>
    obtain ⟨k, hk, hmore⟩ := hts.tail (.opening rfl (.inl rfl)) rfl
    exact hclose name place k hk _ ⟨0, hmore⟩
  | tagClose => cases hinner

/-- The closer of a tag comes next. -/
theorem closer_tag {name expected : String} {f g : Token → Parser β}
    (hclose : ∀ place, ∀ k < n, Shares F halt (Awaits final k [] enclosing)
      (f ⟨.tagClose name, place⟩) (g ⟨.tagClose name, place⟩) post) :
    Shares F halt (StopsBefore final n (.tag name :: enclosing)) (takeRequired expected >>= f)
      (takeRequired expected >>= g) post := by
  rintro ts ⟨hts, hsome, hstop⟩
  cases hstop with
  | branch h | blockClose h => cases h
  | @tagClose _ _ place more =>
    obtain ⟨k, hk, hmore⟩ := hts.tail .tagClose rfl
    exact hclose place k hk _ hmore

-- ---------------------------------------------------------------------------
-- Nodes
-- ---------------------------------------------------------------------------

/-- If the list of nodes halts, then the block around it fails there. -/
def FailsBehind (F : Fork) (final : List Construct) (nested : List Construct → Parser (List Node)) :
    Prop :=
  match final with
  | .ifBlock hasElse :: outer => ∀ rounds, F.second.tokens.length < rounds →
      alternates nested outer rounds hasElse F.last = .error F.error
  | .eachBlock _ :: outer => ∀ rounds earlier, F.second.tokens.length < rounds →
      fallback nested outer rounds earlier F.last = .error F.error
  | _ => False

/-- The second run may halt inside these constructs. -/
structure Halts (F : Fork) (final : List Construct) (observe : List Construct → Parser Unit)
    (enclosing : List Construct) : Prop where
  here : enclosing = final
  fails : ∀ budget, F.second.tokens.length < budget →
    FailsBehind F final (observedList observe budget)

/-- Reads the nodes in front of the place as the observed reader does. -/
def SharesBelow (F : Fork) (final : List Construct) (observe : List Construct → Parser Unit) (n : Nat)
    (nested : List Construct → Parser (List Node)) (b' : Nat) : Prop :=
  ∀ k ≤ n, ∀ enclosing, Shares F (Halts F final observe enclosing) (Awaits final k [] enclosing)
    (nested enclosing) (observedList observe b' enclosing) fun _ => StopsBefore final k enclosing

section
variable {observe : List Construct → Parser Unit} {nested : List Construct → Parser (List Node)}
  {c : Nat} (hnested : SharesBelow F final observe n nested c) (hc : F.second.tokens.length < c)
include hnested hc

theorem alternates_shares (hk : k ≤ n) (hb' : k + F.second.tokens.length < b') (hasElse : Bool) :
    Shares F False (StopsBefore final k (.ifBlock hasElse :: enclosing))
      (alternates nested enclosing b hasElse)
      (alternates (observedList observe c) enclosing b' hasElse) fun _ => Awaits final k [] enclosing := by
  induction b generalizing k b' hasElse with
  | zero => exact .failAtEnd
  | succ b ih =>
    obtain _ | b' := b'
    · contradiction
    have hbody (hasElse : Bool) (make : List Node → List Alternate × Span → List Alternate × Span)
        {j : Nat} (hj : j < k) : Shares F False (Awaits final j [] (.ifBlock hasElse :: enclosing))
          (do
            let body ← nested (.ifBlock hasElse :: enclosing)
            let found ← alternates nested enclosing b hasElse
            return make body found)
          (do
            let body ← observedList observe c (.ifBlock hasElse :: enclosing)
            let found ← alternates (observedList observe c) enclosing b' hasElse
            return make body found)
          fun _ => Awaits final k [] enclosing := by
      refine .bind_halt (hnested j (by omega) _) (fun hhalts body => ?_) fun body => ?_
      · obtain ⟨rfl, hfails⟩ := hhalts
        rw [run_bind, hfails c hc b' (by omega)]
      · exact .map (ih (by omega) (by omega) hasElse) fun _ _ h => h.mono (Nat.le_of_lt hj)
    rw [alternates, alternates]
    simp only [discard_bind]
    refine closer_block rfl (fun place j hj => ?_) fun name place j hj => ?_
    · refine take_else fun word => .takeWord_bind (fun _ h => InBraces.ne_nil h) ?_ fun place => ?_
      · refine Shares.before (?_ : Shares F False (BehindElse final j (.ifBlock hasElse :: enclosing))
          _ _ _) fun _ => And.left
        exact closeElse_bind fun _ i hi => hbody true (fun body found => _) (by omega)
      · refine .below (fun _ => BehindElse.word) fun i hi => ?_
        exact InBraces.expr_bind fun condition _ l hl =>
          hbody hasElse (fun body found => _) (by omega)
    · exact InBraces.expectClose_bind fun last i hi => .pure fun _ h => h.mono (by omega)

theorem ifBlockParser_shares (hk : k ≤ n) (hb' : k + F.second.tokens.length < b') (start : Span) :
    Shares F False (InBraces final k [] (.ifBlock false :: enclosing))
      (ifBlockParser nested enclosing b start)
      (ifBlockParser (observedList observe c) enclosing b' start)
      fun _ => Awaits final k [] enclosing := by
  rw [ifBlockParser, ifBlockParser]
  simp only [discard_bind]
  refine InBraces.expr_bind fun condition _ j hj => ?_
  refine .bind_halt (hnested j (by omega) _) (fun hhalts body => ?_) fun body => ?_
  · obtain ⟨rfl, hfails⟩ := hhalts
    rw [run_bind, hfails c hc b' (by omega)]
  · exact .map (alternates_shares hnested hc (by omega) (by omega) false) fun _ _ h =>
      h.mono (Nat.le_of_lt hj)

theorem fallback_shares (hk : k ≤ n) (hb' : k + F.second.tokens.length < b') (hasElse : Bool)
    (earlier : Option (List Node)) :
    Shares F False (StopsBefore final k (.eachBlock hasElse :: enclosing))
      (fallback nested enclosing b earlier)
      (fallback (observedList observe c) enclosing b' earlier) fun _ => Awaits final k [] enclosing := by
  induction b generalizing k b' hasElse earlier with
  | zero => exact .failAtEnd
  | succ b ih =>
    obtain _ | b' := b'
    · contradiction
    rw [fallback, fallback]
    simp only [discard_bind]
    refine closer_block rfl (fun place j hj => take_else fun word => ?_) fun name place j hj => ?_
    · refine closeElse_bind fun _ i hi => ?_
      refine .bind_halt (hnested i (by omega) _) (fun hhalts body => ?_) fun body => ?_
      · obtain ⟨rfl, hfails⟩ := hhalts
        exact hfails c hc b' (some body) (by omega)
      · exact (ih (by omega) (by omega) true (some body)).mono (fun _ => id) fun _ _ h =>
          h.mono (by omega)
    · exact InBraces.expectClose_bind fun last i hi => .pure fun _ h => h.mono (by omega)

omit hnested hc in
/-- Without the word the reader of a loop fails. -/
theorem endsExpression_as {f : Bool → Parser β} {s : TokenStream} {r : β × TokenStream}
    (hfalse : ∀ s, ∃ e, f false s = .error e) (h : (takeWord "as" >>= f) s = .ok r) :
    EndsExpression s := by
  obtain ⟨_ | ⟨⟨kind, place⟩, tokens⟩, stop⟩ := s
  · obtain ⟨e, he⟩ := hfalse ⟨[], stop⟩
    cases stop with
    | error => cases h
    | ok => exact absurd (he.symm.trans h) nofun
  · by_cases hkind : kind = .identifier "as"
    · exact ⟨_, rfl, .inr hkind⟩
    · obtain ⟨e, he⟩ := hfalse ⟨⟨kind, place⟩ :: tokens, stop⟩
      have hword : takeWord "as" ⟨⟨kind, place⟩ :: tokens, stop⟩ =
          .ok (false, ⟨⟨kind, place⟩ :: tokens, stop⟩) := by
        rw [takeWord, run_bind, takeIf_cons, if_neg hkind]
        rfl
      rw [bind_of_ok hword, he] at h
      cases h

theorem eachBlockParser_shares (hk : k ≤ n) (hb' : k + F.second.tokens.length < b') (start : Span) :
    Shares F False (InBraces final k [] (.eachBlock false :: enclosing))
      (eachBlockParser nested enclosing b start)
      (eachBlockParser (observedList observe c) enclosing b' start)
      fun _ => Awaits final k [] enclosing := by
  have hbody (make : List Node → Option (List Node) × Span → Node) {j : Nat} (hj : j ≤ k) :
      Shares F False (InBraces final j [] (.eachBlock false :: enclosing))
        (do
          let _ ← expectClose
          let body ← nested (.eachBlock false :: enclosing)
          let found ← fallback nested enclosing b none
          return make body found)
        (do
          let _ ← expectClose
          let body ← observedList observe c (.eachBlock false :: enclosing)
          let found ← fallback (observedList observe c) enclosing b' none
          return make body found)
        fun _ => Awaits final k [] enclosing := by
    refine InBraces.expectClose_bind fun _ i hi => ?_
    refine .bind_halt (hnested i (by omega) _) (fun hhalts body => ?_) fun body => ?_
    · obtain ⟨rfl, hfails⟩ := hhalts
      rw [run_bind, hfails c hc b' none (by omega)]
    · exact .map (fallback_shares hnested hc (by omega) (by omega) false none) fun _ _ h =>
        h.mono (by omega)
  rw [eachBlockParser, eachBlockParser]
  simp only [discard_bind]
  refine Expr.parser_shares (fun value s r hrun => endsExpression_as (fun s => ?_) hrun) fun iterable => ?_
  · obtain ⟨e, he⟩ := Shares.failExpecting_fails (α := PUnit) "as" s
    exact ⟨e, by simp only [Bool.not_false, if_true]; rw [run_bind, he]⟩
  · refine .takeWord_bind (fun _ => InBraces.ne_nil) ?_ fun place => ?_
    · simp only [Bool.not_false, if_true]
      exact .bind_never (Shares.failExpecting_fails _)
    · refine .below (fun _ h => h.tail (by simp)) fun j hj => ?_
      simp only [Bool.not_true, Bool.false_eq_true, if_false]
      refine .bind Pattern.parser_shares fun item => ?_
      refine InBraces.takeSymbol_bind (hbody _ (by omega)) fun _ i hi => ?_
      exact InBraces.name_bind fun found l hl => hbody _ (by omega)

theorem tagParser_shares (hk : k ≤ n) (hb' : k < b') (start : Span) (name : String) :
    Shares F False (Awaits final k [.tag] (.tag name :: enclosing))
      (tagParser nested enclosing b start name)
      (tagParser (observedList observe c) enclosing b' start name)
      fun _ => Awaits final k [] enclosing := by
  rw [tagParser, tagParser]
  refine .bind (Attribute.list_shares hb' []) fun found => ?_
  refine .bind (Attribute.checkLiteral_shares found.1 _) fun _ => ?_
  refine .ite (fun hself => .pure fun _ h => ?_) fun hself => ?_
  · rwa [if_pos hself] at h
  · rw [if_neg hself]
    refine .bind_halt (hnested k hk _) (fun hhalts body => ?_) fun body => ?_
    · obtain ⟨rfl, hfails⟩ := hhalts
      exact (hfails c hc).elim
    · exact closer_tag fun last j hj => .pure fun _ h => h.mono (Nat.le_of_lt hj)

omit hnested hc in
/-- The list of nodes stops in front of `ts`, or it fails. -/
theorem stop_shares {c : Prop} [Decidable c] {cause : Cause} {span : Span} {ts : List Token}
    (hts : Awaits final n [] enclosing ts) (hsome : ts ≠ []) (hstop : c → Stop enclosing ts) :
    Parser.Outcome F halt (fun _ => StopsBefore final n enclosing)
      ((if c then return [] else Parser.fail cause span : Parser (List Node)) (F.first.prepend ts))
      ((if c then return [] else Parser.fail cause span : Parser (List Node))
        (F.second.prepend ts)) := by
  by_cases h : c
  · rw [if_pos h]
    exact .shared ⟨hts, hsome, hstop h⟩
  · rw [if_neg h]
    exact .failed

omit hnested hc in
/-- The words of a branch stand in braces, so both runs see them and place it alike. -/
theorem branch_shares {place : Span} {more : List Token}
    (hts : Awaits final n [] enclosing (⟨.blockBranch, place⟩ :: more)) :
    Parser.Outcome F halt (fun _ => StopsBefore final n enclosing)
      ((do checkBranch enclosing place; return [] : Parser (List Node))
        (F.first.prepend (⟨.blockBranch, place⟩ :: more)))
      ((do checkBranch enclosing place; return [] : Parser (List Node))
        (F.second.prepend (⟨.blockBranch, place⟩ :: more))) := by
  have hopening : Shift [] .blockBranch [.expression 0] := .opening rfl (.inl rfl)
  have helse : Shift [.expression 0] (.identifier "else") [.expression 0] := .operand rfl
  have hwords := hts.toText.tail hopening
  obtain ⟨⟨word, wordPlace⟩, words, rfl⟩ := List.exists_cons_of_ne_nil hwords.ne_nil
  by_cases hword : word = .identifier "else"
  · subst hword
    -- the braces are not closed yet, so both runs see the second word, too
    obtain ⟨second, words, rfl⟩ := List.exists_cons_of_ne_nil (hwords.tail helse).ne_nil
    have hseen (s : TokenStream) := @checkBranch_seen enclosing place
      (s.prepend (⟨.blockBranch, place⟩ :: ⟨.identifier "else", wordPlace⟩ :: second :: words))
      _ _ rfl rfl
    rw [run_bind, run_bind, hseen, hseen]
    cases hplaced : branchPlaced enclosing (some (.identifier "else")) (some second.kind) with
    | error cause =>
      simp only [Option.map_some, hplaced]
      exact .failed
    | ok found =>
      simp only [Option.map_some, hplaced]
      obtain ⟨inner, outer, rfl, hinner⟩ :
          ∃ inner outer, enclosing = inner :: outer ∧ inner.isBlock := by
        refine Construct.isBlock_of_place ?_
        simp only [branchPlaced, Option.some.injEq, TokenKind.identifier.injEq, String.reduceEq,
          if_false, if_true] at hplaced
        split at hplaced
        · exact .inl hplaced
        · exact .inr hplaced
      exact .shared ⟨hts, List.cons_ne_nil _ _, .branch hinner⟩
  · obtain ⟨e, he⟩ := @checkBranch_fails enclosing place ⟨.blockBranch, place⟩ ⟨word, wordPlace⟩
      (words ++ F.first.tokens) F.first.stop hword
    rw [run_bind, TokenStream.prepend, List.cons_append, List.cons_append, he]
    exact .failed

/-- What starts with a token that can be seen. -/
theorem listStep_shares (hb' : n + F.second.tokens.length < b') :
    Shares F (Halts F final observe enclosing)
      (fun ts => Awaits final (n + 1) [] enclosing ts ∧ ts ≠ [])
      (listStep nested b enclosing) (listStep (observedList observe c) b' enclosing)
      fun _ => StopsBefore final (n + 1) enclosing := by
  have hrest (node : Node) {j : Nat} (hj : j ≤ n) :
      Shares F (Halts F final observe enclosing) (Awaits final j [] enclosing)
        (do let nodes ← nested enclosing; return node :: nodes)
        (do let nodes ← observedList observe c enclosing; return node :: nodes)
        fun _ => StopsBefore final (n + 1) enclosing :=
    .map (hnested j hj _) fun _ _ h => h.mono (by omega)
  rintro ts ⟨hts, hsome⟩
  obtain ⟨⟨kind, place⟩, more, rfl⟩ := List.exists_cons_of_ne_nil hsome
  have hpeek (s : TokenStream) : peek (s.prepend (⟨kind, place⟩ :: more)) =
      .ok (some ⟨kind, place⟩, s.prepend (⟨kind, place⟩ :: more)) := peek_cons
  unfold listStep
  simp only [discard_bind]
  rw [bind_of_ok (hpeek F.first), bind_of_ok (hpeek F.second)]
  cases kind <;> dsimp only
  case text value =>
    obtain ⟨k, hk, hmore⟩ := hts.tail .text rfl
    exact Shares.take_known (hrest _ (Nat.le_of_lt_succ hk) more hmore)
  case mustacheOpen =>
    obtain ⟨k, hk, hmore⟩ := hts.tail (.opening rfl (.inl rfl)) rfl
    have hread := InBraces.expr_bind (n := k) fun value last j hj =>
      hrest (.mustache (place.join last) value) (j := j) (by omega)
    exact Shares.take_known (hread more ⟨0, hmore⟩)
  case blockOpen name =>
    have hshift : Shift [] (.blockOpen name) [.expression 0] := .opening rfl (.inl rfl)
    refine Shares.take_known ?_
    by_cases hif : name = "if"
    · subst hif
      obtain ⟨k, hk, hmore⟩ := hts.tail hshift rfl
      have hread := (@ifBlockParser_shares _ _ _ _ _ b b' _ _ _ hnested hc (by omega) (by omega) place).bind
        fun node => hrest node (j := k) (by omega)
      simp only [if_true]
      exact hread more ⟨0, hmore⟩
    · by_cases heach : name = "each"
      · subst heach
        obtain ⟨k, hk, hmore⟩ := hts.tail hshift rfl
        have hread := (@eachBlockParser_shares _ _ _ _ _ b b' _ _ _ hnested hc (by omega) (by omega)
          place).bind fun node => hrest node (j := k) (by omega)
        simp only [hif, if_true, if_false]
        exact hread more ⟨0, hmore⟩
      · simp only [hif, heach, if_false]
        exact .failed
  case blockBranch => exact branch_shares hts
  case blockClose name =>
    refine stop_shares hts hsome fun hclosed => ?_
    obtain ⟨inner, outer, rfl⟩ : ∃ inner outer, enclosing = inner :: outer := by
      cases enclosing with
      | nil => cases hclosed
      | cons inner outer => exact ⟨inner, outer, rfl⟩
    exact .blockClose (inner.isBlock_of_closed hclosed)
  case tagOpen name =>
    obtain ⟨k, hk, hmore⟩ := hts.tail .tagOpen rfl
    have hread := (@tagParser_shares _ _ _ _ _ b b' _ _ _ hnested hc (by omega) (by omega) place
      name).bind fun node => hrest node (j := k) (by omega)
    exact Shares.take_known (hread more hmore)
  case tagClose name =>
    refine stop_shares hts hsome fun hclosed => ?_
    obtain ⟨outer, rfl⟩ := List.head?_eq_some_iff.1 hclosed
    exact .tagClose
  all_goals exact .failed

end

/-- The observer passes in front of the place. From there the list of nodes fails, or it halts and
what reads on fails. -/
structure Watches (F : Fork) (final : List Construct) (observe : List Construct → Parser Unit) :
    Prop where
  passes : PassesAbove F.second.tokens.length observe
  place : ∀ budget, F.second.tokens.length < budget →
    observedList observe budget final F.second = .error F.error ∨
      (∃ nodes, observedList observe budget final F.second = .ok (nodes, F.last)) ∧
        ∀ budget', F.second.tokens.length < budget' →
          FailsBehind F final (observedList observe budget')

theorem list_shares {observe : List Construct → Parser Unit} (h : Watches F final observe)
    (hb' : n + F.second.tokens.length < b') :
    Shares F (Halts F final observe enclosing) (Awaits final n [] enclosing) (list b enclosing)
      (observedList observe b' enclosing) fun _ => StopsBefore final n enclosing := by
  induction b generalizing n b' enclosing with
  | zero => exact .failAtEnd
  | succ b ih =>
    obtain _ | b' := b'
    · contradiction
    intro ts hts
    cases ts with
    | nil =>
      obtain rfl : enclosing = final := hts.unclosed
      obtain hstop | ⟨⟨nodes, hhalt⟩, hfails⟩ := h.place (b' + 1) (by omega)
      · rw [show F.second.prepend [] = F.second from rfl, hstop]
        exact .stopped
      · rw [show F.second.prepend [] = F.second from rfl, hhalt]
        exact .halted ⟨rfl, hfails⟩
    | cons token more =>
      obtain _ | n := n
      · exact absurd hts.length (Nat.not_succ_le_zero _)
      have hpass : observe enclosing (F.second.prepend (token :: more)) =
          .ok ((), F.second.prepend (token :: more)) :=
        h.passes _ _ (by simp only [TokenStream.prepend, List.length_append, List.length_cons]; omega)
      rw [list_succ, observedList, bind_of_ok hpass]
      exact listStep_shares (n := n) (fun k hk enclosing => ih (by omega)) (by omega) (by omega) _
        ⟨hts, List.cons_ne_nil _ _⟩

end Node

end PromptTemplate
