import PromptTemplate.Proofs.Document.Prefix
import PromptTemplate.Proofs.Node.Shares

/-!
# Branches and what is open in front of them

If a document can start with a text, then the reader gets over the text whatever
stands behind it, and the constructs are open there that the tokens of the text
leave open. They decide what comes of a branch (`branches_by_unclosed`).
-/

namespace PromptTemplate

open Lexer PromptTemplate.Parser

variable {F : Fork} {final : List Construct} {observe : List Construct → Parser Unit}
  {ts tokens texts : List Token} {u v source source' : String} {l l' : Lexer} {b b' n : Nat}
  {here : TokenStream} {error : CompileError}

-- ---------------------------------------------------------------------------
-- Over the tokens in front
-- ---------------------------------------------------------------------------

/-- The same tokens in front of the place of both streams, the first of which can be read. -/
theorem Node.observedList_error (h : Node.Watches F final observe) (htext : ToText [] ts)
    (hfinal : Construct.unclosed (ts.map Token.kind) [] = final)
    {r : List Node × TokenStream} (hread : Node.outermost (F.first.prepend ts) = .ok r) :
    (budget >>= fun b => observedList observe b []) (F.second.prepend ts) = .error F.error := by
  have hlength : ts.length + F.second.tokens.length < (F.second.prepend ts).tokens.length + 1 := by
    rw [TokenStream.prepend, List.length_append]
    exact Nat.lt_succ_self _
  have hshares := list_shares (b := (F.first.prepend ts).tokens.length + 1) h hlength ts
    ⟨Nat.le_refl _, htext, hfinal⟩
  change Node.list ((F.first.prepend ts).tokens.length + 1) [] (F.first.prepend ts) = .ok r at hread
  change observedList observe ((F.second.prepend ts).tokens.length + 1) [] (F.second.prepend ts) = _
  rw [hread] at hshares
  generalize observedList observe _ [] (F.second.prepend ts) = result at *
  cases hshares with
  | stopped => rfl
  | halted hhalts =>
    obtain ⟨rfl, hfails⟩ := hhalts
    exact (hfails _ (Nat.lt_succ_self _)).elim
  | shared hstops =>
    obtain ⟨-, hsome, hstop⟩ := hstops
    cases hstop with
    | finished => exact absurd rfl hsome

namespace Document

section
variable {p : Parser (List Node)} {s : TokenStream} (h : p s = .error error)
include h

theorem parserWith_error (hplain : s.Plain) : parserWith p s = .error error := by
  rw [parserWith_of_plain hplain, run_bind, h]

theorem parserWith_error_behind {body : String} {entries : Dict Json}
    (hentries : Config.entries? body = some entries) (place : Span) :
    parserWith p ⟨⟨.config body, place⟩ :: s.tokens, s.stop⟩ = .error error := by
  rw [parserWith_of_config hentries, run_bind, h]

end

/-- Two documents with the same tokens in front, of which the first one can be read. -/
theorem observed_error (h : Node.Watches F final observe)
    (hfirst : Emits (Lexer.document source') tokens l')
    (hsecond : Emits (Lexer.document source) tokens l) (hl' : F.first = l'.stream)
    (hl : F.second = l.stream) (hmodes : l.modes = []) (htokens : tokens ≠ [])
    (hfinal : Construct.unclosed (tokens.map Token.kind) [] = final) {document : Document}
    (hread : parseDocument source' = .ok document) :
    (observedParser observe).run (Lexer.document source).stream = .error F.error := by
  have hstream := hl' ▸ hfirst.stream_eq
  have hstream' := hl ▸ hsecond.stream_eq
  simp only [parseDocument, parser_eq, StateT.run, observedParser] at hread ⊢
  rw [hstream] at hread
  rw [hstream']
  obtain ⟨token, ts, rfl⟩ := List.exists_cons_of_ne_nil htokens
  obtain ⟨⟨body, place, rfl⟩, htext⟩ | ⟨hplain, htext⟩ := hsecond.opening hmodes
  · have hsection (s : TokenStream) : s.prepend (⟨.config body, place⟩ :: ts) =
        ⟨⟨.config body, place⟩ :: (s.prepend ts).tokens, (s.prepend ts).stop⟩ := rfl
    rw [hsection] at hread ⊢
    cases hentries : Config.entries? body with
    | none =>
      have hconfig := configParser_section body place (F.first.prepend ts)
      rw [hentries] at hconfig
      rw [parserWith, run_bind, hconfig] at hread
      cases hread
    | some entries =>
      refine parserWith_error_behind ?_ hentries place
      cases hlist : Node.outermost (F.first.prepend ts) with
      | error e =>
        rw [parserWith_error_behind hlist hentries] at hread
        cases hread
      | ok r => exact Node.observedList_error h htext hfinal hlist
  · refine parserWith_error ?_ (.token hplain)
    cases hlist : Node.outermost (F.first.prepend (token :: ts)) with
    | error e =>
      rw [parserWith_error hlist (.token hplain)] at hread
      cases hread
    | ok r => exact Node.observedList_error h htext hfinal hlist

/-- Some document starts with this text. -/
def IsViable (u : String) : Prop := ∃ rest document, parseDocument (u ++ rest) = .ok document

theorem plain_of_config? (hconfig : (Lexer.document source).ready.config? = none)
    (htokens : (Lexer.document source).stream.tokens ≠ []) : (Lexer.document source).stream.Plain := by
  generalize hstream : (Lexer.document source).stream = stream at htokens ⊢
  obtain ⟨tokens, stop⟩ := stream
  obtain ⟨token, tokens, rfl⟩ := List.exists_cons_of_ne_nil htokens
  obtain ⟨m, hnext, -⟩ := next_of_stream hstream
  exact .token fun body hkind =>
    Shift.not_config (hkind ▸ ((comes_document hconfig).step hnext).1)

/-- What is open in front of `v` is open for the observer. -/
theorem front_error (hviable : IsViable u) (hfront : Front u v tokens texts l)
    (hhere : (behind u v).tokens ≠ []) (last : TokenStream)
    (h : ∀ first, Node.Watches ⟨first, (behind u v).prepend texts, last, error⟩
      (Construct.unclosed (tokens.map Token.kind) []) observe) :
    (observedParser observe).run (Lexer.document (u ++ v)).stream = .error error := by
  obtain ⟨rest, document, hread⟩ := hviable
  by_cases htokens : tokens = []
  · subst htokens
    have hemits := hfront.emits
    cases hemits
    have hplain := plain_of_config? (hfront.plain rfl) (by
      rw [hfront.stream]
      exact List.append_ne_nil_of_right_ne_nil _ hhere)
    refine parserWith_error ?_ hplain
    rw [hfront.stream]
    refine ((h ⟨[], .ok .start⟩).place _ (Nat.lt_succ_self _)).resolve_right ?_
    rintro ⟨-, hfails⟩
    exact hfails _ (Nat.lt_succ_self _)
  · have hv : v.toList ≠ [] := fun hnil => hhere (by rw [behind, hnil]; rfl)
    obtain ⟨w, hl⟩ := hfront.rest
    obtain ⟨l', hemits⟩ := hfront.emits.shared hfront.modes htokens hfront.last hl hv rest
    exact observed_error (h l'.stream) hemits hfront.emits rfl hfront.stream.symm hfront.modes htokens
      rfl hread

end Document

-- ---------------------------------------------------------------------------
-- Texts and branches
-- ---------------------------------------------------------------------------

theorem PassesAbove.mono {k : Nat} (h : PassesAbove k observe) (hle : k ≤ n) :
    PassesAbove n observe :=
  fun enclosing s hs => h enclosing s (Nat.lt_of_le_of_lt hle hs)

namespace Node

/-- A text is a node in front of others. -/
theorem listStep_text (nested : List Construct → Parser (List Node)) (b : Nat)
    (enclosing : List Construct) {text : Token} (htext : text.kind.isText) (s : TokenStream) :
    ∃ node, listStep nested b enclosing (s.prepend [text]) =
      (do let nodes ← nested enclosing; return node :: nodes) s := by
  obtain ⟨kind, place⟩ := text
  cases kind with
  | text value => exact ⟨.text place value, rfl⟩
  | _ => cases htext

/-- Texts do not matter to what is read behind them. -/
theorem observedList_texts (hpass : PassesAbove here.tokens.length observe)
    (htexts : ∀ token ∈ texts, token.kind.isText) (hb : (here.prepend texts).tokens.length < b)
    (enclosing : List Construct) : ∃ c earlier, here.tokens.length < c ∧
      observedList observe b enclosing (here.prepend texts) =
        (do let nodes ← observedList observe c enclosing; return earlier ++ nodes) here := by
  induction texts generalizing b with
  | nil => exact ⟨b, [], hb, by simp only [List.nil_append, bind_pure]; rfl⟩
  | cons text texts ih =>
    obtain _ | b := b
    · contradiction
    obtain ⟨htext, htexts⟩ := List.forall_mem_cons.1 htexts
    obtain ⟨c, earlier, hc, hrest⟩ := ih htexts (Nat.lt_of_succ_lt_succ hb)
    obtain ⟨node, hnode⟩ := listStep_text (observedList observe b) (b + 1) enclosing htext
      (here.prepend texts)
    refine ⟨c, node :: earlier, hc, ?_⟩
    have hpassed : observe enclosing (here.prepend (text :: texts)) =
        .ok ((), here.prepend (text :: texts)) := by
      refine hpass _ _ ?_
      simp only [TokenStream.prepend, List.cons_append, List.length_cons, List.length_append]
      omega
    rw [observedList, bind_of_ok hpassed]
    refine hnode.trans ?_
    rw [run_bind, hrest, run_bind, run_bind]
    cases observedList observe c enclosing here <;> rfl

section
variable {nested : List Construct → Parser (List Node)} {enclosing : List Construct} {place : Span}
  {first : Token} {more : List Token} {stop : Except CompileError Position}

theorem listStep_branch :
    listStep nested b enclosing ⟨⟨.blockBranch, place⟩ :: more, stop⟩ =
      (checkBranch enclosing place >>= fun _ => pure []) ⟨⟨.blockBranch, place⟩ :: more, stop⟩ :=
  rfl

/-- The words behind the opening of a branch decide what comes of it. -/
theorem listStep_placed {second : Token} :
    listStep nested b enclosing ⟨⟨.blockBranch, place⟩ :: first :: second :: more, stop⟩ =
      match branchPlaced enclosing (some first.kind) (some second.kind) with
      | .ok () => .ok ([], ⟨⟨.blockBranch, place⟩ :: first :: second :: more, stop⟩)
      | .error cause => .error ⟨cause, place⟩ := by
  have hseen := @checkBranch_seen enclosing place
    ⟨⟨.blockBranch, place⟩ :: first :: second :: more, stop⟩ (some first) (some second) rfl rfl
  rw [listStep_branch, run_bind, hseen, Option.map_some, Option.map_some]
  generalize branchPlaced enclosing (some first.kind) (some second.kind) = placed
  rcases placed with cause | ⟨⟩ <;> rfl

end

end Node

-- ---------------------------------------------------------------------------
-- Branches
-- ---------------------------------------------------------------------------

/-- Here stands a branch with a condition, in front of `rest`. -/
def ElseIfAt (here : TokenStream) (place : Span) (rest : TokenStream) : Prop :=
  ∃ first second condition e last, Phrase 0 condition e ∧ here = rest.prepend
    (⟨.blockBranch, place⟩ :: ⟨.identifier "else", first⟩ :: ⟨.identifier "if", second⟩ ::
      (condition ++ [⟨.mustacheClose, last⟩]))

/-- Here stands a branch without one. -/
def ElseAt (here : TokenStream) (place : Span) (rest : TokenStream) : Prop :=
  ∃ first last, here = rest.prepend
    [⟨.blockBranch, place⟩, ⟨.identifier "else", first⟩, ⟨.mustacheClose, last⟩]

section
variable {place : Span} {rest : TokenStream} {enclosing : List Construct}
  {nested : List Construct → Parser (List Node)}

theorem ElseIfAt.length (h : ElseIfAt here place rest) : rest.tokens.length < here.tokens.length := by
  obtain ⟨first, second, condition, e, last, -, rfl⟩ := h
  simp only [TokenStream.prepend, List.cons_append, List.length_cons, List.length_append]
  omega

theorem ElseAt.length (h : ElseAt here place rest) : rest.tokens.length < here.tokens.length := by
  obtain ⟨first, last, rfl⟩ := h
  simp only [TokenStream.prepend, List.cons_append, List.nil_append, List.length_cons]
  omega

theorem ElseIfAt.step (h : ElseIfAt here place rest) : Node.listStep nested b enclosing here =
    match Construct.placeElseIf enclosing with
    | .ok () => .ok ([], here)
    | .error cause => .error ⟨cause, place⟩ := by
  obtain ⟨first, second, condition, e, last, -, rfl⟩ := h
  exact Node.listStep_placed

theorem ElseAt.step (h : ElseAt here place rest) : Node.listStep nested b enclosing here =
    match Construct.placeElse enclosing with
    | .ok () => .ok ([], here)
    | .error cause => .error ⟨cause, place⟩ := by
  obtain ⟨first, last, rfl⟩ := h
  exact Node.listStep_placed

end

section
variable {β : Type} {token : Token} {s : TokenStream}

theorem run_take {f : Option Token → Parser β} :
    (take >>= f) (s.prepend (token :: ts)) = f (some token) (s.prepend ts) := rfl

theorem run_takeRequired {f : Token → Parser β} {expected : String} :
    (takeRequired expected >>= f) (s.prepend (token :: ts)) = f token (s.prepend ts) := rfl

theorem run_takeWord {f : Bool → Parser β} {word : String} {place : Span} :
    (takeWord word >>= f) (s.prepend (⟨.identifier word, place⟩ :: ts)) = f true (s.prepend ts) := by
  refine bind_of_ok ?_
  rw [takeWord, run_bind, TokenStream.prepend, List.cons_append, takeIf_cons, if_pos rfl]
  rfl

theorem run_takeWord_close {f : Bool → Parser β} {word : String} {place : Span} :
    (takeWord word >>= f) (s.prepend (⟨.mustacheClose, place⟩ :: ts)) =
      f false (s.prepend (⟨.mustacheClose, place⟩ :: ts)) := rfl

theorem run_expectClose {f : Span → Parser β} {place : Span} :
    (expectClose >>= f) (s.prepend (⟨.mustacheClose, place⟩ :: ts)) = f place (s.prepend ts) := rfl

end

section
variable {place : Span} {rest : TokenStream} {outer : List Construct}
  {nested : List Construct → Parser (List Node)} {rounds : Nat} {hasElse : Bool}

/-- The reader of an `if` block reads on behind the branch. -/
theorem ElseIfAt.alternates (h : ElseIfAt here place rest)
    (hfails : nested (.ifBlock hasElse :: outer) rest = .error error) (hrounds : 0 < rounds) :
    Node.alternates nested outer rounds hasElse here = .error error := by
  obtain ⟨first, second, condition, e, last, hphrase, rfl⟩ := h
  obtain ⟨rounds, rfl⟩ := Nat.exists_eq_add_one_of_ne_zero (Nat.ne_of_gt hrounds)
  have hcondition : Expr.parser (rest.prepend (condition ++ [⟨.mustacheClose, last⟩])) =
      .ok (e, rest.prepend [⟨.mustacheClose, last⟩]) := by
    rw [TokenStream.prepend, List.append_assoc]
    exact hphrase.read _ _ (.of_none rfl)
  rw [Node.alternates]
  simp only [discard_bind]
  rw [run_takeRequired]
  simp only [if_true]
  rw [run_take, run_takeWord]
  simp only [if_true]
  rw [bind_of_ok hcondition, run_expectClose, run_bind]
  exact hfails ▸ rfl

theorem ElseAt.alternates (h : ElseAt here place rest)
    (hfails : nested (.ifBlock true :: outer) rest = .error error) (hrounds : 0 < rounds) :
    Node.alternates nested outer rounds hasElse here = .error error := by
  obtain ⟨first, last, rfl⟩ := h
  obtain ⟨rounds, rfl⟩ := Nat.exists_eq_add_one_of_ne_zero (Nat.ne_of_gt hrounds)
  rw [Node.alternates]
  simp only [discard_bind]
  rw [run_takeRequired]
  simp only [if_true]
  rw [run_take, run_takeWord_close]
  simp only [Bool.false_eq_true, if_false]
  rw [run_expectClose, run_bind]
  exact hfails ▸ rfl

theorem ElseAt.fallback (h : ElseAt here place rest) {earlier : Option (List Node)}
    (hfails : nested (.eachBlock true :: outer) rest = .error error) (hrounds : 0 < rounds) :
    Node.fallback nested outer rounds earlier here = .error error := by
  obtain ⟨first, last, rfl⟩ := h
  obtain ⟨rounds, rfl⟩ := Nat.exists_eq_add_one_of_ne_zero (Nat.ne_of_gt hrounds)
  rw [Node.fallback]
  simp only [discard_bind]
  rw [run_takeRequired]
  simp only [if_true]
  rw [run_take, run_expectClose, run_bind]
  exact hfails ▸ rfl

end

-- ---------------------------------------------------------------------------
-- What is accepted
-- ---------------------------------------------------------------------------

/-- The list of nodes halts in front of the branch, and what reads on fails behind it. -/
theorem Node.watches_behind {first rest : TokenStream}
    (hstep : ∀ nested b, listStep nested b final here = .ok ([], here))
    (hpass : PassesAbove rest.tokens.length observe) (hless : rest.tokens.length < here.tokens.length)
    (htexts : ∀ token ∈ texts, token.kind.isText)
    (hfails : ∀ budget, here.tokens.length < budget →
      FailsBehind ⟨first, here.prepend texts, here, error⟩ final (observedList observe budget)) :
    Watches ⟨first, here.prepend texts, here, error⟩ final observe := by
  have hlength : here.tokens.length ≤ (here.prepend texts).tokens.length := by
    rw [TokenStream.prepend, List.length_append]
    exact Nat.le_add_left ..
  refine ⟨hpass.mono (Nat.le_trans hless.le hlength), fun budget hbudget =>
    .inr ⟨?_, fun c hc => ?_⟩⟩
  · obtain ⟨c, earlier, hc, hread⟩ := observedList_texts (hpass.mono hless.le) htexts hbudget final
    obtain _ | c := c
    · contradiction
    have hhalt : observedList observe (c + 1) final here = .ok ([], here) := by
      rw [observedList, bind_of_ok (hpass final here hless)]
      exact hstep _ _
    exact ⟨earlier ++ [], hread.trans (bind_of_ok hhalt)⟩
  · exact hfails c (Nat.lt_of_le_of_lt hlength hc)

theorem Node.observedList_here {rest : TokenStream} {stack : List Construct}
    (hfail : observe stack rest = .error error) (hb : 0 < b) :
    observedList observe b stack rest = .error error := by
  obtain ⟨b, rfl⟩ := Nat.exists_eq_add_one_of_ne_zero (Nat.ne_of_gt hb)
  rw [observedList, run_bind, hfail]

namespace Document

section
variable {place : Span} {rest : TokenStream} {outer : List Construct} (hviable : IsViable u)
  (hfront : Front u v tokens texts l)
include hviable hfront

theorem front_reaches (hhere : (behind u v).tokens ≠ []) :
    Reaches (u ++ v) (Construct.unclosed (tokens.map Token.kind) []) (behind u v) := by
  intro observe error hpass hfail
  refine front_error hviable hfront hhere (behind u v) fun first => ⟨hpass.mono ?_, ?_⟩
  · rw [TokenStream.prepend, List.length_append]
    exact Nat.le_add_left ..
  · intro budget hbudget
    obtain ⟨c, earlier, hc, hread⟩ := Node.observedList_texts hpass hfront.inText hbudget
      (Construct.unclosed (tokens.map Token.kind) [])
    refine .inl (hread.trans ?_)
    rw [run_bind, Node.observedList_here hfail (Nat.zero_lt_of_lt hc)]

theorem elseIf_reaches (h : ElseIfAt (behind u v) place rest)
    (hopen : Construct.unclosed (tokens.map Token.kind) [] = .ifBlock false :: outer) :
    Reaches (u ++ v) (.ifBlock false :: outer) rest := by
  intro observe error hpass hfail
  have hhere : (behind u v).tokens ≠ [] := List.ne_nil_of_length_pos (Nat.zero_lt_of_lt h.length)
  refine front_error hviable hfront hhere (behind u v) fun first => ?_
  rw [hopen]
  refine Node.watches_behind (fun _ _ => h.step) hpass h.length hfront.inText fun budget hbudget => ?_
  intro rounds hrounds
  exact h.alternates (Node.observedList_here hfail (Nat.zero_lt_of_lt hbudget))
    (Nat.zero_lt_of_lt hrounds)

theorem else_reaches (h : ElseAt (behind u v) place rest) {inner : Construct}
    (hopen : Construct.unclosed (tokens.map Token.kind) [] = inner :: outer)
    (hinner : inner = .ifBlock false ∨ inner = .eachBlock false) :
    Reaches (u ++ v) (Construct.markElse (inner :: outer)) rest := by
  intro observe error hpass hfail
  have hhere : (behind u v).tokens ≠ [] := List.ne_nil_of_length_pos (Nat.zero_lt_of_lt h.length)
  refine front_error hviable hfront hhere (behind u v) fun first => ?_
  rw [hopen]
  refine Node.watches_behind (fun _ _ => ?_) hpass h.length hfront.inText fun budget hbudget => ?_
  · rcases hinner with rfl | rfl <;> exact h.step
  · rcases hinner with rfl | rfl
    · intro rounds hrounds
      exact h.alternates (Node.observedList_here hfail (Nat.zero_lt_of_lt hbudget))
        (Nat.zero_lt_of_lt hrounds)
    · intro rounds earlier hrounds
      exact h.fallback (Node.observedList_here hfail (Nat.zero_lt_of_lt hbudget))
        (Nat.zero_lt_of_lt hrounds)

end

end Document

namespace Construct

/-- A branch that does not fit is an error, which names the innermost construct if there is one
around it that takes branches. -/
structure Rejects (unclosed : List Construct) (takes : Construct → Bool) (inside : String → Cause)
    (outside : Cause) (placed : Except Cause Unit) : Prop where
  inside : unclosed.any takes → ∃ inner ∈ unclosed.head?, placed = .error (inside inner.describe)
  outside : ¬ unclosed.any takes → placed = .error outside

section
variable {unclosed outer : List Construct} {inner : Construct} {takes : Construct → Bool}
  {inside : String → Cause} {outside : Cause}

theorem Rejects.nil : Rejects [] takes inside outside (.error outside) := ⟨nofun, fun _ => rfl⟩

theorem Rejects.cons : Rejects (inner :: outer) takes inside outside
    (if (inner :: outer).any takes then .error (inside inner.describe) else .error outside) :=
  ⟨fun h => ⟨inner, rfl, if_pos h⟩, fun h => if_neg h⟩

theorem placeElseIf_rejects (h : unclosed.head? ≠ some (.ifBlock false)) :
    Rejects unclosed isIf .elseIfBeforeClosing .elseIfOutsideIf (placeElseIf unclosed) := by
  cases unclosed with
  | nil => exact .nil
  | cons inner outer =>
    rw [placeElseIf]
    · exact .cons
    · rintro rfl
      exact h rfl

theorem placeElse_rejects
    (h : ¬ (unclosed.head? = some (.ifBlock false) ∨ unclosed.head? = some (.eachBlock false))) :
    Rejects unclosed isBlock .elseBeforeClosing .elseOutsideBlock (placeElse unclosed) := by
  cases unclosed with
  | nil => exact .nil
  | cons inner outer =>
    rw [placeElse]
    · exact .cons
    · rintro rfl
      exact h (.inl rfl)
    · rintro rfl
      exact h (.inr rfl)

/-- Texts leave nothing open. -/
theorem unclosed_texts {texts : List Token} (htexts : ∀ token ∈ texts, token.kind.isText)
    (kinds : List TokenKind) (stack : List Construct) :
    Construct.unclosed (kinds ++ texts.map Token.kind) stack = Construct.unclosed kinds stack := by
  induction kinds generalizing stack with
  | nil =>
    induction texts with
    | nil => rfl
    | cons text texts ih =>
      obtain ⟨htext, htexts⟩ := List.forall_mem_cons.1 htexts
      have hinert : text.kind.isInert := by
        cases hkind : text.kind <;> rw [hkind] at htext <;> first | rfl | cases htext
      exact (unclosed_inert hinert _ stack).trans (ih htexts)
  | cons kind kinds ih =>
    -- an `if` behind the opening of a branch is not a text
    have hword : (kinds ++ texts.map Token.kind)[1]? = some (.identifier "if") ↔
        kinds[1]? = some (.identifier "if") := by
      by_cases hlength : 1 < kinds.length
      · rw [List.getElem?_append_left hlength]
      · rw [List.getElem?_append_right (Nat.not_lt.1 hlength),
          List.getElem?_eq_none (Nat.not_lt.1 hlength)]
        refine ⟨fun h => ?_, nofun⟩
        obtain ⟨text, hmem, hkind⟩ := List.mem_map.1 (List.mem_of_getElem? h)
        have htext := htexts text hmem
        rw [hkind] at htext
        cases htext
    cases kind with
    | blockBranch => simp only [List.cons_append, Construct.unclosed, hword, ih]
    | _ => exact ih _

end

end Construct

namespace Document

/-- What comes of a branch with `unclosed` in front of it and `rest` behind it. If it fits, then the
reader goes on, with `stack` open. -/
structure Decides (source : String) (unclosed : List Construct) (place : Span) (rest : TokenStream)
    (fits : Prop) (stack : List Construct) (takes : Construct → Bool) (inside : String → Cause)
    (outside : Cause) : Prop where
  accepted : ∀ other, Reaches source other rest ↔ fits ∧ other = stack
  inside : ¬ fits → unclosed.any takes → ∃ inner ∈ unclosed.head?,
    parseDocument source = .error ⟨inside inner.describe, place⟩
  outside : ¬ fits → ¬ unclosed.any takes → parseDocument source = .error ⟨outside, place⟩

theorem Decides.of_placed {unclosed stack : List Construct} {place : Span} {rest : TokenStream}
    {fits : Prop} {takes : Construct → Bool} {inside : String → Cause} {outside : Cause}
    {placed : Except Cause Unit} (hreaches : Reaches source unclosed here)
    (hstep : ∀ nested b, Node.listStep nested b unclosed here =
      match placed with
      | .ok () => .ok ([], here)
      | .error cause => .error ⟨cause, place⟩)
    (hless : rest.tokens.length < here.tokens.length) (hfits : fits → Reaches source stack rest)
    (hrejects : ¬ fits → Construct.Rejects unclosed takes inside outside placed) :
    Decides source unclosed place rest fits stack takes inside outside := by
  have hfails {cause : Cause} (hplaced : placed = .error cause) :
      Node.StepFails unclosed here ⟨cause, place⟩ := by
    intro nested b
    rw [hstep, hplaced]
  refine ⟨fun other => ⟨fun h => ?_, ?_⟩, fun hno hany => ?_, fun hno hnone => ?_⟩
  · have hyes : fits := by
      by_contra hno
      by_cases hany : unclosed.any takes
      · obtain ⟨inner, -, hplaced⟩ := (hrejects hno).inside hany
        exact hreaches.not_later (hfails hplaced) hless h
      · exact hreaches.not_later (hfails ((hrejects hno).outside hany)) hless h
    exact ⟨hyes, (hfits hyes).unique h⟩
  · rintro ⟨hyes, rfl⟩
    exact hfits hyes
  · obtain ⟨inner, hinner, hplaced⟩ := (hrejects hno).inside hany
    exact ⟨inner, hinner, hreaches.parse_error (hfails hplaced)⟩
  · exact hreaches.parse_error (hfails ((hrejects hno).outside hnone))

/-- A tag stands open inside the block. -/
theorem textAt_tag : TextAt "\x7b#if a\x7d<user>" "\x7b:else\x7d" := by
  let v := "\x7b:else\x7d".toList
  have hif : (Lexer.document ("\x7b#if a\x7d<user>" ++ "\x7b:else\x7d")).next =
      (.ok (some ⟨.blockOpen "if", ⟨0, 4, 1, 1⟩⟩),
        ⟨" a\x7d<user>".toList ++ v, ⟨4, 1, 5⟩, [.expression 0], false⟩) := by
    rw [Lexer.document, String.toList_append]
    rfl
  have hname : (⟨" a\x7d<user>".toList ++ v, ⟨4, 1, 5⟩, [.expression 0], false⟩ : Lexer).next =
      (.ok (some ⟨.identifier "a", ⟨5, 6, 1, 6⟩⟩),
        ⟨"\x7d<user>".toList ++ v, ⟨6, 1, 7⟩, [.expression 0], false⟩) := rfl
  have hclose : (⟨"\x7d<user>".toList ++ v, ⟨6, 1, 7⟩, [.expression 0], false⟩ : Lexer).next =
      (.ok (some ⟨.mustacheClose, ⟨6, 7, 1, 7⟩⟩),
        ⟨"<user>".toList ++ v, ⟨7, 1, 8⟩, [], false⟩) := rfl
  have htag : (⟨"<user>".toList ++ v, ⟨7, 1, 8⟩, [], false⟩ : Lexer).next =
      (.ok (some ⟨.tagOpen "user", ⟨7, 12, 1, 8⟩⟩),
        ⟨'>' :: v, ⟨12, 1, 13⟩, [.tag], false⟩) := rfl
  have hend : (⟨'>' :: v, ⟨12, 1, 13⟩, [.tag], false⟩ : Lexer).next =
      (.ok (some ⟨.tagEnd, ⟨12, 13, 1, 13⟩⟩), ⟨v, ⟨13, 1, 14⟩, [], false⟩) := rfl
  exact ⟨_, [], [], ⟨⟨_, .cons hif (length_of_token hif) (.cons hname (length_of_token hname)
    (.cons hclose (length_of_token hclose) (.cons htag (length_of_token htag)
      (.cons hend (length_of_token hend) .nil))))⟩, rfl, fun h => absurd h Bool.false_ne_true⟩,
    rfl, .done⟩

/-- Where the reader gets to a branch that is spelled in one word the document fails. The error is
at the branch, unless what stands behind the word is no token: that is looked at first, although it
does not matter. -/
theorem elseif_error {source : String} {enclosing : List Construct} {place word : Span}
    {more : List Token} {stop : Except CompileError Position}
    (h : Reaches source enclosing
      ⟨⟨.blockBranch, place⟩ :: ⟨.identifier "elseif", word⟩ :: more, stop⟩) :
    parseDocument source =
      match more, stop with
      | [], .error error => .error error
      | _, _ => .error ⟨.elseifSpelling, place⟩ := by
  cases more with
  | cons second more => exact h.parse_error fun _ _ => Node.listStep_placed
  | nil => cases stop <;> exact h.parse_error fun _ _ => rfl

theorem elseif_error_complete :
    parseDocument "\x7b:elseif b\x7d" = .error ⟨.elseifSpelling, ⟨0, 2, 1, 1⟩⟩ := by
  have hstream : (Lexer.document "\x7b:elseif b\x7d").stream =
      ⟨[⟨.blockBranch, ⟨0, 2, 1, 1⟩⟩, ⟨.identifier "elseif", ⟨2, 8, 1, 3⟩⟩,
        ⟨.identifier "b", ⟨9, 10, 1, 10⟩⟩, ⟨.mustacheClose, ⟨10, 11, 1, 11⟩⟩],
        .ok ⟨11, 1, 12⟩⟩ := rfl
  have hreaches : Reaches "\x7b:elseif b\x7d" [] _ := reaches_start (hstream ▸ .token nofun)
  rw [hstream] at hreaches
  exact elseif_error hreaches

/-- Behind the word stands no token, and that is the error. -/
theorem elseif_not_at_branch : ¬ ∀ source enclosing place word more stop,
    Reaches source enclosing
        ⟨⟨.blockBranch, place⟩ :: ⟨.identifier "elseif", word⟩ :: more, stop⟩ →
      parseDocument source = .error ⟨.elseifSpelling, place⟩ := by
  intro hall
  have hstream : (Lexer.document "\x7b:elseif @\x7d").stream =
      ⟨[⟨.blockBranch, ⟨0, 2, 1, 1⟩⟩, ⟨.identifier "elseif", ⟨2, 8, 1, 3⟩⟩],
        .error ⟨.unsupportedOperator "@", ⟨9, 10, 1, 10⟩⟩⟩ := rfl
  have hreaches : Reaches "\x7b:elseif @\x7d" [] _ := reaches_start (hstream ▸ .token nofun)
  rw [hstream] at hreaches
  have hspelling := hall _ _ _ _ _ _ hreaches
  rw [hreaches.parse_error fun _ _ => rfl] at hspelling
  cases hspelling

end Document

end PromptTemplate
