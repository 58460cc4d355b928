import PromptTemplate.Host.Standard
import PromptTemplate.Proofs.Conversation.Texts
import PromptTemplate.Proofs.Document.Stream
import PromptTemplate.Proofs.Node.InStep
import PromptTemplate.Proofs.Token.Comment
import PromptTemplate.Proofs.Token.Section
import PromptTemplate.Proofs.Walk.Paired

/-!
# Comments do nothing

A comment between two pieces of a document, at a place where the lexer is in
text, changes no token, so the document comes to the same messages
(`compile_comment`). Only the last line of an opening section has to have ended
in front of it.
-/

namespace PromptTemplate

namespace Lexer

variable {u v c : String}

/-- Between `u` and `v` the lexer is in text: neither in a comment nor in front of an opening
section or inside of one. -/
def TextAt (u v : String) : Prop :=
  ∃ l w text, Comes (u ++ v) [] l ∧ l.rest = w ++ v.toList ∧ Crosses v.toList.head? false w text

/-- The characters of a comment around a text. -/
def commentOf (c : String) : List Char := '/' :: '*' :: (c.toList ++ ['*', '/'])

theorem toList_with_comment (u c v : String) :
    (u ++ "/*" ++ c ++ "*/" ++ v).toList = u.toList ++ (commentOf c ++ v.toList) := by
  simp [commentOf]

section
variable (hplace : TextAt u v) (hlast : BeforeSlash u.toList) (hc : ¬ ['*', '/'] <:+: c.toList)
include hplace hlast hc

theorem stream_comment_plain (hconfig : (document (u ++ v)).ready.config? = none) :
    Motion.anywhere.Streams (document (u ++ v)).stream
      (document (u ++ "/*" ++ c ++ "*/" ++ v)).stream := by
  obtain ⟨l, w, text, hcomes, hl, hw⟩ := hplace
  obtain ⟨tokens, hemits⟩ := hcomes.emits
  obtain ⟨l', hemits', hmodes, hrest⟩ : ∃ l', Emits (document (u ++ v)).ready tokens l' ∧
      l'.modes = [] ∧ l'.rest = l.rest := by
    by_cases hempty : tokens = []
    · subst hempty
      cases hemits
      exact ⟨_, .nil, rfl, rfl⟩
    · have hnext := (next_of_plain fun _ => hconfig).symm
      exact ⟨l, hemits.replace hempty hnext (Nat.le_refl _), hcomes.modes, rfl⟩
  have hstreams := hemits'.streams (fun _ => .comment hc) rfl rfl hmodes (hrest.trans hl) hw
    (String.toList_append ..) hlast
  have hplain : (⟨u.toList ++ v.toList, .start, [], false⟩ : Lexer).config? = none := by
    rwa [← String.toList_append]
  have hplain' : (document (u ++ "/*" ++ c ++ "*/" ++ v)).config? = none := by
    rw [document, toList_with_comment]
    exact config?_none_pending (config?_none_with hplain _)
  rw [document_stream (config?_none_pending hconfig), document_stream hplain', toList_with_comment]
  exact hstreams

theorem stream_comment
    (hsection : ∀ token m, (document (u ++ v)).next = (.ok (some token), m) →
      (∃ body, token.kind = .config body) → m.rest = v.toList → u.toList.getLast? = some '\n') :
    Motion.anywhere.Streams (document (u ++ v)).stream
      (document (u ++ "/*" ++ c ++ "*/" ++ v)).stream := by
  cases hconfig : (document (u ++ v)).ready.config? with
  | none => exact stream_comment_plain hplace hlast hc hconfig
  | some step =>
    obtain ⟨l, w, text, hcomes, hl, hw⟩ := hplace
    obtain ⟨tokens, hemits⟩ := hcomes.emits
    have hnext := next_of_config? hconfig
    have hopens := config?_opens rfl hconfig
    cases hemits with
    | nil =>
      rw [hcomes.plain rfl] at hconfig
      cases hconfig
    | @cons _ m _ token tokens first less more =>
      rw [first] at hnext
      obtain rfl := hnext.symm
      obtain ⟨x, y, hu, hy⟩ := more.split_rest first hl (String.toList_append ..)
      have hends : y ++ v.toList ≠ [] ∨ x.getLast? = some '\n' := by
        refine or_iff_not_imp_left.2 fun hempty => ?_
        obtain ⟨rfl, hv⟩ := List.append_eq_nil_iff.1 (not_not.1 hempty)
        rw [List.append_nil] at hu
        exact hu ▸ hsection token m first (hopens.config token rfl) (by rw [hy, hv]; rfl)
      have htext : (document (u ++ v)).ready = ⟨x ++ (y ++ v.toList), .start, [], false⟩ := by
        simp [document, ready, hu]
      rw [htext] at hconfig
      have hconfig' := config?_some hconfig hy hends (y ++ (commentOf c ++ v.toList))
      have htext' : (document (u ++ "/*" ++ c ++ "*/" ++ v)).ready =
          ⟨x ++ (y ++ (commentOf c ++ v.toList)), .start, [], false⟩ := by
        rw [document, toList_with_comment, hu, List.append_assoc]
        rfl
      rw [← htext'] at hconfig'
      rw [stream_of_token first, stream_of_token (next_of_config? hconfig')]
      have hrest := more.streams (fun _ => .comment hc) rfl hopens.pending hcomes.modes hl hw
        hy (hu ▸ hlast : BeforeSlash (x ++ y)).right
      exact ⟨.cons ⟨rfl, trivial⟩ hrest.tokens, hrest.stop⟩

end

end Lexer

open Lexer

-- ---------------------------------------------------------------------------
-- Documents of the same tokens
-- ---------------------------------------------------------------------------

/-- All places are one, and an error is known by its code. -/
def Action.Pairing.byCode : Action.Pairing where
  span _ := .empty .start
  Errors e e' := e'.code = e.code
  errors _ _ := rfl

theorem Action.Pairing.Outcomes.code_eq {α : Type} {r r' : Except CompileError α}
    (h : Action.Pairing.byCode.Outcomes r r') :
    r'.mapError CompileError.code = r.mapError CompileError.code := by
  cases h with
  | ok a => rfl
  | error h => exact congrArg Except.error h

/-- The reader of documents looks at no places. -/
def Parser.Pairing.byCode : Parser.Pairing := Action.Pairing.byCode.parsing fun _ _ => rfl

namespace TokenStream

/-- The stream with all places made one. -/
def placeless (s : TokenStream) : TokenStream where
  tokens := s.tokens.map (Token.mapSpan Action.Pairing.byCode.span)
  stop := match s.stop with
    | .ok _ => .ok .start
    | .error e => .error (e.mapSpan Action.Pairing.byCode.span)

theorem linked_placeless (s : TokenStream) :
    Parser.Pairing.byCode.Linked Parser.Pairing.byCode.Front s.tokens.length s s.placeless := by
  refine ⟨?_, Nat.le_refl _, ⟨[], s.placeless.stop⟩, ?_, by rw [List.append_nil]; rfl⟩
  · obtain ⟨tokens, stop⟩ := s
    cases tokens with
    | nil =>
      cases stop with
      | ok p => exact .plain .finished trivial
      | error e => exact .failed
    | cons token tokens =>
      obtain ⟨kind, place⟩ := token
      by_cases hkind : ∃ body, kind = .config body
      · obtain ⟨body, rfl⟩ := hkind
        exact .config trivial
      · exact .plain (.token (not_exists.1 hkind)) trivial
  · unfold placeless
    cases s.stop with
    | ok p => exact .ok (fun _ h => h) rfl
    | error e => exact .error rfl

end TokenStream

theorem Motion.Streams.kinds_eq {M : Motion} {s s' : TokenStream} (h : M.Streams s s') :
    s'.tokens.map Token.kind = s.tokens.map Token.kind := by
  obtain ⟨tokens, stop⟩ := s
  obtain ⟨tokens', stop'⟩ := s'
  obtain ⟨htokens, -⟩ := h
  dsimp only at htokens ⊢
  induction htokens with
  | nil => rfl
  | cons h _ ih => rw [List.map_cons, List.map_cons, h.kind, ih]

theorem Motion.Streams.placeless_eq {M : Motion} {s s' : TokenStream} (h : M.Streams s s') :
    s'.placeless = s.placeless := by
  have hkinds (tokens : List Token) : tokens.map (Token.mapSpan Action.Pairing.byCode.span) =
      (tokens.map Token.kind).map fun kind => ⟨kind, .empty .start⟩ := by
    rw [List.map_map]
    rfl
  have hstop := h.stop
  unfold TokenStream.placeless
  rw [hkinds, hkinds, h.kinds_eq]
  generalize s.stop = stop at *
  generalize s'.stop = stop' at *
  cases hstop with
  | ok => rfl
  | error he => simp only [CompileError.mapSpan, he.cause]; rfl

-- ---------------------------------------------------------------------------
-- Parsing and compiling
-- ---------------------------------------------------------------------------

/-- Documents of one tree, up to places, or errors of one code. -/
inductive Document.Alike : Except CompileError Document → Except CompileError Document → Prop
  | ok {d d' : Document}
    (h : d'.mapSpans Action.Pairing.byCode.span = d.mapSpans Action.Pairing.byCode.span) :
    Alike (.ok d) (.ok d')
  | error {e e' : CompileError} (h : e'.code = e.code) : Alike (.error e) (.error e')

theorem parseDocument_alike {M : Motion} {source source' : String}
    (h : M.Streams (Lexer.document source).stream (Lexer.document source').stream) :
    Document.Alike (parseDocument source) (parseDocument source') := by
  have hreads (s : TokenStream) := Document.parserWith_paired (T := Parser.Pairing.byCode)
    (fun _ h => h) (fun k => Node.outermost_paired (fun _ h => h)) s s.placeless s.linked_placeless
  have hfirst := hreads (Lexer.document source).stream
  have hsecond := hreads (Lexer.document source').stream
  rw [h.placeless_eq] at hsecond
  simp only [parseDocument, StateT.run, Document.parser_eq]
  generalize Document.parserWith Node.outermost (Lexer.document source).stream = first at *
  generalize Document.parserWith Node.outermost (Lexer.document source').stream = second at *
  generalize Document.parserWith Node.outermost (Lexer.document source).stream.placeless = third at *
  cases hfirst with
  | error he =>
    cases hsecond with
    | error he' => exact .error (he'.symm.trans he)
  | ok hd =>
    cases hsecond with
    | ok hd' => exact .ok (hd'.symm.trans hd)

theorem Document.split_mapSpans (document : Document) (f : Span → Span) :
    (document.mapSpans f).split = (document.split.1, Node.mapSpansAll f document.split.2) := by
  obtain ⟨nodes⟩ := document
  cases nodes with
  | nil => rfl
  | cons node rest => cases node <;> rfl

theorem Cause.code_of_spread {cause : String → Cause}
    (h : cause ∈ [Cause.spreadNotIterable, Cause.spreadNotObject]) (text text' : String) :
    (cause text').code = (cause text).code := by
  rcases h with _ | ⟨_, _ | ⟨_, ⟨⟩⟩⟩ <;> rfl

theorem Site.alike_byCode (site : Site Compiler) (source : String) :
    Site.Alike (fun _ => True) Eq ScopeTree.Same .byCode site { site with source } where
  scopes := ScopeTree.same_alike _
  call := rfl
  snippet _ hcause _ := Cause.code_of_spread hcause _ _

theorem Document.compile_byCode (document : Document) (site : Site Compiler) (source : String)
    (bindings : Dict Value) (history : History) :
    let plain := document.compile site bindings history
    let moved := (document.mapSpans Action.Pairing.byCode.span).compile { site with source } bindings
      history
    moved.1.mapError CompileError.code = plain.1.mapError CompileError.code ∧ moved.2 = plain.2 := by
  obtain ⟨houtcome, hafter⟩ :=
    compileNodes_source_paired (site.alike_byCode source) document.split.2 bindings history
  simp only [Document.compile, Document.split_mapSpans]
  generalize compileNodes site document.split.2 ⟨.ofBindings bindings, history⟩ = first at *
  generalize compileNodes _ (Node.mapSpansAll _ document.split.2) _ = second at *
  exact ⟨(houtcome.map _).code_eq, hafter⟩

theorem compile_alike {source source' : String}
    (h : Document.Alike (parseDocument source) (parseDocument source')) (context : Context) :
    (compile context source').1.mapError CompileError.code =
        (compile context source).1.mapError CompileError.code ∧
      (compile context source').2 = (compile context source).2 := by
  rw [run_compile, run_compile]
  generalize parseDocument source = result at *
  generalize parseDocument source' = result' at *
  cases h with
  | error h => exact ⟨congrArg Except.error h, rfl⟩
  | @ok d d' h =>
    obtain ⟨hfirst, hhistory⟩ := d.compile_byCode
      ⟨source, context.host, enterPrompt context.host context.depth []⟩ "" context.bindings []
    obtain ⟨hsecond, hhistory'⟩ := d'.compile_byCode
      ⟨source', context.host, enterPrompt context.host context.depth []⟩ "" context.bindings []
    rw [h] at hsecond hhistory'
    exact ⟨hsecond.symm.trans hfirst, hhistory'.symm.trans hhistory⟩

/-- A comment without its own closing inside does nothing where the lexer is in text, unless the
character in front of it takes its slash, or the last line of an opening section goes on with it:
the tokens are of the same kinds, up to the same end or error, and the document comes to the same
conversation or fails alike, having asked the host for the same. -/
theorem compile_comment {u c v : String} (hplace : TextAt u v)
    (hlast : ∀ d ∈ u.toList.getLast?, d ≠ '\\' ∧ d ≠ '<' ∧ d ≠ '*')
    (hc : ¬ ['*', '/'] <:+: c.toList)
    (hsection : ∀ token m, (Lexer.document (u ++ v)).next = (.ok (some token), m) →
      (∃ body, token.kind = .config body) → m.rest = v.toList → u.toList.getLast? = some '\n') :
    let plain := (Lexer.document (u ++ v)).stream
    let commented := (Lexer.document (u ++ "/*" ++ c ++ "*/" ++ v)).stream
    commented.tokens.map Token.kind = plain.tokens.map Token.kind ∧
      (commented.stop.map fun _ => ()).mapError CompileError.cause =
        (plain.stop.map fun _ => ()).mapError CompileError.cause ∧
      ∀ context,
        (compile context (u ++ "/*" ++ c ++ "*/" ++ v)).1.mapError CompileError.code =
            (compile context (u ++ v)).1.mapError CompileError.code ∧
          (compile context (u ++ "/*" ++ c ++ "*/" ++ v)).2 = (compile context (u ++ v)).2 := by
  intro plain commented
  have hstreams : Motion.anywhere.Streams plain commented :=
    stream_comment hplace hlast hc hsection
  refine ⟨hstreams.kinds_eq, ?_, compile_alike (parseDocument_alike hstreams)⟩
  have hstop := hstreams.stop
  generalize plain.stop = stop at *
  generalize commented.stop = stop' at *
  cases hstop with
  | ok => rfl
  | error he => exact congrArg Except.error he.cause

theorem next_greeting : (document ("<user>Hi \\\x7b" ++ "\x7bname\x7d</user>")).next =
    (.ok (some ⟨.tagOpen "user", ⟨0, 5, 1, 1⟩⟩),
      ⟨'>' :: ("Hi \\\x7b".toList ++ "\x7bname\x7d</user>".toList), ⟨5, 1, 6⟩, [.tag], false⟩) := by
  rw [document, String.toList_append]
  rfl

/-- The place is inside of a text, behind an escape. -/
theorem textAt_greeting : TextAt "<user>Hi \\\x7b" "\x7bname\x7d</user>" := by
  have hend : (⟨'>' :: ("Hi \\\x7b".toList ++ "\x7bname\x7d</user>".toList), ⟨5, 1, 6⟩, [.tag],
      false⟩ : Lexer).next = (.ok (some ⟨.tagEnd, ⟨5, 6, 1, 6⟩⟩),
        ⟨"Hi \\\x7b".toList ++ "\x7bname\x7d</user>".toList, ⟨6, 1, 7⟩, [], false⟩) := rfl
  exact ⟨_, "Hi \\\x7b".toList, _, ⟨⟨_, .cons next_greeting (length_of_token next_greeting)
    (.cons hend (length_of_token hend) .nil)⟩, rfl, nofun⟩, rfl,
    .char rfl (.char rfl (.char rfl (.escape rfl .done)))⟩

/-- Neither what looks like markup in the comment is read nor the brace behind it as an escaped
one. -/
theorem compile_comment_greeting :
    let u := "<user>Hi \\\x7b"
    let v := "\x7bname\x7d</user>"
    let c := "* \x7b<b>/"
    let context : Context := ⟨[("name", .string "Ada")], standardHost none, 16⟩
    TextAt u v ∧
      (compile context (u ++ "/*" ++ c ++ "*/" ++ v)).1.toOption.map Conversation.texts =
        some ["Hi \x7bAda"] := by
  intro u v c context
  have hplain : (compile context (u ++ v)).1.toOption.map Conversation.texts =
      some ["Hi \x7bAda"] := by
    decide +kernel
  have hlast : u.toList.getLast? = some '\x7b' := by decide +kernel
  obtain ⟨-, -, hcompile⟩ := @compile_comment u c v textAt_greeting
    (by
      rw [hlast]
      rintro _ ⟨⟩
      decide)
    (by decide +kernel)
    fun token m hnext ⟨body, hkind⟩ => by
      rw [next_greeting] at hnext
      cases hnext
      cases hkind
  obtain ⟨hcode, -⟩ := hcompile context
  refine ⟨textAt_greeting, ?_⟩
  cases hrun : (compile context (u ++ v)).1 with
  | error e =>
    rw [hrun] at hplain
    cases hplain
  | ok conversation =>
    rw [hrun] at hcode hplain
    cases hrun' : (compile context (u ++ "/*" ++ c ++ "*/" ++ v)).1 with
    | error e =>
      rw [hrun'] at hcode
      cases hcode
    | ok conversation' =>
      rw [hrun'] at hcode
      cases hcode
      exact hplain

/-- Behind a section whose last line has not ended there is text, too, but a comment there makes that
line another one, and the section lacks its end. -/
theorem comment_in_closing_line : ¬ ∀ u v c : String, TextAt u v →
    (∃ place, (document (u ++ v)).stream.stop = .ok place) →
    (∀ d ∈ u.toList.getLast?, d ≠ '\\' ∧ d ≠ '<' ∧ d ≠ '*') → ¬ ['*', '/'] <:+: c.toList →
    (document (u ++ "/*" ++ c ++ "*/" ++ v)).stream.tokens.map Token.kind =
      (document (u ++ v)).stream.tokens.map Token.kind := by
  intro hall
  have hnext : (document ("---\na: 1\n---" ++ "")).next =
      (.ok (some ⟨.config "a: 1\n", ⟨0, 12, 1, 1⟩⟩), ⟨[], ⟨12, 3, 4⟩, [], false⟩) := by
    rw [document, String.toList_append]
    rfl
  have hplace : TextAt "---\na: 1\n---" "" :=
    ⟨_, [], _, ⟨⟨_, .cons hnext (length_of_token hnext) .nil⟩, rfl, (absurd · Bool.false_ne_true)⟩,
      rfl, .done⟩
  have hstream : (document ("---\na: 1\n---" ++ "")).stream =
      ⟨[⟨.config "a: 1\n", ⟨0, 12, 1, 1⟩⟩], .ok ⟨12, 3, 4⟩⟩ := by
    rw [stream_of_token hnext]
    rfl
  have hlast : "---\na: 1\n---".toList.getLast? = some '-' := by decide +kernel
  have hkinds := hall "---\na: 1\n---" "" "" hplace ⟨_, congrArg TokenStream.stop hstream⟩
    (by
      rw [hlast]
      rintro _ ⟨⟩
      decide)
    (by decide +kernel)
  rw [hstream] at hkinds
  have hnone : (document ("---\na: 1\n---" ++ "/*" ++ "" ++ "*/" ++ "")).stream.tokens.length = 0 := by
    decide +kernel
  have hlength := congrArg List.length hkinds
  rw [List.length_map, hnone] at hlength
  cases hlength

end PromptTemplate
