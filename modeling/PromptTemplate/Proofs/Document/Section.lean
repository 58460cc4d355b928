import PromptTemplate.Host.Standard
import PromptTemplate.Proofs.Conversation.Texts
import PromptTemplate.Proofs.Document.Roundtrip
import PromptTemplate.Proofs.Node.InStep
import PromptTemplate.Proofs.Token.Moved
import PromptTemplate.Proofs.Token.Section
import PromptTemplate.Proofs.Walk.Paired

/-!
# Documents behind an opening section

The opening section gives the configuration and does nothing else: the text
behind it comes to the conversation, and asks the host for what it asks for,
that it comes to and asks for alone (`compile_section`).
-/

namespace PromptTemplate

namespace Lexer

-- ---------------------------------------------------------------------------
-- The section
-- ---------------------------------------------------------------------------

/-- Three dashes and the end of the line. -/
def fence : List Char := ['-', '-', '-', '\n']

/-- An opening section with a body that ends with its last line. -/
def sectionOf (body : List Char) : List Char := fence ++ body ++ fence

theorem sectionOf_getLast? (body : List Char) : (sectionOf body).getLast? = some '\n' :=
  List.getLast?_append_of_ne_nil _ (List.cons_ne_nil _ _)

section
variable {body : List Char} (hend : body = [] ∨ body.getLast? = some '\n')
  (hbody : ∀ line ∈ lines body, isFence line = false)
include hend hbody

theorem config?_section (rest : List Char) :
    (⟨sectionOf body ++ rest, .start, [], false⟩ : Lexer).config? =
      some ((⟨rest, Position.start.afterAll (sectionOf body), [], false⟩ : Lexer).emit .start
        (.config (String.ofList body))) := by
  have htext : (fence :: (lines body ++ [fence])).flatten = sectionOf body := by
    simp [sectionOf, flatten_lines]
  have hsection : IsSection fence (lines body) fence := by
    refine ⟨by decide, hbody, by decide, ?_, ?_⟩
    · rw [htext, sectionOf, List.append_assoc, lines_append (.inr rfl), lines_append hend]
      rfl
    · rw [htext]
      exact sectionOf_getLast? body
  have hconfig := @IsSection.config? [] _ _ _ hsection nofun .start [] rest
  rwa [htext, flatten_lines] at hconfig

/-- The tokens behind a section are the ones of the text alone, at other places. -/
theorem document_stream_section {rest : String} (hrest : (document rest).config? = none) :
    ∃ others : TokenStream,
      (Relocation.behind (sectionOf body)).motion.Streams (document rest).stream others ∧
      (document (String.ofList (sectionOf body) ++ rest)).stream =
        ⟨⟨.config (String.ofList body), .between .start (Position.start.afterAll (sectionOf body))⟩ ::
          others.tokens, others.stop⟩ := by
  have hnext : (document (String.ofList (sectionOf body) ++ rest)).next =
      (⟨rest.toList, Position.start.afterAll (sectionOf body), [], false⟩ : Lexer).emit .start
        (.config (String.ofList body)) := by
    simp only [next, document, String.toList_append, String.toList_ofList, if_true,
      config?_section hend hbody]
  have hstart : (Relocation.behind (sectionOf body)).motion.Lexers
      ⟨rest.toList, .start, [], false⟩
      ⟨rest.toList, Position.start.afterAll (sectionOf body), [], false⟩ :=
    ⟨rfl, rfl, rfl, (Relocation.behind_start (sectionOf_getLast? body)).symm⟩
  rw [document_stream hrest]
  exact ⟨_, hstart.stream rfl, stream_of_token hnext⟩

end

end Lexer

open Lexer

theorem behindSection_text (body rest : String) :
    "---\n" ++ body ++ "---\n" ++ rest = String.ofList (sectionOf body.toList) ++ rest := by
  rw [sectionOf, String.ofList_append, String.ofList_append, String.ofList_toList]
  rfl

/-- The relocation of a text behind a section with this body. -/
def Relocation.behindSection (body : String) : Relocation := .behind (sectionOf body.toList)

-- ---------------------------------------------------------------------------
-- Parsing
-- ---------------------------------------------------------------------------

theorem TokenStream.Good.plain {s : TokenStream} (h : s.Good) :
    ∀ token ∈ s.tokens.head?, ∀ body, token.kind ≠ .config body := by
  obtain ⟨tokens, stop⟩ := s
  cases tokens with
  | nil => nofun
  | cons token tokens =>
    rintro _ ⟨⟩ body hkind
    have hgood := h.1
    rw [hkind] at hgood
    exact hgood

/-- The pairing of a text with the same text somewhere else. -/
def Relocation.pairing (r : Relocation) : Parser.Pairing := (Action.Pairing.moving r.span).parsing r.join

section
variable {body rest : String} {entries : Dict Json}
  (hend : body = "" ∨ body.toList.getLast? = some '\n')
  (hbody : ∀ line ∈ lines body.toList, isFence line = false)
  (hentries : Config.entries? body = some entries)
  (hrest : (Lexer.document rest).config? = none)
include hend hbody hentries hrest

/-- The document behind a section is the one of the text alone with the section in front. -/
theorem parseDocument_section :
    parseDocument ("---\n" ++ body ++ "---\n" ++ rest) =
      match parseDocument rest with
      | .ok document => .ok ⟨.config (.between .start (Position.start.afterAll
          (sectionOf body.toList))) entries ::
            Node.mapSpansAll (Relocation.behindSection body).span document.nodes⟩
      | .error error => .error (error.mapSpan (Relocation.behindSection body).span) := by
  have hend : body.toList = [] ∨ body.toList.getLast? = some '\n' := by
    refine hend.imp_left fun hempty => ?_
    rw [hempty]
    rfl
  obtain ⟨others, hothers, hstream⟩ := document_stream_section hend hbody hrest
  have hlinked : (Relocation.behindSection body).pairing.At [] _ (document rest).stream others :=
    Parser.Pairing.linked_of_streams (fun h => h) (fun h => h) (fun _ h => h) trivial hothers
  have hnodes := Node.outermost_paired (fun _ h => h) _ _ hlinked
  unfold parseDocument
  rw [behindSection_text, hstream]
  simp only [StateT.run, String.ofList_toList]
  rw [Document.parser_of_config hentries, Document.parser_of_plain (document_good hrest).plain]
  rw [Parser.run_bind, Parser.run_bind]
  generalize Node.outermost (Lexer.document rest).stream = alone at *
  generalize Node.outermost others = behind at *
  cases hnodes with
  | @ok nodes nodes' _ _ h =>
    obtain rfl : nodes' = _ := h.value
    rfl
  | error h =>
    obtain rfl := h
    rfl

end

-- ---------------------------------------------------------------------------
-- Compiling
-- ---------------------------------------------------------------------------

/-- A text that stands behind another one is at a site like its own. -/
theorem Site.alike_behind (site : Site Compiler) (before : List Char) :
    Site.Alike (fun _ => True) Eq ScopeTree.Same (.moving (Relocation.behind before).span) site
      { site with source := String.ofList before ++ site.source } where
  scopes := ScopeTree.same_alike _
  call := rfl
  snippet cause _ span := by
    have htext := Relocation.textOf_behind (String.ofList before) site.source span
    rw [String.toList_ofList] at htext
    exact congrArg (fun text => CompileError.mk (cause (Text.trim text)) _) htext

theorem Document.compile_behind {document : Document} (h : Node.AllWellFormed document.nodes)
    (site : Site Compiler) (before : List Char) (span : Span) (entries : Dict Json)
    (bindings : Dict Value) (history : History) :
    let r := Relocation.behind before
    let alone := document.compile site bindings history
    let behind := Document.compile ⟨.config span entries :: Node.mapSpansAll r.span document.nodes⟩
      { site with source := String.ofList before ++ site.source } bindings history
    behind.2 = alone.2 ∧ match alone.1 with
      | .ok conversation => behind.1 = .ok ⟨entries, conversation.messages⟩
      | .error error => behind.1 = .error (error.mapSpan r.span) := by
  intro r alone behind
  obtain ⟨houtcome, hafter⟩ :=
    compileNodes_source_paired (site.alike_behind before) document.nodes bindings history
  rw [Action.Pairing.moving_span] at houtcome hafter
  have hsplit := Document.split_of_sectionless (Node.AllWellFormed.sectionless _ h)
  have hsection : Document.split ⟨.config span entries :: Node.mapSpansAll r.span document.nodes⟩ =
      (entries, Node.mapSpansAll r.span document.nodes) := rfl
  simp only [alone, behind, Document.compile, hsplit, hsection]
  generalize compileNodes site document.nodes ⟨.ofBindings bindings, history⟩ = first at *
  generalize compileNodes _ (Node.mapSpansAll r.span document.nodes) _ = second at *
  obtain ⟨result, store⟩ := first
  obtain ⟨result', store'⟩ := second
  dsimp only at houtcome hafter ⊢
  obtain rfl := houtcome.eq_mapError
  refine ⟨hafter, ?_⟩
  cases result <;> rfl

/-- Behind an opening section a text comes to the same messages, with the entries of the section as
the configuration, or to the same error at the place where that is then. The host is asked the
same. -/
theorem compile_section {context : Context} {body rest : String} {entries : Dict Json}
    (hend : body = "" ∨ body.toList.getLast? = some '\n')
    (hbody : ∀ line ∈ lines body.toList, isFence line = false)
    (hentries : Config.entries? body = some entries)
    (hrest : firstLine? rest.toList ≠ some ['-', '-', '-']) :
    let alone := compile context rest
    let behind := compile context ("---\n" ++ body ++ "---\n" ++ rest)
    behind.2 = alone.2 ∧ match alone.1 with
      | .ok conversation => behind.1 = .ok ⟨entries, conversation.messages⟩
      | .error error => behind.1 = .error (error.mapSpan (Relocation.behindSection body).span) := by
  intro alone behind
  have hconfig : (Lexer.document rest).config? = none := (config?_none_iff ..).2 hrest
  have hparse := parseDocument_section hend hbody hentries hconfig
  simp only [alone, behind, run_compile, hparse]
  cases hrun : parseDocument rest with
  | error error => exact ⟨rfl, rfl⟩
  | ok document =>
    rw [behindSection_text]
    exact Document.compile_behind (parseDocument_wellFormed hconfig hrun)
      ⟨rest, context.host, _⟩ (sectionOf body.toList) _ entries context.bindings []

/-- A line of the section is no fence as it is a comment. The text behind it calls the host, and
would fail in the branch that is not taken. -/
theorem compile_section_greeting :
    let body := "title: Hi\n# ---\n"
    let rest := "\x7b#if name\x7d\n<user>Hello \x7bupper(name)\x7d</user>\x7b:else\x7d" ++
      "\x7bmissing\x7d\x7b/if\x7d"
    let context : Context :=
      ⟨[("name", .string "ada"), ("upper", .function (StandardFunction.upper.handle 0))],
        standardHost none, 16⟩
    let behind := compile context ("---\n" ++ body ++ "---\n" ++ rest)
    ∃ entries conversation, Config.entries? body = some entries ∧
      Dict.keys entries = ["title"] ∧ conversation.texts = ["Hello ADA"] ∧
      (compile context rest).1 = .ok conversation ∧
      behind = (.ok ⟨entries, conversation.messages⟩, (compile context rest).2) := by
  intro body rest context behind
  have hkeys : (Config.entries? body).map Dict.keys = some ["title"] := by decide +kernel
  have htexts : (compile context rest).1.toOption.map Conversation.texts = some ["Hello ADA"] := by
    decide +kernel
  obtain ⟨entries, hentries, hkeys⟩ := Option.map_eq_some_iff.1 hkeys
  obtain ⟨hhistory, hresult⟩ := @compile_section context body rest entries (.inr (by decide))
    (by decide) hentries (by decide +kernel)
  cases hrun : (compile context rest).1 with
  | error error =>
    rw [hrun] at htexts
    cases htexts
  | ok conversation =>
    rw [hrun] at htexts hresult
    exact ⟨entries, conversation, hentries, hkeys, Option.some.inj htexts, rfl,
      Prod.ext hresult hhistory⟩

end PromptTemplate
