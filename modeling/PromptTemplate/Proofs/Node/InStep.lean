import PromptTemplate.Compile
import PromptTemplate.Proofs.Document.Roundtrip
import PromptTemplate.Proofs.Node.Paired
import PromptTemplate.Proofs.Syntax.Trees
import PromptTemplate.Proofs.Token.Causes
import PromptTemplate.Proofs.Token.Modes

/-!
# The reader of nodes and the lexer

The lexer changes its modes by itself, the reader of nodes follows the tokens.
Whenever the reader looks at a token to start a node, or to stop, the lexer was
in text in front of that token: no watcher that lets such places pass would be
noticed (`parseDocument_watched`). An opening section stands in front of all
other nodes; a node behind it is no section and has none inside it, at any depth.
-/

namespace PromptTemplate

-- ---------------------------------------------------------------------------
-- Trees without a section
-- ---------------------------------------------------------------------------

mutual

/-- Neither the node nor one inside it is a section. -/
def Node.Sectionless : Node → Prop
  | .config _ _ => False
  | .text _ _ | .mustache _ _ => True
  | .ifBlock _ _ consequent alternates =>
    Node.AllSectionless consequent ∧ Alternate.AllSectionless alternates
  | .eachBlock _ _ _ _ body fallback =>
    Node.AllSectionless body ∧ Node.FallbackSectionless fallback
  | .tag _ children => Node.AllSectionless children

def Node.AllSectionless : List Node → Prop
  | [] => True
  | node :: rest => node.Sectionless ∧ Node.AllSectionless rest

def Alternate.AllSectionless : List Alternate → Prop
  | [] => True
  | .elseIf _ body :: rest | .otherwise body :: rest =>
    Node.AllSectionless body ∧ Alternate.AllSectionless rest

def Node.FallbackSectionless : Option (List Node) → Prop
  | none => True
  | some body => Node.AllSectionless body

end

mutual

theorem Node.WellFormed.sectionless : (node : Node) → node.WellFormed → node.Sectionless
  | .config _ _, h => h.elim
  | .text _ _, _ | .mustache _ _, _ => trivial
  | .ifBlock _ _ consequent alternates, ⟨_, hconsequent, halternates⟩ =>
    ⟨Node.AllWellFormed.sectionless consequent hconsequent,
      Alternate.AllWellFormed.sectionless alternates halternates⟩
  | .eachBlock _ _ _ _ body fallback, ⟨_, _, _, hbody, hfallback⟩ =>
    ⟨Node.AllWellFormed.sectionless body hbody,
      Node.FallbackWellFormed.sectionless fallback hfallback⟩
  | .tag _ children, ⟨_, _, hchildren⟩ => Node.AllWellFormed.sectionless children hchildren

theorem Node.AllWellFormed.sectionless :
    (nodes : List Node) → Node.AllWellFormed nodes → Node.AllSectionless nodes
  | [], _ => trivial
  | node :: rest, ⟨hnode, _, hrest⟩ =>
    ⟨Node.WellFormed.sectionless node hnode, Node.AllWellFormed.sectionless rest hrest⟩

theorem Alternate.AllWellFormed.sectionless : (alternates : List Alternate) →
    Alternate.AllWellFormed alternates → Alternate.AllSectionless alternates
  | [], _ => trivial
  | .elseIf _ body :: rest, ⟨_, hbody, hrest⟩ =>
    ⟨Node.AllWellFormed.sectionless body hbody, Alternate.AllWellFormed.sectionless rest hrest⟩
  | .otherwise body :: _, ⟨hbody, hrest⟩ => by
    subst hrest
    exact ⟨Node.AllWellFormed.sectionless body hbody, trivial⟩

theorem Node.FallbackWellFormed.sectionless : (fallback : Option (List Node)) →
    Node.FallbackWellFormed fallback → Node.FallbackSectionless fallback
  | none, _ => trivial
  | some body, h => Node.AllWellFormed.sectionless body h

end

-- ---------------------------------------------------------------------------
-- Steps of the lexer
-- ---------------------------------------------------------------------------

namespace Lexer

variable {source : String} {modes : List Mode} {l m : Lexer} {token : Token}

/-- The lexer of a document gets to `l` by taking tokens. It is in these modes there, and not in
front of an opening section. -/
structure Comes (source : String) (modes : List Mode) (l : Lexer) : Prop where
  emits : ∃ tokens, Emits (document source) tokens l
  modes : l.modes = modes
  plain : l.configPending → l.ready.config? = none

theorem next_of_plain (h : l.configPending → l.ready.config? = none) : l.next = l.ready.next := by
  obtain ⟨hpending, hconfig⟩ | hready := next_cases l
  · rw [h hpending] at hconfig
    cases hconfig
  · exact hready

theorem Comes.step (h : Comes source modes l) (hnext : l.next = (.ok (some token), m)) :
    Shift modes token.kind m.modes ∧ Comes source m.modes m := by
  obtain ⟨tokens, hemits⟩ := h.emits
  have hpending := next_configPending l
  rw [hnext] at hpending
  have hturns := next_turns (m := l.ready) rfl
  rw [← next_of_plain h.plain, hnext] at hturns
  refine ⟨h.modes ▸ hturns.shift token rfl, ⟨tokens ++ [token], ?_⟩, rfl, ?_⟩
  · exact hemits.append (.cons hnext (length_of_token hnext) .nil)
  · rintro hpending'
    rw [hpending] at hpending'
    cases hpending'

theorem Comes.good (h : Comes source modes l) : l.stream.Good := by
  have hstream : l.stream = l.ready.stream := by
    rw [stream, streamWithin, next_of_plain h.plain]
    rfl
  rw [hstream]
  exact (streamWithin_good _ rfl).1

theorem next_of_stream {tokens : List Token} {stop : Except CompileError Position}
    (h : l.stream = ⟨token :: tokens, stop⟩) :
    ∃ m, l.next = (.ok (some token), m) ∧ m.stream = ⟨tokens, stop⟩ := by
  rcases hnext : l.next with ⟨error | _ | found, m⟩
  · rw [stream_of_error hnext] at h
    cases h
  · rw [stream_of_finished hnext] at h
    cases h
  · rw [stream_of_token hnext] at h
    cases h
    exact ⟨m, rfl, rfl⟩

theorem comes_document (h : (document source).ready.config? = none) :
    Comes source [] (document source) := ⟨⟨[], .nil⟩, rfl, fun _ => h⟩

theorem not_finished_of_config? {step : Step} (h : l.config? = some step) : step.1 ≠ .ok none := by
  unfold config? at h
  dsimp only at h
  split at h
  · cases h
  · split at h
    · split at h <;> cases h <;> nofun
    · cases h

end Lexer

open Lexer PromptTemplate.Parser

variable {source : String}

/-- The lexer of a document is in these modes at the front of the stream. -/
def ReadIn (source : String) (modes : List Mode) (s : TokenStream) : Prop :=
  ∃ l, Comes source modes l ∧ s = l.stream

/-- A document with itself, known to the lexer. -/
def stepPairing (source : String) : Pairing where
  span := id
  join _ _ := rfl
  Errors e e' := e' = e ∧ e.cause.isReadable
  Closing _ := False
  Read := ReadIn source
  strict := True
  errors _ _ h := ⟨rfl, h trivial⟩
  closed _ h := h.elim
  tail := by
    rintro modes modes' token tokens stop ⟨l, hl, hs⟩ hshift
    obtain ⟨m, hnext, hstream⟩ := next_of_stream hs.symm
    obtain ⟨hshift', hm⟩ := hl.step hnext
    exact ⟨m, hshift.unique hshift' ▸ hm, hstream.symm⟩
  shift := by
    rintro modes token tokens stop - ⟨l, hl, hs⟩
    obtain ⟨m, hnext, -⟩ := next_of_stream hs.symm
    exact ⟨m.modes, (hl.step hnext).1⟩

theorem stepPairing_open (s : TokenStream) : ¬ (stepPairing source).Closing s := id

/-- Both streams are the same one. -/
theorem eq_of_linked {P : TokenStream → Prop} {n : Nat} {s t : TokenStream}
    (h : (stepPairing source).Linked P n s t) : t = s := by
  obtain ⟨tokens, stop⟩ := s
  obtain ⟨-, -, u, hu, rfl⟩ := h
  have htokens : tokens.map (Token.mapSpan (stepPairing source).span) = tokens := List.map_id _
  dsimp only at hu ⊢
  rw [htokens]
  cases hu with
  | error he =>
    obtain ⟨rfl, -⟩ := he
    rw [List.append_nil]
  | @ok p p' _ hp =>
    have hp : p = p' := by
      cases p
      cases p'
      cases hp
      rfl
    rw [hp, List.append_nil]
  | closed h => exact h.elim

-- ---------------------------------------------------------------------------
-- The start of a document
-- ---------------------------------------------------------------------------

theorem front_document (source : String) :
    (stepPairing source).Front (document source).stream := by
  cases hconfig : (document source).ready.config? with
  | none =>
    have hcomes := comes_document hconfig
    rcases hnext : (document source).next with ⟨error | _ | token, m⟩
    · rw [stream_of_error hnext]
      exact .failed
    · exact .plain (stream_of_finished hnext ▸ .finished) ⟨_, hcomes, rfl⟩
    · refine .plain ?_ ⟨_, hcomes, rfl⟩
      rw [stream_of_token hnext]
      refine .token fun body hkind => ?_
      exact Shift.not_config (hkind ▸ (hcomes.step hnext).1)
  | some step =>
    obtain ⟨result, m⟩ := step
    have hnext := next_of_config? hconfig
    have hopens := config?_opens rfl hconfig
    rcases result with error | _ | token
    · rw [stream_of_error hnext]
      exact .failed
    · exact absurd rfl (not_finished_of_config? hconfig)
    · obtain ⟨kind, place⟩ := token
      obtain ⟨body, hkind⟩ := hopens.config _ rfl
      obtain rfl : kind = .config body := hkind
      have hcomes : Comes source [] m := by
        refine ⟨⟨_, .cons hnext (length_of_token hnext) .nil⟩, hopens.stay, fun hpending => ?_⟩
        rw [show m.configPending = false from hopens.pending] at hpending
        cases hpending
      rw [stream_of_token hnext]
      exact .config ⟨m, hcomes, rfl⟩

theorem linked_document (source : String) :
    (stepPairing source).Linked (stepPairing source).Front (document source).stream.tokens.length
      (document source).stream (document source).stream := by
  refine ⟨front_document source, Nat.le_refl _, ⟨[], (document source).stream.stop⟩, ?_, ?_⟩
  · cases hstop : (document source).stream.stop with
    | error e => exact .error ⟨rfl, stream_readable hstop⟩
    | ok p => exact .ok stepPairing_open rfl
  · have htokens : (document source).stream.tokens.map (Token.mapSpan (stepPairing source).span) =
      (document source).stream.tokens := List.map_id _
    rw [htokens, List.append_nil]

-- ---------------------------------------------------------------------------
-- Watching the reader
-- ---------------------------------------------------------------------------

/-- The reader of a list of nodes, which runs `watch` before each look at the token that starts a
node or stops the list. -/
def Node.watchedList (watch : Parser Unit) :
    (budget : Nat) → (enclosing : List Construct) → Parser (List Node)
  | 0, _ => exhausted
  | budget + 1, enclosing => do
    watch
    listStep (watchedList watch budget) (budget + 1) enclosing

def Document.watchedParser (watch : Parser Unit) : Parser Document :=
  parserWith do Node.watchedList watch (← Parser.budget) []

section
variable {watch : Parser Unit}
  (hwatch : ∀ l, Comes source [] l → watch l.stream = .ok ((), l.stream))
include hwatch

theorem Node.watchedList_paired {n b b' : Nat} {enclosing : List Construct} (hb : n < b)
    (hb' : n < b') :
    Paired (stepPairing source) ((stepPairing source).At [] n) (list b enclosing)
      (watchedList watch b' enclosing) (ReadAll (stepPairing source) enclosing n) := by
  induction b generalizing n b' enclosing with
  | zero => contradiction
  | succ b ih =>
    obtain _ | b' := b'
    · contradiction
    rw [list_succ, watchedList]
    intro s t hst
    have hnested : Nested (stepPairing source) n (list b) (watchedList watch b') :=
      fun j hj enclosing => ih (by omega) (by omega)
    have hstep : (stepPairing source).Results (ReadAll (stepPairing source) enclosing n)
        (listStep (list b) (b + 1) enclosing s) (listStep (watchedList watch b') (b' + 1) enclosing t) :=
      listStep_paired stepPairing_open hnested hb hb' s t hst
    obtain rfl := eq_of_linked hst
    obtain ⟨l, hl, rfl⟩ := hst.read
    rwa [bind_of_ok (hwatch l hl)]

/-- The watcher is not noticed, and an error is none that the reader never gives. -/
theorem parseDocument_watched :
    Prod.fst <$> (Document.watchedParser watch).run (document source).stream =
        parseDocument source ∧
      ∀ error, parseDocument source = .error error → error.cause.isReadable := by
  have hnodes (k : Nat) : Paired (stepPairing source) ((stepPairing source).At [] k) Node.outermost
      (do Node.watchedList watch (← Parser.budget) [])
      ((stepPairing source).Made (Node.mapSpansAll (stepPairing source).span) [] k) :=
    .budget_bind fun _ _ _ _ hb hb' => (Node.watchedList_paired hwatch hb hb').mono
      (fun _ _ => id) fun _ _ _ _ h => ⟨h.value, h.stopped.linked⟩
  have hresults := Document.parserWith_paired stepPairing_open hnodes _ _ (linked_document source)
  rw [← Document.parser_eq] at hresults
  unfold parseDocument
  simp only [StateT.run, Document.watchedParser]
  generalize Document.parser (document source).stream = result at *
  generalize Document.parserWith _ (document source).stream = result' at *
  cases hresults with
  | @ok d d' _ _ hd =>
    obtain rfl : d' = d := hd.trans d.mapSpans_id
    exact ⟨rfl, nofun⟩
  | error he =>
    obtain ⟨rfl, hreadable⟩ := he
    refine ⟨rfl, ?_⟩
    rintro _ ⟨⟩
    exact hreadable

end

theorem parseDocument_readable {error : CompileError} (h : parseDocument source = .error error) :
    error.cause.isReadable :=
  (@parseDocument_watched source (pure ()) fun _ _ => rfl).2 error h

-- ---------------------------------------------------------------------------
-- Sections
-- ---------------------------------------------------------------------------

theorem Document.split_of_sectionless {document : Document}
    (h : Node.AllSectionless document.nodes) : document.split = ([], document.nodes) := by
  obtain ⟨nodes⟩ := document
  cases nodes with
  | nil => rfl
  | cons node rest =>
    cases node with
    | config => exact h.1.elim
    | _ => rfl

theorem Node.outermost_sectionless {s t : TokenStream} {nodes : List Node}
    (hs : ReadIn source [] s) (h : Node.outermost s = .ok (nodes, t)) :
    Node.AllSectionless nodes := by
  have hsound : Sound Node.outermost Node.AllWellFormed :=
    .budget_bind fun budget => Node.body_sound (Node.list_sound budget) []
  obtain ⟨l, hl, rfl⟩ := hs
  exact Node.AllWellFormed.sectionless nodes (hsound _ nodes t hl.good h).2

/-- Behind the opening section there is none, at any depth. -/
theorem parseDocument_sectionless {document : Document} (h : parseDocument source = .ok document) :
    Node.AllSectionless document.split.2 := by
  have hfront := front_document source
  simp only [parseDocument, StateT.run, Document.parser_eq] at h
  generalize (Lexer.document source).stream = s at hfront h
  have hrun (build : List Node → Document) {t : TokenStream} (ht : ReadIn source [] t)
      (h : Prod.fst <$> (Node.outermost >>= fun nodes => pure (build nodes)) t = .ok document) :
      ∃ nodes, Node.AllSectionless nodes ∧ document = build nodes := by
    rw [Parser.run_bind] at h
    cases hnodes : Node.outermost t with
    | error =>
      rw [hnodes] at h
      cases h
    | ok found =>
      rw [hnodes] at h
      cases h
      exact ⟨found.1, Node.outermost_sectionless ht hnodes, rfl⟩
  cases hfront with
  | failed => cases h
  | plain hplain hread =>
    rw [Document.parserWith_of_plain hplain] at h
    obtain ⟨nodes, hnodes, rfl⟩ := hrun _ hread h
    rwa [Document.split_of_sectionless hnodes]
  | @config body place tokens stop hread =>
    have hconfig := Document.configParser_section body place ⟨tokens, stop⟩
    cases hentries : Config.entries? body with
    | none =>
      rw [hentries] at hconfig
      rw [Document.parserWith, Parser.run_bind, hconfig] at h
      cases h
    | some entries =>
      rw [Document.parserWith_of_config hentries place ⟨tokens, stop⟩] at h
      obtain ⟨nodes, hnodes, rfl⟩ := hrun _ hread h
      exact hnodes

end PromptTemplate
