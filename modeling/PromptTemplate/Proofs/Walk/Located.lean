import PromptTemplate.Host.Standard
import PromptTemplate.Proofs.Eval.Located
import PromptTemplate.Proofs.Node.InStep
import PromptTemplate.Proofs.Node.Located
import PromptTemplate.Proofs.Walk.Run

/-!
# Where a compile fails

A walk fails at a span of the nodes that it goes through. That holds of
references too, as what goes wrong inside the prompt that is referred to is
reported at the tag. So every error of a compile points into its source
(`compile_error_within`). A node without a meaning is a section, and as there
is none behind the opening one no walk of a parsed document finds any.
-/

namespace PromptTemplate

open PromptTemplate.Action (FailsAt)
open Walk

variable {γ : Type} {P : Span → Prop} {site : Site γ} {p : Placement} {scope : ScopeId} {span : Span}
  {tag : Tag} {isBlank : Bool}

-- ---------------------------------------------------------------------------
-- Operations
-- ---------------------------------------------------------------------------

theorem Walk.fail_failsAt {α : Type} {cause : Cause} (h : P span)
    (hcause : cause.isSupported) : FailsAt P (Walk.fail cause span : Walk α) :=
  .throw h hcause

theorem Walk.located_failsAt {α : Type} (h : P span) {x : Except Cause α} (hx : Supported x) :
    FailsAt P (Walk.located span x) := by
  cases x with
  | ok a => exact .pure a
  | error cause => exact fail_failsAt h (hx cause rfl)

theorem Walk.build_failsAt (change : Builder → Builder) : FailsAt P (Walk.build change) :=
  .of_run_ok fun _ => rfl

theorem Walk.takeText_failsAt : FailsAt P Walk.takeText := .of_run_ok fun _ => rfl

theorem Walk.compileNested_failsAt (compile : Compile Conversation) :
    FailsAt P (compileNested compile) := .of_run_ok fun _ => rfl

theorem Walk.evaluate_failsAt {e : Expr} (h : e.Spanned P) :
    FailsAt P (Walk.evaluate site scope e) := by
  intro s error hrun
  exact eval_failsAt h s.store error hrun

theorem Walk.inFrame_failsAt {body : ScopeId → Walk Unit} (h : ∀ scope, FailsAt P (body scope)) :
    FailsAt P (Walk.inFrame scope body) := by
  intro s error hrun
  rw [run_inFrame] at hrun
  exact h _ _ error hrun

theorem declare_failsAt {ident : Ident} (h : P ident.span) (value : Value) :
    FailsAt P (declare scope ident value) := by
  refine .bind .get fun state => ?_
  split
  · exact .of_run_ok fun _ => rfl
  · exact fail_failsAt h rfl

-- ---------------------------------------------------------------------------
-- Loops
-- ---------------------------------------------------------------------------

mutual

theorem bindPattern_failsAt (value : Value) :
    (pattern : Pattern) → pattern.Spanned P → FailsAt P (bindPattern scope value pattern)
  | .ident ident, h => by
    simp only [bindPattern]
    exact declare_failsAt h value
  | .object entries, h => by
    simp only [bindPattern]
    exact bindFields_failsAt value entries h
  | .array items, h => by
    simp only [bindPattern]
    exact bindItems_failsAt value 0 items h

theorem bindFields_failsAt (value : Value) :
    (entries : List (Ident × Pattern)) → Pattern.EntriesSpanned P entries →
      FailsAt P (bindFields scope value entries)
  | [], _ => by
    simp only [bindFields]
    exact .pure _
  | (key, pattern) :: rest, ⟨_, hpattern, hrest⟩ => by
    simp only [bindFields]
    exact .bind (bindPattern_failsAt _ pattern hpattern) fun _ => bindFields_failsAt value rest hrest

theorem bindItems_failsAt (value : Value) (index : Nat) :
    (items : List Pattern) → Pattern.ItemsSpanned P items →
      FailsAt P (bindItems scope value index items)
  | [], _ => by
    simp only [bindItems]
    exact .pure _
  | pattern :: rest, ⟨hpattern, hrest⟩ => by
    simp only [bindItems]
    exact .bind (bindPattern_failsAt _ pattern hpattern) fun _ => bindItems_failsAt value _ rest hrest

end

theorem bindIteration_failsAt {pattern : Pattern} {index : Option Ident}
    (hpattern : pattern.Spanned P) (hindex : ∀ i ∈ index, P i.span) (item : Value) (count : Nat) :
    FailsAt P (bindIteration scope pattern index item count) := by
  refine .bind (bindPattern_failsAt item pattern hpattern) fun _ => ?_
  split
  · exact declare_failsAt (hindex _ rfl) _
  · exact .pure _

theorem iterate_failsAt {body : Value → Nat → Walk Unit}
    (h : ∀ value count, FailsAt P (body value count)) (count : Nat) (items : List Value) :
    FailsAt P (iterate body count items) := by
  induction items generalizing count with
  | nil => exact .pure _
  | cons item rest ih => exact .bind (h item count) fun _ => ih _

-- ---------------------------------------------------------------------------
-- Attributes
-- ---------------------------------------------------------------------------

theorem attributeValue_failsAt {value : AttributeValue} (h : value.Spanned P) :
    FailsAt P (attributeValue site scope value) := by
  cases value with
  | flag => exact .pure _
  | literal text => exact .pure _
  | expression e => exact evaluate_failsAt h

theorem Tag.Spanned.attribute {name : String} {found : Attribute} (h : tag.Spanned P)
    (hfound : tag.attribute? name = some found) : found.Spanned P :=
  h.attributes found (List.mem_of_find?_eq_some hfound)

section
variable (htag : tag.Spanned P)
include htag

theorem attribute?_failsAt (name : String) : FailsAt P (attribute? site scope tag name) := by
  unfold attribute?
  split
  · rename_i hfound
    exact .bind (attributeValue_failsAt (htag.attribute hfound).2) fun _ => .pure _
  · exact .pure _

theorem textAttribute?_failsAt (name : String) :
    FailsAt P (textAttribute? site scope tag name) := by
  refine .bind (attribute?_failsAt htag name) fun value => ?_
  split <;> exact .pure _

theorem messageRole_failsAt (role : Option Role) :
    FailsAt P (messageRole site scope tag role) := by
  cases role with
  | some role => exact .pure role
  | none =>
    refine .bind (textAttribute?_failsAt htag "role") fun name => ?_
    split
    · exact fail_failsAt htag.head rfl
    · split
      · exact .pure _
      · exact fail_failsAt htag.head rfl

theorem toolId_failsAt (role : Role) : FailsAt P (toolId site scope tag role) := by
  unfold toolId
  split
  · refine .bind (textAttribute?_failsAt htag "id") fun id => ?_
    split
    · exact .pure _
    · exact fail_failsAt htag.head rfl
  · exact .pure _

theorem contentKind_failsAt (kind : Option ContentKind) : FailsAt P (contentKind tag kind) := by
  unfold contentKind
  split
  · exact .pure _
  · split
    · exact .pure _
    · rename_i hfound
      have hspan := (htag.attribute hfound).1
      dsimp only
      split
      · exact .pure _
      · exact fail_failsAt hspan rfl

theorem promptName_failsAt : FailsAt P (promptName tag) := by
  unfold promptName
  split
  · exact .pure _
  · exact fail_failsAt htag.head rfl

-- ---------------------------------------------------------------------------
-- Tags
-- ---------------------------------------------------------------------------

omit htag in
theorem Placement.admits_supported (p : Placement) :
    Supported p.admitsMessage ∧ Supported p.admitsContent ∧ Supported p.admitsToolCall ∧
      Supported p.admitsReference :=
  ⟨.ite (.error rfl) (.ok _), .ite (.error rfl) (.ok _),
    .ite (.error rfl) (.ite (.error rfl) (.ok _)), .ite (.error rfl) (.ok _)⟩

omit htag in
theorem readArguments_supported (text : String) : Supported (readArguments text) := by
  unfold readArguments
  dsimp only
  refine .ite (.ok _) ?_
  split
  · exact .ok _
  · exact .error rfl

omit htag in
theorem argumentsOfValue_supported (value : Value) : Supported (argumentsOfValue value) := by
  unfold argumentsOfValue
  split
  · exact .ok _
  · exact readArguments_supported _
  · exact .error rfl

omit htag in
theorem causeOfReference_supported (error : CompileError) :
    (causeOfReference error).isSupported := by
  unfold causeOfReference
  split <;> rfl

theorem walkMessage_failsAt (role : Option Role) {inside : Placement → Walk Unit}
    (hinside : ∀ q, FailsAt P (inside q)) : FailsAt P (walkMessage site p scope tag role inside) := by
  have hopen : FailsAt P (openMessage site p scope tag role) := by
    refine .bind (located_failsAt htag.head p.admits_supported.1) fun _ => ?_
    refine .bind (messageRole_failsAt htag role) fun role => ?_
    exact .bind (toolId_failsAt htag role) fun id => .bind (build_failsAt _) fun _ => .pure _
  exact .bind hopen fun role => .bind (hinside _) fun _ => build_failsAt _

theorem walkContent_failsAt (kind : Option ContentKind) {inside : Placement → Walk Unit}
    (hinside : ∀ q, FailsAt P (inside q)) : FailsAt P (walkContent p tag kind inside) := by
  have hopen : FailsAt P (openContent p tag kind) := by
    refine .bind (located_failsAt htag.head p.admits_supported.2.1) fun _ => ?_
    exact .bind (contentKind_failsAt htag kind) fun _ => .bind (build_failsAt _) fun _ => .pure _
  have hclose : ∀ kind, FailsAt P (closeContent kind)
    | .text => build_failsAt _
    | .image => .bind takeText_failsAt fun _ => build_failsAt _
  exact .bind hopen fun kind => .bind (hinside _) fun _ => hclose kind

theorem openToolCall_failsAt : FailsAt P (openToolCall site p scope tag isBlank) := by
  unfold openToolCall
  refine .bind (located_failsAt htag.head p.admits_supported.2.2.1) fun _ => ?_
  refine .bind (textAttribute?_failsAt htag "id") fun id => ?_
  cases id with
  | none => exact fail_failsAt htag.head rfl
  | some id =>
    refine .bind (textAttribute?_failsAt htag "name") fun name => ?_
    cases name with
    | none => exact fail_failsAt htag.head rfl
    | some name =>
      refine .bind (build_failsAt _) fun _ => .bind (attribute?_failsAt htag "arguments") ?_
      intro value
      cases value with
      | none => exact .pure _
      | some value =>
        dsimp only
        split
        · exact .bind (located_failsAt htag.head (argumentsOfValue_supported _)) fun _ => .pure _
        · exact fail_failsAt htag.head rfl

theorem walkToolCall_failsAt {inside : Placement → Walk Unit}
    (hinside : ∀ q, FailsAt P (inside q)) :
    FailsAt P (walkToolCall site p scope tag isBlank inside) := by
  refine .bind (openToolCall_failsAt htag) fun call => ?_
  split
  · exact build_failsAt _
  · refine .bind (hinside _) fun _ => .bind takeText_failsAt fun text => ?_
    exact .bind (located_failsAt htag.head (readArguments_supported _)) fun json => build_failsAt _

omit htag in
theorem extraBindings_failsAt {attributes : List Attribute} (h : ∀ a ∈ attributes, a.Spanned P) :
    FailsAt P (extraBindings site scope attributes) := by
  induction attributes with
  | nil => exact .pure _
  | cons first rest ih =>
    obtain ⟨hfirst, hrest⟩ := List.forall_mem_cons.mp h
    unfold extraBindings
    split
    · exact ih hrest
    · exact .bind (attributeValue_failsAt hfirst.2) fun _ => .bind (ih hrest) fun _ => .pure _

theorem openReference_failsAt (henter : ∀ prompt, Supported (site.enter prompt)) :
    FailsAt P (openReference site p scope tag isBlank) := by
  unfold openReference
  refine .bind (located_failsAt htag.head p.admits_supported.2.2.2) fun _ => ?_
  refine .bind (promptName_failsAt htag) fun prompt => ?_
  refine .bind (located_failsAt htag.head (.ite (.ok ()) (.error rfl))) fun _ => ?_
  cases site.host.resolve? with
  | none => exact fail_failsAt htag.head rfl
  | some answer =>
    refine .bind (located_failsAt htag.head (henter prompt)) fun entered => ?_
    refine .bind .get fun state => ?_
    refine .bind (extraBindings_failsAt htag.attributes) fun extra => ?_
    refine .bind (.bind .get fun state => .bind (.set _) fun _ => ?_) fun source => .pure _
    split
    · exact .pure _
    · exact fail_failsAt htag.head rfl

/-- An error inside the prompt is reported at the tag that refers to it. -/
theorem walkReference_failsAt {site : Site Compiler}
    (henter : ∀ prompt, Supported (site.enter prompt)) :
    FailsAt P (walkReference site p scope tag isBlank) := by
  refine .bind (openReference_failsAt htag henter) fun referral => ?_
  refine .bind (compileNested_failsAt _) fun result => ?_
  split
  · exact build_failsAt _
  · exact fail_failsAt htag.head (causeOfReference_supported _)

end

-- ---------------------------------------------------------------------------
-- The walk
-- ---------------------------------------------------------------------------

section
variable {site : Site Compiler}

mutual

theorem walk_failsAt (henter : ∀ prompt, Supported (site.enter prompt)) (p : Placement)
    (scope : ScopeId) :
    (node : Node) → node.Spanned P → node.Sectionless → FailsAt P (walk site p scope node)
  | .config _ _, _, hs => hs.elim
  | .text _ value, _, _ => by
    simp only [walk]
    exact build_failsAt _
  | .mustache _ e, ⟨_, he⟩, _ => by
    simp only [walk]
    refine .bind (evaluate_failsAt he) fun value => ?_
    split
    · exact build_failsAt _
    · exact .pure _
  | .ifBlock _ condition consequent alternates, ⟨_, hcondition, hconsequent, halternates⟩,
      ⟨hs, hs'⟩ => by
    simp only [walk]
    refine .bind (evaluate_failsAt hcondition) fun value => ?_
    split
    · exact inFrame_failsAt fun inner => walkAll_failsAt henter p inner consequent hconsequent hs
    · exact walkAlternates_failsAt henter p scope alternates halternates hs'
  | .eachBlock _ iterable item index body fallback,
      ⟨_, hiterable, hitem, hindex, hbody, hfallback⟩, ⟨hs, hs'⟩ => by
    simp only [walk]
    refine .bind (evaluate_failsAt hiterable) fun value => ?_
    split
    · exact walkFallback_failsAt henter p scope fallback hfallback hs'
    · refine iterate_failsAt (fun value count => inFrame_failsAt fun inner => ?_) _ _
      exact .bind (bindIteration_failsAt hitem hindex value count)
        fun _ => walkAll_failsAt henter p inner body hbody hs
  | .tag tag children, ⟨htag, hchildren⟩, hs => by
    simp only [walk]
    split
    · exact walkMessage_failsAt htag _ fun q => walkAll_failsAt henter q scope children hchildren hs
    · exact walkContent_failsAt htag _ fun q => walkAll_failsAt henter q scope children hchildren hs
    · exact walkToolCall_failsAt htag fun q => walkAll_failsAt henter q scope children hchildren hs
    · exact walkReference_failsAt htag henter
    · exact fail_failsAt htag.head rfl

theorem walkAll_failsAt (henter : ∀ prompt, Supported (site.enter prompt)) (p : Placement)
    (scope : ScopeId) :
    (nodes : List Node) → Node.AllSpanned P nodes → Node.AllSectionless nodes →
      FailsAt P (walkAll site p scope nodes)
  | [], _, _ => by
    simp only [walkAll]
    exact .pure _
  | node :: rest, ⟨hnode, hrest⟩, ⟨hs, hs'⟩ => by
    simp only [walkAll]
    exact .bind (walk_failsAt henter p scope node hnode hs) fun _ => walkAll_failsAt henter p scope rest hrest hs'

theorem walkAlternates_failsAt (henter : ∀ prompt, Supported (site.enter prompt)) (p : Placement)
    (scope : ScopeId) :
    (alternates : List Alternate) → Alternate.AllSpanned P alternates →
      Alternate.AllSectionless alternates → FailsAt P (walkAlternates site p scope alternates)
  | [], _, _ => by
    simp only [walkAlternates]
    exact .pure _
  | .elseIf condition body :: rest, ⟨hcondition, hbody, hrest⟩, ⟨hs, hs'⟩ => by
    simp only [walkAlternates]
    refine .bind (evaluate_failsAt hcondition) fun value => ?_
    split
    · exact inFrame_failsAt fun inner => walkAll_failsAt henter p inner body hbody hs
    · exact walkAlternates_failsAt henter p scope rest hrest hs'
  | .otherwise body :: _, ⟨hbody, _⟩, ⟨hs, _⟩ => by
    simp only [walkAlternates]
    exact inFrame_failsAt fun inner => walkAll_failsAt henter p inner body hbody hs

theorem walkFallback_failsAt (henter : ∀ prompt, Supported (site.enter prompt)) (p : Placement)
    (scope : ScopeId) :
    (fallback : Option (List Node)) → Node.FallbackSpanned P fallback →
      Node.FallbackSectionless fallback → FailsAt P (walkFallback site p scope fallback)
  | none, _, _ => by
    simp only [walkFallback]
    exact .pure _
  | some body, h, hs => by
    simp only [walkFallback]
    exact inFrame_failsAt fun inner => walkAll_failsAt henter p inner body h hs

end

end

-- ---------------------------------------------------------------------------
-- Documents
-- ---------------------------------------------------------------------------

theorem Document.compile_error {d : Document} {site : Site Compiler} {bindings : Dict Value}
    {history : History} {error : CompileError} (henter : ∀ prompt, Supported (site.enter prompt))
    (hd : Node.AllSpanned P d.nodes) (hs : Node.AllSectionless d.split.2)
    (h : (d.compile site bindings history).1 = .error error) :
    P error.location ∧ error.cause.isSupported := by
  have hnodes : Node.AllSpanned P d.split.2 := by
    unfold Document.split
    split
    · rename_i heq
      rw [heq] at hd
      exact hd.2
    · exact hd
  simp only [Document.compile, compileNodes] at h
  cases hrun : walkAll site .outermost ScopeTree.root d.split.2
      ⟨⟨.ofBindings bindings, history⟩, .empty⟩ with
  | mk result after =>
    rw [hrun] at h
    cases result with
    | ok => cases h
    | error found =>
      cases h
      exact walkAll_failsAt henter _ _ _ hnodes hs _ error (congrArg Prod.fst hrun)

theorem Cause.isSupported_of_isReadable {cause : Cause} (h : cause.isReadable) :
    cause.isSupported := by
  cases cause with
  | unsupportedNode => cases h
  | _ => rfl

theorem enterPrompt_supported (host : Host) (room : Nat) (prompts : List String) (prompt : String) :
    Supported (enterPrompt host room prompts prompt) := by
  cases room with
  | zero =>
    rw [enterPrompt]
    split <;> exact .error rfl
  | succ room =>
    rw [enterPrompt]
    exact .ite (.error rfl) (.ok _)

theorem compileDocument_error {host : Host} {room : Nat} {prompts : List String} {source : String}
    {bindings : Dict Value} {history : History} {error : CompileError}
    (h : (compileDocument host (enterPrompt host room prompts) source bindings history).1 =
      .error error) :
    error.location.From (.startOf source.toList) ∧
      error.code ≠ "unsupported-base-node-type" := by
  have hparse := parseDocument_located source
  unfold compileDocument at h
  cases hdocument : parseDocument source with
  | error found =>
    rw [hdocument] at h hparse
    cases h
    exact ⟨hparse, Cause.code_of_isSupported (Cause.isSupported_of_isReadable
      (parseDocument_readable hdocument))⟩
  | ok d =>
    rw [hdocument] at h hparse
    obtain ⟨hlocation, hcause⟩ := d.compile_error (enterPrompt_supported host room prompts) hparse
      (parseDocument_sectionless hdocument) h
    exact ⟨hlocation, Cause.code_of_isSupported hcause⟩

/-- Every error of a compile, also one from inside a referenced prompt, is located at a stretch of
the source that was compiled. -/
theorem compile_error_within (context : Context) (source : String) (error : CompileError)
    (h : (compile context source).1 = .error error) : error.location.Within source :=
  (compileDocument_error h).1.within

/-- Where a compile fails. -/
def errorLocation? (context : Context) (source : String) : Option Span :=
  match (compile context source).1 with
  | .ok _ => none
  | .error error => some error.location

/-- A name that is missing in another prompt is reported at the tag, behind a comment of two lines
and a letter of two bytes. -/
theorem compile_error_within_reference :
    let context : Context := ⟨[], standardHost (some [("a", .source "\x7bx\x7d")]), 2⟩
    let source := "/* é\n */ é\n<ref prompt=\"a\"/>"
    ∃ error, (compile context source).1 = .error error ∧ error.location = ⟨13, 30, 3, 1⟩ ∧
      error.location.Within source := by
  intro context source
  have hlocation : errorLocation? context source = some ⟨13, 30, 3, 1⟩ := by
    unfold context source
    decide +kernel
  unfold errorLocation? at hlocation
  cases h : (compile context source).1 with
  | ok conversation =>
    rw [h] at hlocation
    cases hlocation
  | error error =>
    rw [h] at hlocation
    exact ⟨error, rfl, Option.some.inj hlocation, compile_error_within context source error h⟩

/-! ## Lexer and parser in step

The lexer decides by its modes which tokens come, the parser by what it has
read. They agree on where text is, so some ways to fail exist in the program
and in no run of it (`parse_in_step`). -/

/-- Whenever the reader of nodes looks for the next one, the lexer is in text: a watcher that lets
these places pass makes no difference. So it never finds that a text should be there, no section
gets behind the first node or inside one, and no prompt, referred to or not, is found to contain a
node that has no meaning where it stands. -/
theorem parse_in_step (source : String) :
    (∀ watch : Parser Unit,
      (∀ l, Lexer.Comes source [] l → watch l.stream = .ok ((), l.stream)) →
        Prod.fst <$> (Document.watchedParser watch).run (Lexer.document source).stream =
          parseDocument source) ∧
    (∀ error, parseDocument source = .error error →
      error.cause ≠ .unexpected "text" ∧ error.cause ≠ .unexpectedEnd "text") ∧
    (∀ document, parseDocument source = .ok document → Node.AllSectionless document.split.2) ∧
    (∀ context error, (compile context source).1 = .error error →
      error.code ≠ "unsupported-base-node-type") ∧
    ∀ host room prompts prompt compiler, enterPrompt host room prompts prompt = .ok compiler →
      ∀ bindings history error, (compiler source bindings history).1 = .error error →
        error.code ≠ "unsupported-base-node-type" := by
  refine ⟨fun watch hwatch => (parseDocument_watched hwatch).1, fun error herror => ?_,
    fun document => parseDocument_sectionless, fun context error h => (compileDocument_error h).2, ?_⟩
  · have hreadable := parseDocument_readable herror
    constructor <;>
    · intro hcause
      rw [hcause] at hreadable
      exact absurd hreadable (by decide)
  · intro host room prompts prompt compiler henter bindings history error h
    cases room with
    | zero => cases henter
    | succ room =>
      rw [enterPrompt] at henter
      split at henter
      · cases henter
      · cases henter
        exact (compileDocument_error h).2

end PromptTemplate
