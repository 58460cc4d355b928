import PromptTemplate.Proofs.Eval.Paired
import PromptTemplate.Proofs.Walk.Run

/-!
# Two walks through a document

A document does the same in alike scopes, wherever it stands in its text
(`walk_paired`, `compileNodes_paired`). References have to be answered and entered
alike, and start with the same variables, where there are any.
-/

namespace PromptTemplate

open PromptTemplate.Action (Paired)

/-- Walks with related scopes that have built the same so far. -/
structure WalkState.Alike (R : ScopeTree → ScopeTree → Prop) (s s' : WalkState) : Prop where
  store : s.store.Alike R s'.store
  builder : s'.builder = s.builder

/-- Sites with one host to call, and texts with the same expressions. -/
structure Site.Alike {γ : Type} (N : String → Prop) (S : ScopeId → ScopeId → Prop)
    (R : ScopeTree → ScopeTree → Prop) (T : Action.Pairing) (site site' : Site γ) : Prop where
  scopes : ScopeTree.Alike N S R
  call : site'.host.call = site.host.call
  snippet : ∀ cause ∈ [Cause.spreadNotIterable, Cause.spreadNotObject], ∀ span,
    T.Errors ⟨cause (Text.trim (span.textOf site.source)), span⟩
      ⟨cause (Text.trim ((T.span span).textOf site'.source)), T.span span⟩

/-- A reference is answered and entered alike, and sees the same variables. -/
structure Site.RefersAlike {γ : Type} (S : ScopeId → ScopeId → Prop)
    (R : ScopeTree → ScopeTree → Prop) (site site' : Site γ) : Prop where
  enter : site'.enter = site.enter
  answer : site'.host.resolve? = site.host.resolve?
  snapshot : ∀ {t t' : ScopeTree}, R t t' → ∀ {scope scope'}, S scope scope' →
    t'.snapshot scope' = t.snapshot scope

variable {T : Action.Pairing} {R : ScopeTree → ScopeTree → Prop} {S : ScopeId → ScopeId → Prop}
  {N : String → Prop} {γ : Type} {site site' : Site γ} {scope scope' : ScopeId}

theorem Site.Alike.scene (h : Site.Alike N S R T site site') (hscope : S scope scope') :
    Scene.Alike N S R T ⟨site.source, site.host, scope⟩ ⟨site'.source, site'.host, scope'⟩ where
  sees := h.scopes.toSees
  scope := hscope
  call := h.call
  snippet := h.snippet

-- ---------------------------------------------------------------------------
-- What a walk is made of
-- ---------------------------------------------------------------------------

namespace Walk

theorem located_paired (span : Span) (x : Except Cause α) :
    Paired T (WalkState.Alike R) (located span x) (located (T.span span) x) := by
  cases x with
  | ok a => exact .pure a
  | error cause => exact .throw cause span

theorem build_paired (change : Builder → Builder) :
    Paired T (WalkState.Alike R) (build change) (build change) := by
  intro s s' hs
  rw [run_build, run_build]
  exact ⟨.ok _, hs.store, congrArg change hs.builder⟩

theorem takeText_paired : Paired T (WalkState.Alike R) takeText takeText := by
  intro s s' hs
  rw [run_takeText, run_takeText, hs.builder]
  exact ⟨.ok _, hs.store, rfl⟩

theorem evaluate_paired_of_scene
    (h : Scene.Alike N S R T ⟨site.source, site.host, scope⟩ ⟨site'.source, site'.host, scope'⟩)
    {e : Expr} (hnames : ∀ name ∈ e.names, N name)
    (hw : ∀ target ∈ e.targets, ScopeTree.Alike N S R) :
    Paired T (WalkState.Alike R) (evaluate site scope e)
      (evaluate site' scope' (e.mapSpans T.span)) := by
  intro s s' hs
  obtain ⟨houtcome, hafter⟩ := eval_paired h hnames hw s.store s'.store hs.store
  exact ⟨houtcome, hafter, hs.builder⟩

theorem evaluate_paired (h : Site.Alike N S R T site site') (hscope : S scope scope') {e : Expr}
    (hnames : ∀ name ∈ e.names, N name) :
    Paired T (WalkState.Alike R) (evaluate site scope e)
      (evaluate site' scope' (e.mapSpans T.span)) :=
  evaluate_paired_of_scene (h.scene hscope) hnames fun _ _ => h.scopes

theorem inFrame_paired (hR : ScopeTree.Alike N S R) {parent parent' : ScopeId}
    (henter : ∀ {t t' : ScopeTree}, R t t' →
      ScopeTree.EntersAlike S R (t.enter parent) (t'.enter parent'))
    {body body' : ScopeId → Walk Unit}
    (hbody : ∀ {scope scope'}, S scope scope' → scope ≠ ScopeTree.root →
      Paired T (WalkState.Alike R) (body scope) (body' scope')) :
    Paired T (WalkState.Alike R) (inFrame parent body) (inFrame parent' body') := by
  intro s s' hs
  obtain ⟨hroot, hscope, htree⟩ := henter hs.store.scopes
  rw [run_inFrame, run_inFrame]
  dsimp only
  obtain ⟨houtcome, hafter⟩ := hbody hscope hroot
    { s with store := { s.store with scopes := (s.store.scopes.enter parent).2 } }
    { s' with store := { s'.store with scopes := (s'.store.scopes.enter parent').2 } }
    ⟨⟨htree, hs.store.history⟩, hs.builder⟩
  exact ⟨houtcome, ⟨hR.exit hafter.store.scopes hscope hroot, hafter.store.history⟩,
    hafter.builder⟩

theorem compileNested_paired (compile : Compile Conversation) :
    Paired T (WalkState.Alike R) (compileNested compile) (compileNested compile) := by
  intro s s' hs
  rw [run_compileNested, run_compileNested, hs.store.history]
  exact ⟨.ok _, ⟨hs.store.scopes, rfl⟩, hs.builder⟩

end Walk

open Walk

theorem declare_paired (hR : ScopeTree.Alike N S R) (hscope : S scope scope')
    (hroot : scope ≠ ScopeTree.root) (ident : Ident) (value : Value) :
    Paired T (WalkState.Alike R) (declare scope ident value)
      (declare scope' (ident.mapSpans T.span) value) := by
  intro s s' hs
  have hdeclare := hR.declare hs.store.scopes hscope hroot ident.name value
  rw [run_declare, run_declare]
  dsimp only [Ident.mapSpans]
  generalize s.store.scopes.declare? scope ident.name value = outcome at hdeclare
  generalize s'.store.scopes.declare? scope' ident.name value = outcome' at hdeclare
  cases hdeclare with
  | some h => exact ⟨.ok _, ⟨h, hs.store.history⟩, hs.builder⟩
  | none => exact ⟨.error (T.errors _ ident.span), hs⟩

theorem resolve_paired (answer : History → String → Except HostError String) (span : Span)
    (prompt : String) :
    Paired T (WalkState.Alike R) (resolve answer span prompt) (resolve answer (T.span span) prompt) := by
  intro s s' hs
  rw [run_resolve, run_resolve, hs.store.history]
  refine ⟨?_, ⟨hs.store.scopes, rfl⟩, hs.builder⟩
  dsimp only
  cases answer s.store.history prompt with
  | ok source => exact .ok _
  | error error => exact .error (T.errors _ span)

-- ---------------------------------------------------------------------------
-- Loops
-- ---------------------------------------------------------------------------

mutual

theorem bindPattern_paired (hR : ScopeTree.Alike N S R) (hscope : S scope scope')
    (hroot : scope ≠ ScopeTree.root) (value : Value) : (pattern : Pattern) →
    Paired T (WalkState.Alike R) (bindPattern scope value pattern)
      (bindPattern scope' value (pattern.mapSpans T.span))
  | .ident ident => by
    simp only [Pattern.mapSpans, bindPattern]
    exact declare_paired hR hscope hroot ident value
  | .object entries => by
    simp only [Pattern.mapSpans, bindPattern]
    exact bindFields_paired hR hscope hroot value entries
  | .array items => by
    simp only [Pattern.mapSpans, bindPattern]
    exact bindItems_paired hR hscope hroot value 0 items

theorem bindFields_paired (hR : ScopeTree.Alike N S R) (hscope : S scope scope')
    (hroot : scope ≠ ScopeTree.root) (value : Value) :
    (entries : List (Ident × Pattern)) →
    Paired T (WalkState.Alike R) (bindFields scope value entries)
      (bindFields scope' value (Pattern.mapSpansEntries T.span entries))
  | [] => by
    simp only [Pattern.mapSpansEntries, bindFields]
    exact .pure _
  | (key, pattern) :: rest => by
    simp only [Pattern.mapSpansEntries, bindFields]
    exact .bind (bindPattern_paired hR hscope hroot _ pattern) fun _ =>
      bindFields_paired hR hscope hroot value rest

theorem bindItems_paired (hR : ScopeTree.Alike N S R) (hscope : S scope scope')
    (hroot : scope ≠ ScopeTree.root) (value : Value) (index : Nat) :
    (items : List Pattern) →
    Paired T (WalkState.Alike R) (bindItems scope value index items)
      (bindItems scope' value index (Pattern.mapSpansItems T.span items))
  | [] => by
    simp only [Pattern.mapSpansItems, bindItems]
    exact .pure _
  | pattern :: rest => by
    simp only [Pattern.mapSpansItems, bindItems]
    exact .bind (bindPattern_paired hR hscope hroot _ pattern) fun _ =>
      bindItems_paired hR hscope hroot value _ rest

end

theorem bindIteration_paired (hR : ScopeTree.Alike N S R) (hscope : S scope scope')
    (hroot : scope ≠ ScopeTree.root) (pattern : Pattern) (index : Option Ident) (item : Value)
    (count : Nat) :
    Paired T (WalkState.Alike R) (bindIteration scope pattern index item count)
      (bindIteration scope' (pattern.mapSpans T.span) (index.map (Ident.mapSpans T.span)) item
        count) := by
  refine .bind (bindPattern_paired hR hscope hroot item pattern) fun _ => ?_
  cases index with
  | some ident => exact declare_paired hR hscope hroot ident _
  | none => exact .pure _

theorem iterate_paired {body body' : Value → Nat → Walk Unit}
    (hbody : ∀ item count, Paired T (WalkState.Alike R) (body item count) (body' item count))
    (count : Nat) (items : List Value) :
    Paired T (WalkState.Alike R) (iterate body count items) (iterate body' count items) := by
  induction items generalizing count with
  | nil => exact .pure _
  | cons item rest ih => exact .bind (hbody item count) fun _ => ih _

-- ---------------------------------------------------------------------------
-- Attributes
-- ---------------------------------------------------------------------------

theorem attributeValue_paired (h : Site.Alike N S R T site site') (hscope : S scope scope')
    {value : AttributeValue} (hnames : ∀ name ∈ value.names, N name) :
    Paired T (WalkState.Alike R) (attributeValue site scope value)
      (attributeValue site' scope' (value.mapSpans T.span)) := by
  cases value with
  | flag => exact .pure _
  | literal text => exact .pure _
  | expression e => exact evaluate_paired h hscope hnames

/-- The names in an attribute are among those of the tag. -/
theorem Tag.names_of_attribute {tag : Tag} (hnames : ∀ name ∈ tag.names, N name)
    {found : Attribute} (hfound : found ∈ tag.attributes) : ∀ name ∈ found.value.names, N name :=
  fun name hname => hnames name (List.mem_flatMap.2 ⟨found, hfound, hname⟩)

section
variable (h : Site.Alike N S R T site site') (hscope : S scope scope') {tag : Tag}
  (hnames : ∀ name ∈ tag.names, N name)
include h hscope hnames

theorem attribute?_paired (name : String) :
    Paired T (WalkState.Alike R) (attribute? site scope tag name)
      (attribute? site' scope' (tag.mapSpans T.span) name) := by
  unfold attribute?
  rw [Tag.attribute?_mapSpans]
  cases hfound : tag.attribute? name with
  | none => exact .pure _
  | some found =>
    have hvalue := Tag.names_of_attribute hnames (List.mem_of_find?_eq_some hfound)
    exact .bind (attributeValue_paired h hscope hvalue) fun _ => .pure _

theorem textAttribute?_paired (name : String) :
    Paired T (WalkState.Alike R) (textAttribute? site scope tag name)
      (textAttribute? site' scope' (tag.mapSpans T.span) name) := by
  unfold textAttribute?
  refine .bind (attribute?_paired h hscope hnames name) fun value => ?_
  split <;> exact .pure _

theorem messageRole_paired (role : Option Role) :
    Paired T (WalkState.Alike R) (messageRole site scope tag role)
      (messageRole site' scope' (tag.mapSpans T.span) role) := by
  cases role with
  | some role => exact .pure role
  | none =>
    refine .bind (textAttribute?_paired h hscope hnames "role") fun name => ?_
    split
    · exact .throw _ tag.span
    · split
      · exact .pure _
      · exact .throw _ tag.span

theorem toolId_paired (role : Role) :
    Paired T (WalkState.Alike R) (toolId site scope tag role)
      (toolId site' scope' (tag.mapSpans T.span) role) := by
  unfold toolId
  split
  · refine .bind (textAttribute?_paired h hscope hnames "id") fun id => ?_
    split
    · exact .pure _
    · exact .throw _ tag.span
  · exact .pure _

end

theorem contentKind_paired (tag : Tag) (kind : Option ContentKind) :
    Paired T (WalkState.Alike R) (contentKind tag kind) (contentKind (tag.mapSpans T.span) kind) := by
  cases kind with
  | some kind => exact .pure kind
  | none =>
    unfold contentKind
    rw [Tag.attribute?_mapSpans]
    cases tag.attribute? "type" with
    | none => exact .pure _
    | some found =>
      obtain ⟨name, span, value⟩ := found
      cases value with
      | literal text =>
        simp only [Option.map_some, Attribute.mapSpans, AttributeValue.mapSpans]
        split
        · exact .pure _
        · exact .throw _ span
      | flag | expression e =>
        simp only [Option.map_some, Attribute.mapSpans, AttributeValue.mapSpans]
        split
        · exact .pure _
        · exact .throw _ span

-- ---------------------------------------------------------------------------
-- Tags
-- ---------------------------------------------------------------------------

section
variable (h : Site.Alike N S R T site site') (p : Placement) (hscope : S scope scope') {tag : Tag}
  (hnames : ∀ name ∈ tag.names, N name)
include h hscope hnames

theorem walkMessage_paired (role : Option Role) {inside inside' : Placement → Walk Unit}
    (hinside : ∀ p, Paired T (WalkState.Alike R) (inside p) (inside' p)) :
    Paired T (WalkState.Alike R) (walkMessage site p scope tag role inside)
      (walkMessage site' p scope' (tag.mapSpans T.span) role inside') := by
  refine .bind ?_ fun role => .bind (hinside _) fun _ => build_paired _
  refine .bind (located_paired tag.span _) fun _ => ?_
  refine .bind (messageRole_paired h hscope hnames role) fun role => ?_
  refine .bind (toolId_paired h hscope hnames role) fun id => ?_
  exact .bind (build_paired _) fun _ => .pure _

theorem openToolCall_paired (isBlank : Bool) :
    Paired T (WalkState.Alike R) (openToolCall site p scope tag isBlank)
      (openToolCall site' p scope' (tag.mapSpans T.span) isBlank) := by
  unfold openToolCall
  refine .bind (located_paired tag.span _) fun _ => ?_
  refine .bind (textAttribute?_paired h hscope hnames "id") fun id => ?_
  cases id with
  | none => exact .throw _ tag.span
  | some id =>
    refine .bind (textAttribute?_paired h hscope hnames "name") fun name => ?_
    cases name with
    | none => exact .throw _ tag.span
    | some name =>
      refine .bind (build_paired _) fun _ => ?_
      refine .bind (attribute?_paired h hscope hnames "arguments") fun value => ?_
      cases value with
      | none => exact .pure _
      | some value =>
        dsimp only
        split
        · exact .bind (located_paired tag.span _) fun _ => .pure _
        · exact .throw _ tag.span

theorem walkToolCall_paired (isBlank : Bool) {inside inside' : Placement → Walk Unit}
    (hinside : ∀ p, Paired T (WalkState.Alike R) (inside p) (inside' p)) :
    Paired T (WalkState.Alike R) (walkToolCall site p scope tag isBlank inside)
      (walkToolCall site' p scope' (tag.mapSpans T.span) isBlank inside') := by
  refine .bind (openToolCall_paired h p hscope hnames isBlank) fun call => ?_
  cases call.arguments with
  | some arguments => exact build_paired _
  | none =>
    refine .bind (hinside _) fun _ => .bind takeText_paired fun text => ?_
    exact .bind (located_paired tag.span _) fun _ => build_paired _

end

theorem walkContent_paired (p : Placement) (tag : Tag) (kind : Option ContentKind)
    {inside inside' : Placement → Walk Unit}
    (hinside : ∀ p, Paired T (WalkState.Alike R) (inside p) (inside' p)) :
    Paired T (WalkState.Alike R) (walkContent p tag kind inside)
      (walkContent p (tag.mapSpans T.span) kind inside') := by
  refine .bind ?_ fun kind => .bind (hinside _) fun _ => ?_
  · refine .bind (located_paired tag.span _) fun _ => ?_
    exact .bind (contentKind_paired tag kind) fun _ => .bind (build_paired _) fun _ => .pure _
  · cases kind with
    | text => exact build_paired _
    | image => exact .bind takeText_paired fun _ => build_paired _

-- ---------------------------------------------------------------------------
-- References
-- ---------------------------------------------------------------------------

theorem promptName_paired (tag : Tag) :
    Paired T (WalkState.Alike R) (promptName tag) (promptName (tag.mapSpans T.span)) := by
  unfold promptName
  rw [Tag.attribute?_mapSpans]
  cases tag.attribute? "prompt" with
  | none => exact .throw _ tag.span
  | some found =>
    obtain ⟨name, span, value⟩ := found
    cases value with
    | literal text => exact .pure _
    | flag | expression e => exact .throw _ tag.span

theorem extraBindings_paired (h : Site.Alike N S R T site site') (hscope : S scope scope')
    {attributes : List Attribute}
    (hnames : ∀ found ∈ attributes, ∀ name ∈ found.value.names, N name) :
    Paired T (WalkState.Alike R) (extraBindings site scope attributes)
      (extraBindings site' scope' (attributes.map (Attribute.mapSpans T.span))) := by
  induction attributes with
  | nil => exact .pure _
  | cons first rest ih =>
    obtain ⟨name, span, value⟩ := first
    rw [List.forall_mem_cons] at hnames
    simp only [List.map_cons, Attribute.mapSpans, extraBindings]
    split
    · exact ih hnames.2
    · exact .bind (attributeValue_paired h hscope hnames.1) fun _ =>
        .bind (ih hnames.2) fun _ => .pure _

theorem openReference_paired (h : Site.Alike N S R T site site') (hrefers : site.RefersAlike S R site')
    (p : Placement) (hscope : S scope scope') {tag : Tag} (hnames : ∀ name ∈ tag.names, N name)
    (isBlank : Bool) :
    Paired T (WalkState.Alike R) (openReference site p scope tag isBlank)
      (openReference site' p scope' (tag.mapSpans T.span) isBlank) := by
  unfold openReference
  rw [hrefers.answer, hrefers.enter]
  refine .bind (located_paired tag.span _) fun _ => .bind (promptName_paired tag) fun prompt => ?_
  refine .bind (located_paired tag.span _) fun _ => ?_
  cases site.host.resolve? with
  | none => exact .throw _ tag.span
  | some answer =>
    refine .bind (located_paired tag.span _) fun entered => ?_
    refine .get_bind fun s s' hs => ?_
    rw [hrefers.snapshot hs.store.scopes hscope]
    have hattributes : ∀ found ∈ tag.attributes, ∀ name ∈ found.value.names, N name :=
      fun _ => Tag.names_of_attribute hnames
    refine .bind (extraBindings_paired h hscope hattributes) fun extra => ?_
    exact .bind (resolve_paired answer tag.span prompt) fun _ => .pure _

section
variable {site site' : Site Compiler}

theorem walkReference_paired (h : Site.Alike N S R T site site') (hrefers : site.RefersAlike S R site')
    (p : Placement) (hscope : S scope scope') {tag : Tag} (hnames : ∀ name ∈ tag.names, N name)
    (isBlank : Bool) :
    Paired T (WalkState.Alike R) (walkReference site p scope tag isBlank)
      (walkReference site' p scope' (tag.mapSpans T.span) isBlank) := by
  refine .bind (openReference_paired h hrefers p hscope hnames isBlank) fun referral => ?_
  refine .bind (compileNested_paired _) fun result => ?_
  cases result with
  | ok conversation => exact build_paired _
  | error error => exact .throw _ tag.span

-- ---------------------------------------------------------------------------
-- The walk
-- ---------------------------------------------------------------------------

mutual

theorem walk_paired (h : Site.Alike N S R T site site') (p : Placement)
    {scope scope' : ScopeId} (hscope : S scope scope') :
    (node : Node) → (∀ name ∈ node.names, N name) →
      (node.refers = true → site.RefersAlike S R site') →
      Paired T (WalkState.Alike R) (walk site p scope node)
        (walk site' p scope' (node.mapSpans T.span))
  | .config span entries, _, _ => by
    simp only [Node.mapSpans, walk]
    exact .throw _ span
  | .text _ value, _, _ => by
    simp only [Node.mapSpans, walk]
    exact build_paired _
  | .mustache _ e, hnames, _ => by
    simp only [Node.mapSpans, walk, Expr.isSideEffect_mapSpans]
    refine .bind (evaluate_paired h hscope hnames) fun value => ?_
    split
    · exact build_paired _
    · exact .pure _
  | .ifBlock _ condition consequent alternates, hnames, hrefers => by
    obtain ⟨hfirst, halternates⟩ := List.forall_mem_append.1 hnames
    obtain ⟨hcondition, hconsequent⟩ := List.forall_mem_append.1 hfirst
    simp only [Node.refers, Bool.or_eq_true] at hrefers
    simp only [Node.mapSpans, walk]
    refine .bind (evaluate_paired h hscope hcondition) fun value => ?_
    split
    · exact inFrame_paired h.scopes (h.scopes.enter · hscope) fun hinner _ =>
        walkAll_paired h p hinner consequent hconsequent fun hc => hrefers (.inl hc)
    · exact walkAlternates_paired h p hscope alternates halternates fun ha => hrefers (.inr ha)
  | .eachBlock _ iterable item index body fallback, hnames, hrefers => by
    obtain ⟨hfirst, hfallback⟩ := List.forall_mem_append.1 hnames
    obtain ⟨hiterable, hbody⟩ := List.forall_mem_append.1 hfirst
    simp only [Node.refers, Bool.or_eq_true] at hrefers
    simp only [Node.mapSpans, walk]
    refine .bind (evaluate_paired h hscope hiterable) fun value => ?_
    split
    · exact walkFallback_paired h p hscope fallback hfallback fun hf => hrefers (.inr hf)
    · refine iterate_paired (fun value count => ?_) _ _
      refine inFrame_paired h.scopes (h.scopes.enter · hscope) fun hinner hroot => ?_
      refine .bind (bindIteration_paired h.scopes hinner hroot item index value count) fun _ => ?_
      exact walkAll_paired h p hinner body hbody fun hb => hrefers (.inl hb)
  | .tag head children, hnames, hrefers => by
    obtain ⟨hhead, hchildren⟩ := List.forall_mem_append.1 hnames
    simp only [Node.refers, Bool.or_eq_true, decide_eq_true_eq] at hrefers
    have hinside (p : Placement) := walkAll_paired h p hscope children hchildren fun hc =>
      hrefers (.inr hc)
    have hkind : (head.mapSpans T.span).kind = head.kind := rfl
    simp only [Node.mapSpans, walk, hkind, Node.all_isBlankText_mapSpans]
    cases hk : head.kind with
    | message role => exact walkMessage_paired h p hscope hhead role hinside
    | content kind => exact walkContent_paired p head kind hinside
    | toolCall => exact walkToolCall_paired h p hscope hhead _ hinside
    | reference => exact walkReference_paired h (hrefers (.inl hk)) p hscope hhead _
    | generic => exact .throw _ head.span

theorem walkAll_paired (h : Site.Alike N S R T site site') (p : Placement)
    {scope scope' : ScopeId} (hscope : S scope scope') :
    (nodes : List Node) → (∀ name ∈ Node.namesAll nodes, N name) →
      (Node.anyRefers nodes = true → site.RefersAlike S R site') →
      Paired T (WalkState.Alike R) (walkAll site p scope nodes)
        (walkAll site' p scope' (Node.mapSpansAll T.span nodes))
  | [], _, _ => by
    simp only [Node.mapSpansAll, walkAll]
    exact .pure _
  | node :: rest, hnames, hrefers => by
    obtain ⟨hnode, hrest⟩ := List.forall_mem_append.1 hnames
    simp only [Node.anyRefers, Bool.or_eq_true] at hrefers
    simp only [Node.mapSpansAll, walkAll]
    refine .bind (walk_paired h p hscope node hnode fun hn => hrefers (.inl hn)) fun _ => ?_
    exact walkAll_paired h p hscope rest hrest fun hr => hrefers (.inr hr)

theorem walkAlternates_paired (h : Site.Alike N S R T site site') (p : Placement)
    {scope scope' : ScopeId} (hscope : S scope scope') :
    (alternates : List Alternate) → (∀ name ∈ Alternate.namesAll alternates, N name) →
      (Alternate.anyRefers alternates = true → site.RefersAlike S R site') →
      Paired T (WalkState.Alike R) (walkAlternates site p scope alternates)
        (walkAlternates site' p scope' (Alternate.mapSpansAll T.span alternates))
  | [], _, _ => by
    simp only [Alternate.mapSpansAll, walkAlternates]
    exact .pure _
  | .elseIf condition body :: rest, hnames, hrefers => by
    obtain ⟨hfirst, hrest⟩ := List.forall_mem_append.1 hnames
    obtain ⟨hcondition, hbody⟩ := List.forall_mem_append.1 hfirst
    simp only [Alternate.anyRefers, Bool.or_eq_true] at hrefers
    simp only [Alternate.mapSpansAll, walkAlternates]
    refine .bind (evaluate_paired h hscope hcondition) fun value => ?_
    split
    · exact inFrame_paired h.scopes (h.scopes.enter · hscope) fun hinner _ =>
        walkAll_paired h p hinner body hbody fun hb => hrefers (.inl hb)
    · exact walkAlternates_paired h p hscope rest hrest fun hr => hrefers (.inr hr)
  | .otherwise body :: rest, hnames, hrefers => by
    obtain ⟨hbody, -⟩ := List.forall_mem_append.1 hnames
    simp only [Alternate.anyRefers, Bool.or_eq_true] at hrefers
    simp only [Alternate.mapSpansAll, walkAlternates]
    exact inFrame_paired h.scopes (h.scopes.enter · hscope) fun hinner _ =>
      walkAll_paired h p hinner body hbody fun hb => hrefers (.inl hb)

theorem walkFallback_paired (h : Site.Alike N S R T site site') (p : Placement)
    {scope scope' : ScopeId} (hscope : S scope scope') :
    (fallback : Option (List Node)) → (∀ name ∈ Node.namesFallback fallback, N name) →
      (Node.fallbackRefers fallback = true → site.RefersAlike S R site') →
      Paired T (WalkState.Alike R) (walkFallback site p scope fallback)
        (walkFallback site' p scope' (Node.mapSpansFallback T.span fallback))
  | none, _, _ => by
    simp only [Node.mapSpansFallback, walkFallback]
    exact .pure _
  | some body, hnames, hrefers => by
    simp only [Node.mapSpansFallback, walkFallback]
    exact inFrame_paired h.scopes (h.scopes.enter · hscope) fun hinner _ => walkAll_paired h p hinner body hnames hrefers

end

/-- Two compilations of nodes from alike stores come to the same, and make the
same calls. -/
theorem compileNodes_paired (h : Site.Alike N S R T site site')
    (hroot : S ScopeTree.root ScopeTree.root) {nodes : List Node}
    (hnames : ∀ name ∈ Node.namesAll nodes, N name)
    (hrefers : Node.anyRefers nodes = true → site.RefersAlike S R site') :
    Paired T (Store.Alike R) (compileNodes site nodes)
      (compileNodes site' (Node.mapSpansAll T.span nodes)) := by
  intro s s' hs
  obtain ⟨houtcome, hafter⟩ := walkAll_paired h .outermost hroot nodes hnames hrefers
    ⟨s, .empty⟩ ⟨s', .empty⟩ ⟨hs, rfl⟩
  unfold compileNodes
  generalize walkAll site .outermost ScopeTree.root nodes ⟨s, .empty⟩ = first at *
  generalize walkAll site' .outermost ScopeTree.root (Node.mapSpansAll T.span nodes) ⟨s', .empty⟩ =
    second at *
  obtain ⟨result, after⟩ := first
  obtain ⟨result', after'⟩ := second
  dsimp only at houtcome hafter ⊢
  refine ⟨?_, hafter.store⟩
  rw [hafter.builder]
  cases houtcome with
  | ok => exact .ok _
  | error h => exact .error h

end

/-- The same bindings and site, and another text that has the same expressions. -/
theorem compileNodes_source_paired {site : Site Compiler} {source : String}
    (h : Site.Alike (fun _ => True) Eq ScopeTree.Same T site { site with source }) (nodes : List Node)
    (bindings : Dict Value) (history : History) :
    let first := compileNodes site nodes ⟨.ofBindings bindings, history⟩
    let second := compileNodes { site with source } (Node.mapSpansAll T.span nodes)
      ⟨.ofBindings bindings, history⟩
    T.Outcomes first.1 second.1 ∧ second.2.history = first.2.history := by
  have hrefers : Node.anyRefers nodes = true →
      site.RefersAlike Eq ScopeTree.Same { site with source } :=
    fun _ => ⟨rfl, rfl, fun hsame _ _ hscope => by rw [hsame.1, hscope]⟩
  obtain ⟨houtcome, hafter⟩ := compileNodes_paired h rfl (fun _ _ => trivial) hrefers
    ⟨.ofBindings bindings, history⟩ ⟨.ofBindings bindings, history⟩
    ⟨⟨rfl, List.cons_ne_nil _ _⟩, rfl⟩
  exact ⟨houtcome, hafter.history⟩

end PromptTemplate
