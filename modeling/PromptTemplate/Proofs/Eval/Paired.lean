import PromptTemplate.Proofs.Action
import PromptTemplate.Proofs.Eval.Closed
import PromptTemplate.Proofs.Scope.Alike

/-!
# Two evaluations of an expression

An expression does the same in alike scopes, wherever it stands: it has the
same value and makes the same calls, or it fails for the same reason at the
place that the second text has for it (`eval_paired`). If it writes nothing, it
is enough that the scopes give its names the same values.
-/

namespace PromptTemplate

open PromptTemplate.Action (Paired)

/-- Stores with related scopes and one history. -/
structure Store.Alike (R : ScopeTree → ScopeTree → Prop) (s s' : Store) : Prop where
  scopes : R s.scopes s'.scopes
  history : s'.history = s.history

/-- Scenes of one host in frames that see the same values of the names `N`, in texts that have the
same expressions at places that belong to each other. -/
structure Scene.Alike (N : String → Prop) (S : ScopeId → ScopeId → Prop)
    (R : ScopeTree → ScopeTree → Prop) (T : Action.Pairing) (scene scene' : Scene) : Prop where
  sees : ScopeTree.Sees N S R
  scope : S scene.scope scene'.scope
  call : scene'.host.call = scene.host.call
  snippet : ∀ cause ∈ [Cause.spreadNotIterable, Cause.spreadNotObject], ∀ span,
    T.Errors ⟨cause (scene.snippet span), span⟩ ⟨cause (scene'.snippet (T.span span)), T.span span⟩

variable {T : Action.Pairing} {R : ScopeTree → ScopeTree → Prop} {S : ScopeId → ScopeId → Prop}
  {N : String → Prop} {scene scene' : Scene}

-- ---------------------------------------------------------------------------
-- What evaluation is made of
-- ---------------------------------------------------------------------------

theorem Scene.lookup_paired (h : Scene.Alike N S R T scene scene') (span : Span) {name : String}
    (hname : N name) :
    Paired T (Store.Alike R) (scene.lookup span name) (scene'.lookup (T.span span) name) := by
  intro s s' hs
  unfold Scene.lookup
  rw [Action.run_bind, Action.run_bind, Action.run_get, Action.run_get]
  dsimp only
  rw [h.sees.lookup hs.scopes hname h.scope]
  cases s.scopes.lookup? scene.scope name with
  | some value => exact ⟨.ok _, hs⟩
  | none => exact ⟨.error (T.errors _ span), hs⟩

theorem Eval.write_paired (hR : ScopeTree.Alike N S R) (span : Span) {name : String}
    (hname : N name) {scope scope' : ScopeId} (hscope : S scope scope') (path : List Value)
    (declares : Bool) (change : Value.Change) :
    Paired T (Store.Alike R)
      (Eval.changeScopes span fun scopes => scopes.write scope name path declares change)
      (Eval.changeScopes (T.span span) fun scopes =>
        scopes.write scope' name path declares change) := by
  intro s s' hs
  have hwrite := hR.write hs.scopes hname hscope path declares change
  unfold Eval.changeScopes
  simp only [Action.run_bind, Action.run_get]
  generalize s.scopes.write scope name path declares change = outcome at hwrite
  generalize s'.scopes.write scope' name path declares change = outcome' at hwrite
  cases hwrite with
  | ok value h => exact ⟨.ok _, h, hs.history⟩
  | error cause => exact ⟨.error (T.errors cause span), hs⟩

theorem Eval.call_paired {host host' : Host} (hcall : host'.call = host.call) (span : Span)
    (function : Handle) (arguments : List Value) :
    Paired T (Store.Alike R) (Eval.call host span function arguments)
      (Eval.call host' (T.span span) function arguments) := by
  intro s s' hs
  have hafter : Store.Alike R
      { s with history := s.history ++ [Request.call function arguments] }
      { s' with history := s'.history ++ [Request.call function arguments] } :=
    ⟨hs.scopes, by rw [hs.history]⟩
  unfold Eval.call
  simp only [Action.run_bind, Action.run_get, Action.run_set]
  rw [hcall, hs.history]
  rw [hs.history] at hafter
  cases host.call s.history function arguments with
  | ok value => exact ⟨.ok _, hafter⟩
  | error error => exact ⟨.error (T.errors _ span), hafter⟩

-- ---------------------------------------------------------------------------
-- Expressions
-- ---------------------------------------------------------------------------

theorem orNull_paired {m m' : Eval (Option Value)} (h : Paired T (Store.Alike R) m m') :
    Paired T (Store.Alike R) (orNull m) (orNull m') :=
  .bind h fun _ => .pure _

mutual

theorem evalChain_paired (h : Scene.Alike N S R T scene scene') :
    (e : Expr) → (∀ name ∈ e.names, N name) → (∀ target ∈ e.targets, ScopeTree.Alike N S R) →
      Paired T (Store.Alike R) (evalChain scene e) (evalChain scene' (e.mapSpans T.span))
  | .literal _ _, _, _ => by
    simp only [Expr.mapSpans, evalChain]
    exact .pure _
  | .identifier span name, hnames, _ => by
    simp only [Expr.mapSpans, evalChain]
    exact .bind (Scene.lookup_paired h span (hnames name (List.mem_singleton.2 rfl)))
      fun _ => .pure _
  | .member span base property optional, hnames, hw => by
    obtain ⟨hbase, hproperty⟩ := List.forall_mem_append.1 hnames
    obtain ⟨hwbase, hwproperty⟩ := List.forall_mem_append.1 hw
    simp only [Expr.mapSpans, evalChain]
    refine .bind (evalChain_paired h base hbase hwbase) fun target => ?_
    cases target with
    | none => exact .pure _
    | some target =>
      dsimp only
      split
      · exact .pure _
      · refine .bind (evalKey_paired h property hproperty hwproperty) fun key => ?_
        split
        · exact .pure _
        · split
          · exact .pure _
          · exact .throw _ span
  | .call span callee arguments, hnames, hw => by
    obtain ⟨hcallee, harguments⟩ := List.forall_mem_append.1 hnames
    obtain ⟨hwcallee, hwarguments⟩ := List.forall_mem_append.1 hw
    simp only [Expr.mapSpans, evalChain]
    refine .bind (evalChain_paired h callee hcallee hwcallee) fun target => ?_
    cases target with
    | none => exact .pure _
    | some target =>
      refine .bind (evalElements_paired h arguments harguments hwarguments) fun values => ?_
      split
      · exact .bind (Eval.call_paired h.call span _ _) fun _ => .pure _
      · exact .throw _ span
  | .array _ elements, hnames, hw => by
    simp only [Expr.mapSpans, evalChain]
    exact .bind (evalElements_paired h elements hnames hw) fun _ => .pure _
  | .object _ entries, hnames, hw => by
    simp only [Expr.mapSpans, evalChain]
    exact .bind (evalEntries_paired h [] entries hnames hw) fun _ => .pure _
  | .unary span op operand, hnames, hw => by
    simp only [Expr.mapSpans, evalChain]
    split
    · exact .bind (orNull_paired (evalChain_paired h operand hnames hw)) fun _ => .pure _
    · exact .throw _ span
  | .binary span op left right, hnames, hw => by
    obtain ⟨hleft, hright⟩ := List.forall_mem_append.1 hnames
    obtain ⟨hwleft, hwright⟩ := List.forall_mem_append.1 hw
    have hl := orNull_paired (evalChain_paired h left hleft hwleft)
    have hr := orNull_paired (evalChain_paired h right hright hwright)
    simp only [Expr.mapSpans, evalChain]
    split
    · exact .bind hl fun _ => .bind hr fun _ => .pure _
    · refine .bind hl fun a => ?_
      split
      · exact .pure _
      · exact .bind hr fun _ => .pure _
    · exact .throw _ span
  | .conditional _ test consequent alternate, hnames, hw => by
    obtain ⟨hrest, halternate⟩ := List.forall_mem_append.1 hnames
    obtain ⟨htest, hconsequent⟩ := List.forall_mem_append.1 hrest
    obtain ⟨hwrest, hwalternate⟩ := List.forall_mem_append.1 hw
    obtain ⟨hwtest, hwconsequent⟩ := List.forall_mem_append.1 hwrest
    simp only [Expr.mapSpans, evalChain]
    refine .bind (orNull_paired (evalChain_paired h test htest hwtest)) fun _ => ?_
    split
    · exact .bind (orNull_paired (evalChain_paired h consequent hconsequent hwconsequent))
        fun _ => .pure _
    · exact .bind (orNull_paired (evalChain_paired h alternate halternate hwalternate))
        fun _ => .pure _
  | .assignment span op place value, hnames, hw => by
    obtain ⟨hplace, hvalue⟩ := List.forall_mem_append.1 hnames
    obtain ⟨hR, hwrest⟩ := List.forall_mem_cons.1 hw
    obtain ⟨hwplace, hwvalue⟩ := List.forall_mem_append.1 hwrest
    simp only [Expr.mapSpans, evalChain]
    refine .bind_yields (evalPath_paired h place hplace hwplace) fun path hpath => ?_
    refine .bind (orNull_paired (evalChain_paired h value hvalue hwvalue)) fun _ => ?_
    have hmem := Expr.mem_names_of_root? (evalPath_yields place hpath).1
    have hroot := hplace path.1 hmem
    exact .bind (Eval.write_paired hR span hroot h.scope _ _ _) fun _ => .pure _
  | .update span op side place, hnames, hw => by
    obtain ⟨hR, hwplace⟩ := List.forall_mem_cons.1 hw
    simp only [Expr.mapSpans, evalChain]
    refine .bind_yields (evalPath_paired h place hnames hwplace) fun path hpath => ?_
    have hmem := Expr.mem_names_of_root? (evalPath_yields place hpath).1
    have hroot := hnames path.1 hmem
    exact .bind (Eval.write_paired hR span hroot h.scope _ _ _) fun _ => .pure _

theorem evalKey_paired (h : Scene.Alike N S R T scene scene') :
    (property : Property) → (∀ name ∈ property.names, N name) →
      (∀ target ∈ property.targets, ScopeTree.Alike N S R) →
      Paired T (Store.Alike R) (evalKey scene property) (evalKey scene' (property.mapSpans T.span))
  | .named _, _, _ => by
    simp only [Property.mapSpans, evalKey]
    exact .pure _
  | .computed key, hnames, hw => by
    simp only [Property.mapSpans, evalKey]
    exact orNull_paired (evalChain_paired h key hnames hw)

theorem evalElements_paired (h : Scene.Alike N S R T scene scene') :
    (elements : List Element) → (∀ name ∈ Element.namesAll elements, N name) →
      (∀ target ∈ Element.targetsAll elements, ScopeTree.Alike N S R) →
      Paired T (Store.Alike R) (evalElements scene elements)
        (evalElements scene' (Element.mapSpansAll T.span elements))
  | [], _, _ => by
    simp only [Element.mapSpansAll, evalElements]
    exact .pure _
  | .single element :: rest, hnames, hw => by
    obtain ⟨helement, hrest⟩ := List.forall_mem_append.1 hnames
    obtain ⟨hwelement, hwrest⟩ := List.forall_mem_append.1 hw
    simp only [Element.mapSpansAll, evalElements]
    refine .bind (orNull_paired (evalChain_paired h element helement hwelement)) fun _ => ?_
    exact .bind (evalElements_paired h rest hrest hwrest) fun _ => .pure _
  | .spread element :: rest, hnames, hw => by
    obtain ⟨helement, hrest⟩ := List.forall_mem_append.1 hnames
    obtain ⟨hwelement, hwrest⟩ := List.forall_mem_append.1 hw
    simp only [Element.mapSpansAll, evalElements, Expr.span_mapSpans]
    refine .bind (orNull_paired (evalChain_paired h element helement hwelement)) fun _ => ?_
    split
    · exact .bind (evalElements_paired h rest hrest hwrest) fun _ => .pure _
    · exact .throw_related (h.snippet _ (.head _) element.span)

theorem evalEntries_paired (h : Scene.Alike N S R T scene scene') (earlier : Dict Value) :
    (entries : List Entry) → (∀ name ∈ Entry.namesAll entries, N name) →
      (∀ target ∈ Entry.targetsAll entries, ScopeTree.Alike N S R) →
      Paired T (Store.Alike R) (evalEntries scene earlier entries)
        (evalEntries scene' earlier (Entry.mapSpansAll T.span entries))
  | [], _, _ => by
    simp only [Entry.mapSpansAll, evalEntries]
    exact .pure _
  | .named key value :: rest, hnames, hw => by
    obtain ⟨hvalue, hrest⟩ := List.forall_mem_append.1 hnames
    obtain ⟨hwvalue, hwrest⟩ := List.forall_mem_append.1 hw
    simp only [Entry.mapSpansAll, evalEntries]
    refine .bind (orNull_paired (evalChain_paired h value hvalue hwvalue)) fun _ => ?_
    exact evalEntries_paired h _ rest hrest hwrest
  | .computed key value :: rest, hnames, hw => by
    obtain ⟨hfirst, hrest⟩ := List.forall_mem_append.1 hnames
    obtain ⟨hkey, hvalue⟩ := List.forall_mem_append.1 hfirst
    obtain ⟨hwfirst, hwrest⟩ := List.forall_mem_append.1 hw
    obtain ⟨hwkey, hwvalue⟩ := List.forall_mem_append.1 hwfirst
    simp only [Entry.mapSpansAll, evalEntries, Expr.span_mapSpans]
    refine .bind (orNull_paired (evalChain_paired h key hkey hwkey)) fun _ => ?_
    split
    · refine .bind (orNull_paired (evalChain_paired h value hvalue hwvalue)) fun _ => ?_
      exact evalEntries_paired h _ rest hrest hwrest
    · exact .throw _ key.span
  | .spread value :: rest, hnames, hw => by
    obtain ⟨hvalue, hrest⟩ := List.forall_mem_append.1 hnames
    obtain ⟨hwvalue, hwrest⟩ := List.forall_mem_append.1 hw
    simp only [Entry.mapSpansAll, evalEntries, Expr.span_mapSpans]
    refine .bind (orNull_paired (evalChain_paired h value hvalue hwvalue)) fun _ => ?_
    split
    · exact evalEntries_paired h _ rest hrest hwrest
    · exact .throw_related (h.snippet _ (.tail _ (.head _)) value.span)

theorem evalPath_paired (h : Scene.Alike N S R T scene scene') :
    (place : Expr) → (∀ name ∈ place.names, N name) →
      (∀ target ∈ place.targets, ScopeTree.Alike N S R) →
      Paired T (Store.Alike R) (evalPath scene place) (evalPath scene' (place.mapSpans T.span))
  | .identifier _ _, _, _ => by
    simp only [Expr.mapSpans, evalPath]
    exact .pure _
  | .member span base property optional, hnames, hw => by
    obtain ⟨hbase, hproperty⟩ := List.forall_mem_append.1 hnames
    obtain ⟨hwbase, hwproperty⟩ := List.forall_mem_append.1 hw
    simp only [Expr.mapSpans, evalPath]
    split
    · exact .throw _ span
    · refine .bind (evalPath_paired h base hbase hwbase) fun _ => ?_
      exact .bind (evalKey_paired h property hproperty hwproperty) fun _ => .pure _
  | .literal span _, _, _ | .array span _, _, _ | .object span _, _, _ | .call span _ _, _, _
  | .unary span _ _, _, _ | .binary span _ _ _, _, _ | .conditional span _ _ _, _, _
  | .assignment span _ _ _, _, _ | .update span _ _ _, _, _ => by
    simp only [Expr.mapSpans, evalPath]
    exact .throw _ span

end

/-- Two evaluations of an expression come to the same. Only for what it writes do the scopes have to
be alike in more than what they see. -/
theorem eval_paired (h : Scene.Alike N S R T scene scene') {e : Expr}
    (hnames : ∀ name ∈ e.names, N name)
    (hw : ∀ target ∈ e.targets, ScopeTree.Alike N S R) :
    Paired T (Store.Alike R) (eval scene e) (eval scene' (e.mapSpans T.span)) :=
  orNull_paired (evalChain_paired h e hnames hw)

end PromptTemplate
