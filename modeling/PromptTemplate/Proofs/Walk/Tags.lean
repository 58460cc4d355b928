import PromptTemplate.Proofs.Walk.Closed
import PromptTemplate.Proofs.Walk.Run

/-!
# What tags do to the builder

Reading the attributes of a tag leaves the builder alone. So a tag that was
opened or closed changed it in one known way, and what was checked on the
way holds.
-/

namespace PromptTemplate

open Walk

variable {γ : Type} {site : Site γ} {s t : WalkState}

/-- Neither sees nor changes the builder. -/
def IgnoresBuilder (m : Walk α) : Prop :=
  ∀ (s : WalkState) (b : Builder),
    m { s with builder := b } = ((m s).1, { (m s).2 with builder := b })

theorem IgnoresBuilder.bind {m : Walk α} {f : α → Walk β} (hm : IgnoresBuilder m)
    (hf : ∀ a, IgnoresBuilder (f a)) : IgnoresBuilder (m >>= f) :=
  fun s b => Action.bind_commutes (fun s => hm s b) (fun a s => hf a s b) s

theorem ReadClosed.builder (site : Site γ) (scope : ScopeId) :
    ReadClosed site scope IgnoresBuilder where
  pure _ _ _ := rfl
  bind := IgnoresBuilder.bind
  fail _ _ _ _ := rfl
  evaluate _ _ _ := rfl

theorem declare_ignoresBuilder (scope : ScopeId) (ident : Ident) (value : Value) :
    IgnoresBuilder (declare scope ident value) := by
  intro s b
  rw [run_declare, run_declare]
  cases s.store.scopes.declare? scope ident.name value <;> rfl

theorem DeclareClosed.builder (scope : ScopeId) : DeclareClosed scope IgnoresBuilder where
  pure _ _ _ := rfl
  bind := IgnoresBuilder.bind
  declare := declare_ignoresBuilder scope

theorem IgnoresBuilder.builder_run {m : Walk α} (hm : IgnoresBuilder m) (s : WalkState) :
    (m s).2.builder = s.builder := by
  have h : (m s).2 = { (m s).2 with builder := s.builder } := congrArg Prod.snd (hm s s.builder)
  rw [h]

theorem IgnoresBuilder.builder_eq {m : Walk α} {a : α} (hm : IgnoresBuilder m)
    (h : m s = (.ok a, t)) : t.builder = s.builder := by
  have hs := hm.builder_run s
  rwa [h] at hs

-- ---------------------------------------------------------------------------
-- Messages
-- ---------------------------------------------------------------------------

theorem Placement.message_of_admitsMessage {p : Placement} (h : p.admitsMessage = .ok ()) :
    p.message = none := by
  cases hm : p.message with
  | none => rfl
  | some role => simp [admitsMessage, hm] at h

theorem toolId_ok {scope : ScopeId} {tag : Tag} {role : Role} {id : Option String}
    (h : toolId site scope tag role s = (.ok id, t)) (hrole : role = .tool) : id.isSome := by
  simp only [toolId, hrole, if_true, Action.bind_ok] at h
  obtain ⟨found, _, -, h⟩ := h
  cases found with
  | none => simp at h
  | some found =>
    obtain ⟨rfl, -⟩ := Action.pure_ok.mp h
    rfl

/-- A message tag opens a message of the role that was read off it. -/
theorem openMessage_role {p : Placement} {scope : ScopeId} {tag : Tag} {given : Option Role}
    {role : Role} (h : openMessage site p scope tag given s = (.ok role, t)) :
    ∃ u, messageRole site scope tag given s = (.ok role, u) := by
  simp only [openMessage, Action.bind_ok, located_ok, Action.pure_ok] at h
  obtain ⟨_, _, ⟨-, rfl⟩, read, u, hread, _, _, -, _, _, -, rfl, -⟩ := h
  exact ⟨u, hread⟩

theorem openMessage_ok {p : Placement} {scope : ScopeId} {tag : Tag} {given : Option Role}
    {role : Role} (h : openMessage site p scope tag given s = (.ok role, t)) :
    p.admitsMessage = .ok () ∧ ∃ id : Option String, (role = .tool → id.isSome) ∧
      t.builder = s.builder.beginMessage role id := by
  simp only [openMessage, Action.bind_ok, located_ok, build_ok, Action.pure_ok] at h
  obtain ⟨_, _, ⟨hp, rfl⟩, read, u, hread, id, v, hid, _, _, rfl, rfl, rfl⟩ := h
  have hu := ((ReadClosed.builder site scope).messageRole tag given).builder_eq hread
  have hv := ((ReadClosed.builder site scope).toolId tag read).builder_eq hid
  exact ⟨hp, id, toolId_ok hid, by rw [hv, hu]⟩

-- ---------------------------------------------------------------------------
-- Content
-- ---------------------------------------------------------------------------

theorem contentKind_ok {tag : Tag} {given : Option ContentKind} {kind : ContentKind}
    (h : contentKind tag given s = (.ok kind, t)) : s = t := by
  cases given with
  | some given => exact (Action.pure_ok.mp h).2
  | none =>
    simp only [contentKind] at h
    cases hfound : tag.attribute? "type" with
    | none =>
      rw [hfound] at h
      exact (Action.pure_ok.mp h).2
    | some found =>
      rw [hfound] at h
      revert h
      dsimp only
      generalize ContentKind.ofName? _ = read
      intro h
      cases read with
      | none => exact (fail_ok.mp h).elim
      | some read => exact (Action.pure_ok.mp h).2

theorem openContent_kind {p : Placement} {tag : Tag} {given : Option ContentKind}
    {kind : ContentKind} (h : openContent p tag given s = (.ok kind, t)) :
    ∃ u, contentKind tag given s = (.ok kind, u) := by
  simp only [openContent, Action.bind_ok, located_ok, Action.pure_ok] at h
  obtain ⟨_, _, ⟨-, rfl⟩, read, u, hread, _, _, -, rfl, -⟩ := h
  exact ⟨u, hread⟩

theorem openContent_ok {p : Placement} {tag : Tag} {given : Option ContentKind}
    {kind : ContentKind} (h : openContent p tag given s = (.ok kind, t)) :
    p.admitsContent = .ok () ∧ t.builder = s.builder.flushText := by
  simp only [openContent, Action.bind_ok, located_ok, build_ok, Action.pure_ok] at h
  obtain ⟨_, _, ⟨hp, rfl⟩, read, u, hread, _, _, rfl, rfl, rfl⟩ := h
  rw [contentKind_ok hread]
  exact ⟨hp, by simp only⟩

theorem closeContent_text {u : Unit} (h : closeContent .text s = (.ok u, t)) :
    t.builder = s.builder.flushText := by
  simp only [closeContent, build_ok] at h
  rw [← h]

/-- The text inside an image tag is its address. -/
theorem closeContent_image {u : Unit} (h : closeContent .image s = (.ok u, t)) :
    t.builder =
      { s.builder with text := "" }.pushBlock (.image (Text.trim s.builder.text)) := by
  simp only [closeContent, Action.bind_ok, takeText_ok, build_ok] at h
  obtain ⟨_, _, ⟨rfl, rfl⟩, rfl⟩ := h
  rfl

-- ---------------------------------------------------------------------------
-- Tool calls
-- ---------------------------------------------------------------------------

theorem readArguments_isObject {text : String} {json : Json} (h : readArguments text = .ok json) :
    json.isObject = true := by
  simp only [readArguments] at h
  split at h
  · cases h
    rfl
  · split at h
    · cases h
      rfl
    · cases h

theorem argumentsOfValue_isObject {value : Value} {json : Json}
    (h : argumentsOfValue value = .ok json) : json.isObject = true := by
  cases value with
  | object fields =>
    simp only [argumentsOfValue] at h
    cases h
    simp [Value.toJson, Json.isObject]
  | string text =>
    simp only [argumentsOfValue] at h
    exact readArguments_isObject h
  | _ => cases h

theorem openToolCall_ok {p : Placement} {scope : ScopeId} {tag : Tag} {isBlank : Bool}
    {call : ToolCall} (h : openToolCall site p scope tag isBlank s = (.ok call, t)) :
    p.admitsToolCall = .ok () ∧ t.builder = s.builder.flushText ∧
      ∀ json, call.arguments = some json → json.isObject = true := by
  have hR := ReadClosed.builder site scope
  simp only [openToolCall, Action.bind_ok, located_ok] at h
  obtain ⟨_, _, ⟨hp, rfl⟩, id, u, hid, h⟩ := h
  cases id with
  | none => simp at h
  | some id =>
    simp only [Action.bind_ok] at h
    obtain ⟨name, v, hname, h⟩ := h
    cases name with
    | none => simp at h
    | some name =>
      simp only [Action.bind_ok, build_ok] at h
      obtain ⟨_, _, rfl, value, w, hvalue, h⟩ := h
      have hb : w.builder = s.builder.flushText := by
        have hu := (hR.textAttribute? tag "id").builder_eq hid
        have hv := (hR.textAttribute? tag "name").builder_eq hname
        have hw := (hR.attribute? tag "arguments").builder_eq hvalue
        rw [hw, ← hu, ← hv]
      cases value with
      | none =>
        obtain ⟨rfl, rfl⟩ := Action.pure_ok.mp h
        exact ⟨hp, hb, by simp⟩
      | some value =>
        cases isBlank with
        | false => simp at h
        | true =>
          simp only [if_true, Action.bind_ok, located_ok, Action.pure_ok] at h
          obtain ⟨json, _, ⟨hjson, rfl⟩, rfl, rfl⟩ := h
          refine ⟨hp, hb, ?_⟩
          rintro _ ⟨⟩
          exact argumentsOfValue_isObject hjson

theorem closeToolCall_ok {span : Span} {id name : String} {u : Unit}
    (h : closeToolCall span id name s = (.ok u, t)) :
    ∃ json : Json, json.isObject = true ∧
      t.builder = { s.builder with text := "" }.pushBlock (.toolCall id name json) := by
  simp only [closeToolCall, Action.bind_ok, takeText_ok, located_ok, build_ok] at h
  obtain ⟨_, _, ⟨rfl, rfl⟩, json, _, ⟨hjson, rfl⟩, rfl⟩ := h
  exact ⟨json, readArguments_isObject hjson, rfl⟩

-- ---------------------------------------------------------------------------
-- References
-- ---------------------------------------------------------------------------

theorem openReference_ignoresBuilder (site : Site γ) (p : Placement) (scope : ScopeId) (tag : Tag)
    (isBlank : Bool) : IgnoresBuilder (openReference site p scope tag isBlank) := by
  have hR := ReadClosed.builder site scope
  unfold openReference
  refine .bind (hR.located _ _) fun _ => .bind (hR.promptName tag) fun prompt => ?_
  refine .bind (hR.located _ _) fun _ => ?_
  cases site.host.resolve? with
  | none => exact hR.fail _ _
  | some answer =>
    refine .bind (hR.located _ _) fun entered => ?_
    -- The snapshot is taken of the store, which does not have the builder.
    intro s b
    refine IgnoresBuilder.bind (hR.extraBindings _) (fun extra => ?_) s b
    refine .bind (fun s b => ?_) fun source => hR.pure _
    rw [run_resolve, run_resolve]

end PromptTemplate
