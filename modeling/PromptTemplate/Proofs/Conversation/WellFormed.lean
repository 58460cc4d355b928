import PromptTemplate.Host.Standard
import PromptTemplate.Proofs.Conversation.Builder
import PromptTemplate.Proofs.Walk.Run
import PromptTemplate.Proofs.Walk.Tags

/-!
# Compiled conversations are well formed

The builder fits the placement all along a walk: a message is open exactly
inside a message tag, and has its role. So whatever a prompt compiles to is
well formed, the messages of the prompts it refers to included.
-/

namespace PromptTemplate

/-- A walk that succeeds leaves a builder that fits if it found one. -/
def KeepsFit (p : Placement) (m : Walk α) : Prop :=
  ∀ (s t : WalkState) (a : α), m s = (.ok a, t) →
    Builder.Fits p.message s.builder → Builder.Fits p.message t.builder

theorem KeepsFit.of_builder {m : Walk α} (hm : ∀ s : WalkState, (m s).2.builder = s.builder) :
    KeepsFit p m := by
  intro s t a h hs
  have hkept := hm s
  rw [h] at hkept
  rw [hkept]
  exact hs

theorem Placement.message_of_admitsToolCall {p : Placement} (h : p.admitsToolCall = .ok ()) :
    p.message = some .assistant := by
  simp only [admitsToolCall] at h
  by_contra hm
  rw [if_pos hm] at h
  split at h <;> cases h

-- ---------------------------------------------------------------------------
-- Tags
-- ---------------------------------------------------------------------------

section
variable {site : Site Compiler} {p : Placement}

theorem walkMessage_keepsFit {inside : Placement → Walk Unit}
    (hinside : ∀ role, KeepsFit (p.insideMessage role) (inside (p.insideMessage role))) :
    KeepsFit p (walkMessage site p scope tag given inside) := by
  intro s t _ h hs
  simp only [walkMessage, Action.bind_ok, Walk.build_ok] at h
  obtain ⟨role, opened, hopen, _, walked, hwalk, rfl⟩ := h
  obtain ⟨hp, id, htool, hopened⟩ := openMessage_ok hopen
  have hbegun : Builder.Fits (some role) opened.builder := by
    rw [hopened]
    exact hs.beginMessage htool
  have hwalked := hinside role opened walked () hwalk hbegun
  rw [Placement.message_of_admitsMessage hp]
  dsimp only
  exact hwalked.endMessage

theorem closeContent_keepsFit (kind : ContentKind) : KeepsFit p (closeContent kind) := by
  intro s t _ h hs
  cases kind with
  | text =>
    rw [closeContent_text h]
    exact hs.flushText
  | image =>
    rw [closeContent_image h]
    exact (hs.text "").pushBlock (Text.trim_trim _)

theorem walkContent_keepsFit {inside : Placement → Walk Unit}
    (hinside : KeepsFit p.insideContent (inside p.insideContent)) :
    KeepsFit p (walkContent p tag given inside) := by
  intro s t _ h hs
  simp only [walkContent, Action.bind_ok] at h
  obtain ⟨kind, opened, hopen, _, walked, hwalk, hclose⟩ := h
  obtain ⟨-, hopened⟩ := openContent_ok hopen
  have hflushed : Builder.Fits p.message opened.builder := by
    rw [hopened]
    exact hs.flushText
  exact closeContent_keepsFit kind walked t () hclose
    (hinside opened walked () hwalk hflushed)

theorem walkToolCall_keepsFit {inside : Placement → Walk Unit}
    (hinside : KeepsFit p.insideToolCall (inside p.insideToolCall)) :
    KeepsFit p (walkToolCall site p scope tag isBlank inside) := by
  intro s t _ h hs
  simp only [walkToolCall, Action.bind_ok] at h
  obtain ⟨call, opened, hopen, h⟩ := h
  obtain ⟨hp, hopened, hobject⟩ := openToolCall_ok hopen
  have hrole := Placement.message_of_admitsToolCall hp
  have hflushed : Builder.Fits p.message opened.builder := by
    rw [hopened]
    exact hs.flushText
  cases hcall : call.arguments with
  | some json =>
    simp only [hcall, Walk.build_ok] at h
    subst h
    rw [hrole] at hflushed ⊢
    exact hflushed.pushBlock ⟨rfl, hobject json hcall⟩
  | none =>
    simp only [hcall, Action.bind_ok] at h
    obtain ⟨_, walked, hwalk, hclose⟩ := h
    obtain ⟨json, hjson, hclosed⟩ := closeToolCall_ok hclose
    have hwalked : Builder.Fits p.message walked.builder :=
      hinside opened walked () hwalk hflushed
    rw [hclosed]
    rw [hrole] at hwalked ⊢
    exact (hwalked.text "").pushBlock ⟨rfl, hjson⟩

end

-- ---------------------------------------------------------------------------
-- Whole walks
-- ---------------------------------------------------------------------------

/-- What compiles gives well-formed messages. -/
def Compiler.Sound (compile : Compiler) : Prop :=
  ∀ source bindings history conversation after,
    compile source bindings history = (.ok conversation, after) →
      ∀ m ∈ conversation.messages, m.WellFormed

theorem walkReference_keepsFit {site : Site Compiler}
    (hsite : ∀ prompt compile, site.enter prompt = .ok compile → compile.Sound)
    (p : Placement) (scope : ScopeId) (tag : Tag) (isBlank : Bool) :
    KeepsFit p (walkReference site p scope tag isBlank) := by
  intro s t _ h hs
  obtain ⟨referral, opened, conversation, history, hopen, hcompile, rfl⟩ := walkReference_ok.mp h
  obtain ⟨-, -, prompt, answer, extra, u, -, -, henter, -⟩ := openReference_ok.mp hopen
  have hmessages := hsite prompt referral.entered henter _ _ _ _ _ hcompile
  have hopened := (openReference_ignoresBuilder site p scope tag isBlank).builder_eq hopen
  dsimp only
  rw [hopened]
  exact hs.extend hmessages

theorem WalkClosed.keepsFit {site : Site Compiler}
    (hsite : ∀ prompt compile, site.enter prompt = .ok compile → compile.Sound) :
    WalkClosed site fun p _ _ m => KeepsFit p m where
  pure p _ _ a := .of_builder fun _ => rfl
  bind p _ _ _ m f hm hf := by
    intro s t b h hs
    obtain ⟨a, u, h, h'⟩ := Action.bind_ok.mp h
    exact hf a u t b h' (hm s u a h hs)
  fail p _ _ _ _ := .of_builder fun _ => rfl
  pushText p _ text := by
    intro s t _ h hs
    rw [← Walk.build_ok.mp h]
    exact hs.text _
  evaluate p _ _ := .of_builder fun _ => rfl
  declare p scope ident value := .of_builder fun s => by
    rw [run_declare]
    split <;> rfl
  inFrame p parent body hbody := by
    intro s t a h hs
    obtain ⟨after, hafter, rfl⟩ := Walk.inFrame_ok.mp h
    exact hbody _ _ after a hafter hs
  message p _ _ _ _ h := walkMessage_keepsFit h
  content p _ _ _ _ h := walkContent_keepsFit h
  toolCall p _ _ _ _ h := walkToolCall_keepsFit h
  reference := walkReference_keepsFit hsite

theorem compileDocument_sound {host : Host} {enter : String → Except Cause Compiler}
    (henter : ∀ prompt compile, enter prompt = .ok compile → compile.Sound) :
    (compileDocument host enter).Sound := by
  intro source bindings history conversation after h
  obtain ⟨document, -, h⟩ := compileDocument_ok.mp h
  obtain ⟨t, h, -⟩ := Document.compile_ok.mp h
  obtain ⟨b, hwalk, hfinish⟩ := compileNodes_ok.mp h
  rw [← hfinish]
  exact (walkAll_closed (.keepsFit henter) .outermost _ _ _ _ _ hwalk .empty).finish

/-- In every message of a compiled conversation tool calls are made by the
assistant with an object of arguments, results belong to one call and stand
in tool messages, where no text does, and every text, result and address is
trimmed, the first two not being empty. -/
theorem compile_wellFormed {context : Context} {source : String} {conversation : Conversation}
    {history : History} (h : compile context source = (.ok conversation, history)) :
    ∀ m ∈ conversation.messages, m.WellFormed :=
  compileWithin_induction (P := Compiler.Sound) (fun _ => compileDocument_sound)
    context.depth [] _ _ _ _ _ h

theorem compile_wellFormed_toolExchange :
    let context : Context := ⟨[], standardHost (some [("aside", .source "<user>now</user>")]), 1⟩
    let source := "hi <assistant><tool-call id=\"1\" name=\"f\"/></assistant>
      <tool id=\"1\"> ok <image> url </image></tool><ref prompt=\"aside\"/>"
    ∃ conversation history, compile context source = (.ok conversation, history) ∧
      conversation.messages.map Message.role = [.system, .assistant, .tool, .user] ∧
      ∀ m ∈ conversation.messages, m.WellFormed := by
  intro context source
  have hroles : (compile context source).1.toOption.map (·.messages.map Message.role) =
      some [.system, .assistant, .tool, .user] := by
    unfold context source
    decide +kernel
  cases h : compile context source with
  | mk result history =>
    rw [h] at hroles
    cases result with
    | error => cases hroles
    | ok conversation =>
      exact ⟨conversation, history, rfl, Option.some.inj hroles, compile_wellFormed h⟩

end PromptTemplate
