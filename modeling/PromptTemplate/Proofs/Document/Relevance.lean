import PromptTemplate.Host.Standard
import PromptTemplate.Proofs.Conversation.Texts
import PromptTemplate.Proofs.Walk.Paired

/-!
# Variables that do not matter

A document without references depends only on the variables that it names:
given others as well, or in another order, it comes to the same conversation
or to the same error and makes the same calls (`compile_agreeing`).
-/

namespace PromptTemplate

-- The opening section names nothing and refers to nothing.

theorem Document.namesAll_split (document : Document) :
    Node.namesAll document.split.2 = document.names := by
  obtain ⟨nodes⟩ := document
  cases nodes with
  | nil => rfl
  | cons node rest => cases node <;> rfl

theorem Document.anyRefers_split (document : Document) :
    Node.anyRefers document.split.2 = document.refers := by
  obtain ⟨nodes⟩ := document
  cases nodes with
  | nil => rfl
  | cons node rest => cases node <;> rfl

theorem Document.compile_of_agreeing {document : Document} (hrefers : document.refers = false)
    (site site' : Site Compiler) (hsource : site'.source = site.source)
    (hcall : site'.host.call = site.host.call) {bindings bindings' : Dict Value}
    (hnames : ∀ name ∈ document.names, Dict.get? bindings' name = Dict.get? bindings name)
    (history : History) :
    document.compile site' bindings' history = document.compile site bindings history := by
  have hsites : Site.Alike (· ∈ document.names) Eq
      (ScopeTree.Agreeing (· ∈ document.names)) (.moving id) site site' := by
    refine ⟨ScopeTree.agreeing_alike _, hcall, fun cause _ span => ?_⟩
    rw [hsource]
    rfl
  have hnodes : ∀ name ∈ Node.namesAll document.split.2, name ∈ document.names := by
    rw [document.namesAll_split]
    exact fun _ h => h
  have hplain : Node.anyRefers document.split.2 = true →
      site.RefersAlike Eq (ScopeTree.Agreeing (· ∈ document.names)) site' := by
    rw [document.anyRefers_split, hrefers]
    exact fun h => absurd h Bool.false_ne_true
  obtain ⟨houtcome, hafter⟩ := compileNodes_paired hsites rfl hnodes hplain
    ⟨.ofBindings bindings, history⟩ ⟨.ofBindings bindings', history⟩
    ⟨ScopeTree.agreeing_ofBindings hnames, rfl⟩
  rw [Action.Pairing.moving_span, Node.mapSpansAll_id] at houtcome hafter
  simp only [Document.compile]
  generalize compileNodes site document.split.2 ⟨.ofBindings bindings, history⟩ = first at *
  generalize compileNodes site' document.split.2 ⟨.ofBindings bindings', history⟩ = second at *
  obtain ⟨result, store⟩ := first
  obtain ⟨result', store'⟩ := second
  dsimp only at houtcome hafter ⊢
  rw [houtcome.eq_mapError, hafter.history]
  cases result <;> rfl

/-- A document without references comes to the same conversation or error, and
makes the same calls, with any variables that have the values that its names
have and are absent where those are. -/
theorem compile_agreeing {context context' : Context} {source : String}
    (hcall : context'.host.call = context.host.call)
    (hdocument : ∀ document, parseDocument source = .ok document →
      document.refers = false ∧ ∀ name ∈ document.names,
        Dict.get? context'.bindings name = Dict.get? context.bindings name) :
    compile context' source = compile context source := by
  rw [run_compile, run_compile]
  cases hparse : parseDocument source with
  | error error => rfl
  | ok document =>
    obtain ⟨hrefers, hnames⟩ := hdocument document hparse
    dsimp only
    exact Document.compile_of_agreeing hrefers ⟨source, context.host, _⟩
      ⟨source, context'.host, _⟩ rfl hcall hnames []

/-- One context holds a secret and prompts; the other one has its variables in
another order. The document writes to one of them in a loop and calls another. -/
theorem compile_agreeing_secret :
    let source := "\x7b#each users as \x7b name \x7d\x7d\x7blog.last = name\x7d" ++
      "\x7bupper(name)\x7d, \x7b/each\x7d\x7blog.last\x7d"
    let users := Value.array [.object [("name", .string "Ada")], .object [("name", .string "Bob")]]
    let upper := Value.function (StandardFunction.upper.handle 0)
    let context : Context :=
      ⟨[("secret", .string "x"), ("users", users), ("log", .object []), ("upper", upper)],
        standardHost (some []), 16⟩
    let context' : Context :=
      ⟨[("upper", upper), ("other", .null), ("log", .object []), ("users", users)],
        standardHost none, 16⟩
    compile context' source = compile context source ∧
      (compile context source).1.toOption.map Conversation.texts = some ["ADA, BOB, Bob"] := by
  intro source users upper context context'
  refine ⟨compile_agreeing rfl fun document hparse => ?_, by decide +kernel⟩
  have hnames : (parseDocument source).toOption.map (fun d => (d.refers, d.names)) =
      some (false, ["users", "log", "name", "upper", "name", "log"]) := by
    decide +kernel
  rw [hparse] at hnames
  obtain ⟨hrefers, hnames⟩ := Prod.mk.inj (Option.some.inj hnames)
  refine ⟨hrefers, ?_⟩
  rw [hnames]
  simp only [List.forall_mem_cons]
  exact ⟨rfl, rfl, rfl, rfl, rfl, rfl, List.forall_mem_nil _⟩

end PromptTemplate
