import PromptTemplate.Host.Standard
import PromptTemplate.Proofs.Conversation.Builder
import PromptTemplate.Proofs.Text.Trim
import PromptTemplate.Proofs.Value.Printed
import PromptTemplate.Proofs.Walk.Run

/-!
# The arguments of tool calls

The arguments of a tool call can be an object, a string with the text of the
object, or the text that an interpolation of the object leaves inside the tag.
The first becomes JSON at once, the others are written, trimmed and read
again; all three come to the same block (`walk_toolCall_arguments`).
-/

namespace PromptTemplate

open Walk

-- ---------------------------------------------------------------------------
-- Reading the text of an object
-- ---------------------------------------------------------------------------

theorem Value.toList_render_object (fields : Dict Value) :
    (object fields).render.toList =
      '\x7b' :: ((Json.commaSeparated (serializeFields fields)).toList ++ ['\x7d']) := by
  simp [render, serialize, Json.objectText]

theorem Value.trim_render_object (fields : Dict Value) :
    Text.trim (object fields).render = (object fields).render := by
  rw [Text.trim, toList_render_object, Text.trimChars_eq_self (by decide) (by decide),
    ← toList_render_object, String.ofList_toList]

/-- The text of an object, with blanks around it, gives the object as arguments. -/
theorem readArguments_render {fields : Dict Value}
    (h : (Value.object fields).Printable Json.depthLimit) {before behind : String}
    (hbefore : Text.isAllBlank before) (hbehind : Text.isAllBlank behind) :
    readArguments (before ++ (Value.object fields).render ++ behind) =
      .ok (Value.object fields).toJson := by
  have hread : Json.read? (Value.object fields).render = some (Value.object fields).toJson :=
    (Value.serialize_reads _ _ h).alone
  have hnonempty : (Value.object fields).render ≠ "" := by
    intro hempty
    have hchars := Value.toList_render_object fields
    rw [hempty] at hchars
    cases hchars
  rw [readArguments, Text.trim_surrounded hbefore hbehind, Value.trim_render_object, hread,
    if_neg (by simpa using hnonempty), Value.toJson]

-- ---------------------------------------------------------------------------
-- Opening a tool call
-- ---------------------------------------------------------------------------

/-- The tag of a tool call whose id and name are literal text, and whose
arguments are given by an expression or by no attribute. -/
structure Tag.Calls (tag : Tag) (id name : String) (arguments : Option Expr) : Prop where
  kind : tag.kind = .toolCall
  id : (tag.attribute? "id").map Attribute.value = some (.literal id)
  name : (tag.attribute? "name").map Attribute.value = some (.literal name)
  arguments : (tag.attribute? "arguments").map Attribute.value = arguments.map .expression

section
variable {γ : Type} (site : Site γ) (scope : ScopeId) {tag : Tag}

theorem run_textAttribute?_literal {name text : String}
    (h : (tag.attribute? name).map Attribute.value = some (.literal text)) (s : WalkState) :
    textAttribute? site scope tag name s = (.ok (some text), s) := by
  obtain ⟨found, hfound, hvalue⟩ := Option.map_eq_some_iff.1 h
  simp [textAttribute?, attribute?, hfound, hvalue, attributeValue, Action.run_bind, Value.render]

variable {id name : String} (s : WalkState)

/-- A call whose arguments are to come from inside the tag. -/
theorem run_openToolCall (h : tag.Calls id name none) (isBlank : Bool) :
    openToolCall site (Placement.outermost.insideMessage .assistant) scope tag isBlank s =
      (.ok ⟨id, name, none⟩, { s with builder := s.builder.flushText }) := by
  have hnone : tag.attribute? "arguments" = none := Option.map_eq_none_iff.1 h.arguments
  simp [openToolCall, Action.run_bind, run_textAttribute?_literal site scope h.id,
    run_textAttribute?_literal site scope h.name, attribute?, hnone, Placement.admitsToolCall,
    Placement.outermost, Placement.insideMessage, -bind_pure_comp]

/-- A call whose arguments are the value of an attribute. -/
theorem run_openToolCall_attribute {e : Expr} (h : tag.Calls id name (some e)) {value : Value}
    {after : Store}
    (he : eval ⟨site.source, site.host, scope⟩ e s.store = (.ok value, after)) {arguments : Json}
    (harguments : argumentsOfValue value = .ok arguments) :
    openToolCall site (Placement.outermost.insideMessage .assistant) scope tag true s =
      (.ok ⟨id, name, some arguments⟩, ⟨after, s.builder.flushText⟩) := by
  obtain ⟨found, hfound, hvalue⟩ := Option.map_eq_some_iff.1 h.arguments
  simp [openToolCall, Action.run_bind, run_textAttribute?_literal site scope h.id,
    run_textAttribute?_literal site scope h.name, attribute?, hfound, hvalue, attributeValue,
    evaluate, he, harguments, Placement.admitsToolCall, Placement.outermost,
    Placement.insideMessage]

end

-- ---------------------------------------------------------------------------
-- Inside the tag
-- ---------------------------------------------------------------------------

theorem Builder.pushText_pushText (b : Builder) (s t : String) :
    (b.pushText s).pushText t = b.pushText (s ++ t) := by
  simp [pushText, String.append_assoc]

/-- Text that is taken away again leaves what was there without it. -/
theorem Builder.takeText_pushText {b : Builder} (h : b.text = "") (s : String) :
    (b.pushText s).takeText = (s, b) := by
  obtain ⟨messages, current, loose, text⟩ := b
  subst h
  simp [pushText, takeText]

variable (site : Site Compiler) (p : Placement) (scope : ScopeId)

theorem walkAll_blank {nodes : List Node} (h : nodes.all Node.isBlankText) (s : WalkState) :
    ∃ blank, Text.isAllBlank blank ∧
      walkAll site p scope nodes s =
        (.ok (), { s with builder := s.builder.pushText blank }) := by
  induction nodes generalizing s with
  | nil => exact ⟨"", rfl, by simp [walkAll, Builder.pushText]⟩
  | cons node rest ih =>
    obtain ⟨hnode, hrest⟩ : node.isBlankText ∧ rest.all Node.isBlankText := by simpa using h
    cases node with
    | text span value =>
      obtain ⟨blank, hblank, hwalk⟩ := ih hrest { s with builder := s.builder.pushText value }
      refine ⟨value ++ blank, ?_, ?_⟩
      · simp only [Text.isAllBlank, String.toList_append, List.all_append, Bool.and_eq_true]
        exact ⟨hnode, hblank⟩
      · rw [walkAll, walk, Action.run_bind, run_build]
        dsimp only
        rw [hwalk, Builder.pushText_pushText]
    | _ => cases hnode

/-- An interpolation between blanks leaves the text of its value between them. -/
theorem walkAll_mustache {before behind : List Node} (hbefore : before.all Node.isBlankText)
    (hbehind : behind.all Node.isBlankText) (span : Span) {e : Expr}
    (hpure : e.isSideEffect = false) (s : WalkState) {value : Value} {after : Store}
    (he : eval ⟨site.source, site.host, scope⟩ e s.store = (.ok value, after)) :
    ∃ front back, Text.isAllBlank front ∧ Text.isAllBlank back ∧
      walkAll site p scope (before ++ .mustache span e :: behind) s =
        (.ok (), ⟨after, s.builder.pushText (front ++ value.render ++ back)⟩) := by
  obtain ⟨front, hfront, hwalkFront⟩ := walkAll_blank site p scope hbefore s
  obtain ⟨back, hback, hwalkBack⟩ := walkAll_blank site p scope hbehind
    ⟨after, s.builder.pushText (front ++ value.render)⟩
  refine ⟨front, back, hfront, hback, ?_⟩
  have hwalk : walk site p scope (.mustache span e)
      { s with builder := s.builder.pushText front } =
        (.ok (), ⟨after, s.builder.pushText (front ++ value.render)⟩) := by
    simp [walk, Action.run_bind, evaluate, he, hpure, Builder.pushText_pushText]
  rw [walkAll_append, Action.run_bind, hwalkFront]
  dsimp only
  rw [walkAll, Action.run_bind, hwalk]
  dsimp only
  rw [hwalkBack, Builder.pushText_pushText]

-- ---------------------------------------------------------------------------
-- The call
-- ---------------------------------------------------------------------------

/-- The text inside the tag is taken from the builder and read. -/
theorem run_closeToolCall (span : Span) (id name : String) {b : Builder} (hb : b.text = "")
    {text : String} {arguments : Json} (h : readArguments text = .ok arguments) (store : Store) :
    closeToolCall span id name ⟨store, b.pushText text⟩ =
      (.ok (), ⟨store, b.pushBlock (.toolCall id name arguments)⟩) := by
  obtain ⟨htext, hbuilder⟩ := Prod.mk.inj (Builder.takeText_pushText hb text)
  simp only [closeToolCall, Action.run_bind, run_takeText, htext, hbuilder, h, located_of_ok,
    Action.run_pure, run_build]

section
variable {tag : Tag} {id name : String} (s : WalkState) {value : Value} {after : Store} {e : Expr}
  (he : eval ⟨site.source, site.host, scope⟩ e s.store = (.ok value, after)) {arguments : Json}
include he

theorem walk_toolCall_attribute (htag : tag.Calls id name (some e)) {children : List Node}
    (hblank : children.all Node.isBlankText) (harguments : argumentsOfValue value = .ok arguments) :
    walk site (Placement.outermost.insideMessage .assistant) scope (.tag tag children) s =
      (.ok (), ⟨after, s.builder.flushText.pushBlock (.toolCall id name arguments)⟩) := by
  have hopen := run_openToolCall_attribute site scope s htag he harguments
  simp only [walk, htag.kind, walkToolCall, Action.run_bind, hblank, hopen, run_build]

theorem walk_toolCall_inside (htag : tag.Calls id name none) {before behind : List Node}
    (hbefore : before.all Node.isBlankText) (hbehind : behind.all Node.isBlankText) (span : Span)
    (hpure : e.isSideEffect = false)
    (harguments : ∀ front back, Text.isAllBlank front → Text.isAllBlank back →
      readArguments (front ++ value.render ++ back) = .ok arguments) :
    walk site (Placement.outermost.insideMessage .assistant) scope
        (.tag tag (before ++ .mustache span e :: behind)) s =
      (.ok (), ⟨after, s.builder.flushText.pushBlock (.toolCall id name arguments)⟩) := by
  have hopen := run_openToolCall site scope s htag
  obtain ⟨front, back, hfront, hback, hwalk⟩ := walkAll_mustache site
    (Placement.outermost.insideMessage .assistant).insideToolCall scope hbefore hbehind span hpure
    { s with builder := s.builder.flushText } he
  simp only [walk, htag.kind, walkToolCall, Action.run_bind, hopen, hwalk]
  exact run_closeToolCall tag.span id name Builder.text_flushText
    (harguments front back hfront hback) after

end

/-- The three ways of giving an object as arguments agree: by its value, by a
string with its text, and by interpolating it inside the tag. -/
theorem walk_toolCall_arguments (s : WalkState) (id name : String) {fields : Dict Value}
    (h : (Value.object fields).Printable Json.depthLimit) {e e' : Expr} {after after' : Store}
    (he : eval ⟨site.source, site.host, scope⟩ e s.store = (.ok (.object fields), after))
    (he' : eval ⟨site.source, site.host, scope⟩ e' s.store =
      (.ok (.string (Value.object fields).render), after')) :
    let inside := Placement.outermost.insideMessage .assistant
    let called := s.builder.flushText.pushBlock (.toolCall id name (Value.object fields).toJson)
    (∀ tag children, tag.Calls id name (some e) → children.all Node.isBlankText →
      walk site inside scope (.tag tag children) s = (.ok (), ⟨after, called⟩)) ∧
    (∀ tag children, tag.Calls id name (some e') → children.all Node.isBlankText →
      walk site inside scope (.tag tag children) s = (.ok (), ⟨after', called⟩)) ∧
    (∀ tag before behind span, tag.Calls id name none → before.all Node.isBlankText →
      behind.all Node.isBlankText → e.isSideEffect = false →
      walk site inside scope (.tag tag (before ++ .mustache span e :: behind)) s =
        (.ok (), ⟨after, called⟩)) := by
  have hread : ∀ front back, Text.isAllBlank front → Text.isAllBlank back →
      readArguments (front ++ (Value.object fields).render ++ back) =
        .ok (Value.object fields).toJson := fun _ _ => readArguments_render h
  refine ⟨fun tag children htag hblank => ?_, fun tag children htag hblank => ?_,
    fun tag before behind span htag hbefore hbehind hpure => ?_⟩
  · exact walk_toolCall_attribute site scope s he htag hblank rfl
  · -- The text in a string has no blanks around it.
    have htext := hread "" "" rfl rfl
    rw [String.empty_append, String.append_empty] at htext
    exact walk_toolCall_attribute site scope s he' htag hblank htext
  · exact walk_toolCall_inside site scope s he htag hbefore hbehind span hpure hread

/-- Keys out of order, a function, a number that is none, one below zero, and
a string with characters that are escaped. -/
theorem walk_toolCall_arguments_mixed :
    let fields : Dict Value := [
      ("z", .function ⟨0⟩),
      ("a", .array [.number Number.notANumber, .number (Number.ofInt (-7)), .string "\"\\\n\x01"]),
      ("b", .object [("k", .bool true)])]
    let json : Json := .object [
      ("a", .array [.null, .int (-7), .string "\"\\\n\x01"]), ("b", .object [("k", .bool true)]),
      ("z", .null)]
    let site : Site Compiler := ⟨"", standardHost none, fun _ => .error .noResolver⟩
    let s : WalkState :=
      ⟨⟨.ofBindings [("v", .object fields), ("t", .string (Value.object fields).render)], []⟩,
        ⟨[], some ⟨.assistant, none, []⟩, [], ""⟩⟩
    let nowhere : Span := ⟨0, 0, 0, 0⟩
    let head (arguments : List Attribute) : Tag :=
      ⟨nowhere, .toolCall, "tool-call",
        ⟨"id", nowhere, .literal "c1"⟩ :: ⟨"name", nowhere, .literal "f"⟩ :: arguments⟩
    let v : Expr := .identifier nowhere "v"
    let t : Expr := .identifier nowhere "t"
    let inside := Placement.outermost.insideMessage .assistant
    let called : WalkState :=
      ⟨s.store, ⟨[], some ⟨.assistant, none, [.toolCall "c1" "f" json]⟩, [], ""⟩⟩
    (Value.object fields).Printable Json.depthLimit ∧
      walk site inside ScopeTree.root
        (.tag (head [⟨"arguments", nowhere, .expression v⟩]) []) s = (.ok (), called) ∧
      walk site inside ScopeTree.root
        (.tag (head [⟨"arguments", nowhere, .expression t⟩]) []) s = (.ok (), called) ∧
      walk site inside ScopeTree.root
        (.tag (head []) [.text nowhere "\n", .mustache nowhere v, .text nowhere "\n"]) s =
          (.ok (), called) := by
  intro fields json site s nowhere head v t inside called
  have hnone : Number.binary? Number.notANumber = none := by decide +kernel
  have hseven : Number.integer? (Number.ofInt (-7)) = some (-7) := by decide +kernel
  have hprintable : (Value.object fields).Printable Json.depthLimit := by
    refine ⟨by decide, fun keyed hkeyed => ?_, fun x hx => ?_⟩
    · have hcases : keyed = fields ∨ keyed = [("k", .bool true)] := by
        simpa [fields, Value.parts, Value.fieldsParts, Value.itemsParts] using hkeyed
      rcases hcases with rfl | rfl <;> decide
    · have hcases : x = Number.notANumber ∨ x = Number.ofInt (-7) := by
        simpa [fields, Value.parts, Value.fieldsParts, Value.itemsParts] using hx
      rcases hcases with rfl | rfl
      · exact .inl hnone
      · exact .inr ⟨-7, hseven, by decide⟩
  have hjson : (Value.object fields).toJson = json := by
    simp only [fields, Value.toJson, Value.fieldsToJson, Value.itemsToJson,
      Value.numberToJson_of_none hnone, Value.numberToJson_of_integer hseven (by decide)]
    rfl
  have hflush : s.builder.flushText = s.builder := by
    have hblank : (Text.trim "").isEmpty = true := by decide
    simp [s, Builder.flushText, Builder.takeText, hblank]
  have h := @walk_toolCall_arguments site ScopeTree.root s "c1" "f" fields hprintable v t
    s.store s.store rfl rfl
  rw [hjson, hflush] at h
  obtain ⟨hvalue, htext, hinside⟩ := h
  refine ⟨hprintable, hvalue _ [] ⟨rfl, rfl, rfl, rfl⟩ rfl, htext _ [] ⟨rfl, rfl, rfl, rfl⟩ rfl, ?_⟩
  exact hinside _ [.text nowhere "\n"] [.text nowhere "\n"] nowhere ⟨rfl, rfl, rfl, rfl⟩ rfl rfl rfl

end PromptTemplate
