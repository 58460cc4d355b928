import PromptTemplate.Conversation.Builder
import PromptTemplate.Proofs.Text.Trim

/-!
# Well-formed conversations and their builder

Tool calls are made by the assistant, results belong to one tool message
each, and no text has blanks at its ends. A builder whose open message is
the one that the tags around ask for (`Builder.Fits`) builds such messages,
whatever is done to it in whatever order.
-/

namespace PromptTemplate

/-- A text as it stands in a finished block. -/
def Text.Trimmed (s : String) : Prop := s ≠ "" ∧ Text.trim s = s

theorem Text.trimmed_trim {s : String} (h : (Text.trim s).isEmpty = false) :
    Text.Trimmed (Text.trim s) :=
  ⟨by simpa [String.isEmpty_iff] using h, Text.trim_trim s⟩

/-- A block that a finished message of a role may have. -/
def Block.AllowedIn (role : Role) : Block → Prop
  | .text value => role ≠ .tool ∧ Text.Trimmed value
  | .image url => Text.trim url = url
  | .toolCall _ _ arguments => role = .assistant ∧ arguments.isObject = true
  | .toolResult _ value => role = .tool ∧ Text.Trimmed value

structure Message.WellFormed (m : Message) : Prop where
  allowed : ∀ block ∈ m.content, block.AllowedIn m.role
  oneCall : ∀ id value id' value', Block.toolResult id value ∈ m.content →
    Block.toolResult id' value' ∈ m.content → id = id'

/-- A block that a message of a role may have while it is open: its text is
not yet a result. -/
def Block.OpenIn (role : Role) : Block → Prop
  | .text value => Text.Trimmed value
  | .image url => Text.trim url = url
  | .toolCall _ _ arguments => role = .assistant ∧ arguments.isObject = true
  | .toolResult _ _ => False

/-- Nothing is open outside messages; inside one, a message of its role is,
and it has an id if it is a tool message. -/
inductive OpenMessage.Matches : Option Role → Option OpenMessage → Prop
  | outside : Matches none none
  | inside {m : OpenMessage} (tool : m.role = .tool → m.toolId.isSome)
      (content : ∀ block ∈ m.content, block.OpenIn m.role) : Matches (some m.role) (some m)

/-- What holds of the builder between two steps inside a message of a role,
or outside messages. -/
structure Builder.Fits (around : Option Role) (b : Builder) : Prop where
  messages : ∀ m ∈ b.messages, m.WellFormed
  loose : ∀ block ∈ b.loose, block.OpenIn .system
  current : OpenMessage.Matches around b.current

theorem Message.wellFormed_of_open {role : Role} {content : List Block} (hrole : role ≠ .tool)
    (h : ∀ block ∈ content, block.OpenIn role) : (Message.mk role content).WellFormed where
  allowed block hm := by
    have := h block hm
    cases block with
    | text => exact ⟨hrole, this⟩
    | image => exact this
    | toolCall => exact this
    | toolResult => exact this.elim
  oneCall id value _ _ hm _ := (h _ hm).elim

/-- Closing gives every result of a tool message the id of the message. -/
theorem OpenMessage.wellFormed_close {m : OpenMessage} (tool : m.role = .tool → m.toolId.isSome)
    (content : ∀ block ∈ m.content, block.OpenIn m.role) : m.close.WellFormed := by
  obtain ⟨role, toolId, blocks⟩ := m
  by_cases hrole : role = .tool
  · subst hrole
    obtain ⟨id, rfl⟩ := Option.isSome_iff_exists.mp (tool rfl)
    have hid : ∀ name value, Block.toolResult name value ∈ blocks.map (Block.toResult id) →
        name = id := by
      intro name value hm
      obtain ⟨block, hblock, hresult⟩ := List.mem_map.mp hm
      cases block with
      | text => cases hresult; rfl
      | image | toolCall => cases hresult
      | toolResult => exact (content _ hblock).elim
    refine ⟨?_, fun _ _ _ _ h h' => (hid _ _ h).trans (hid _ _ h').symm⟩
    intro block hm
    obtain ⟨block, hblock, rfl⟩ := List.mem_map.mp hm
    have := content block hblock
    cases block with
    | text => exact ⟨rfl, this⟩
    | image => exact this
    | toolCall => cases this.1
    | toolResult => exact this.elim
  · have hclose : OpenMessage.close ⟨role, toolId, blocks⟩ = ⟨role, blocks⟩ := by
      cases role <;> simp_all [OpenMessage.close]
    rw [hclose]
    exact Message.wellFormed_of_open hrole content

namespace Builder.Fits

theorem empty : Fits none Builder.empty where
  messages := by simp [Builder.empty]
  loose := by simp [Builder.empty]
  current := .outside

variable {around : Option Role} {b : Builder}

theorem text (h : Fits around b) (text : String) : Fits around { b with text } :=
  ⟨h.messages, h.loose, h.current⟩

theorem pushBlock (h : Fits around b) {block : Block}
    (hb : block.OpenIn (around.getD .system)) : Fits around (b.pushBlock block) := by
  obtain ⟨messages, current, loose, text⟩ := b
  have hcurrent := h.current
  cases hcurrent with
  | outside =>
    exact ⟨h.messages, List.forall_mem_append.mpr ⟨h.loose, by simpa using hb⟩, .outside⟩
  | @inside m tool content =>
    have hcontent : ∀ x ∈ m.content ++ [block], x.OpenIn m.role :=
      List.forall_mem_append.mpr ⟨content, by simpa using hb⟩
    exact ⟨h.messages, h.loose,
      .inside (m := { m with content := m.content ++ [block] }) tool hcontent⟩

theorem flushText (h : Fits around b) : Fits around b.flushText := by
  unfold Builder.flushText Builder.takeText
  dsimp only
  split
  · exact h.text ""
  · rename_i hne
    exact (h.text "").pushBlock (Text.trimmed_trim (by simpa using hne))

theorem addMessages (h : Fits around b) {messages : List Message}
    (hm : ∀ m ∈ messages, m.WellFormed) :
    Fits around { b with messages := b.messages ++ messages } :=
  ⟨List.forall_mem_append.mpr ⟨h.messages, hm⟩, h.loose, h.current⟩

theorem flushLoose (h : Fits around b) : Fits around b.flushLoose := by
  unfold Builder.flushLoose
  dsimp only
  split
  · exact h.flushText
  · have hloose : ∀ m ∈ [Message.mk .system b.flushText.loose], m.WellFormed := by
      simpa using Message.wellFormed_of_open (by decide) h.flushText.loose
    have hadd := h.flushText.addMessages hloose
    exact ⟨hadd.messages, by simp, hadd.current⟩

theorem beginMessage (h : Fits around b) {role : Role} {toolId : Option String}
    (tool : role = .tool → toolId.isSome) : Fits (some role) (b.beginMessage role toolId) := by
  have hf := h.flushLoose
  unfold Builder.beginMessage
  generalize b.flushLoose = flushed at hf
  exact ⟨hf.messages, hf.loose, .inside (m := ⟨role, toolId, []⟩) tool (by simp)⟩

theorem endMessage (h : Fits around b) : Fits none b.endMessage := by
  have hf := h.flushText
  unfold Builder.endMessage
  dsimp only
  generalize b.flushText = b at hf
  obtain ⟨messages, current, loose, text⟩ := b
  have hcurrent := hf.current
  cases hcurrent with
  | outside => exact hf
  | @inside m tool content =>
    have hclosed : ∀ m' ∈ [m.close], m'.WellFormed := by
      simpa using OpenMessage.wellFormed_close tool content
    have hadd := hf.addMessages hclosed
    exact ⟨hadd.messages, hadd.loose, .outside⟩

theorem extend (h : Fits around b) {messages : List Message}
    (hm : ∀ m ∈ messages, m.WellFormed) : Fits around (b.extend messages) :=
  h.flushLoose.addMessages hm

theorem finish (h : Fits around b) : ∀ m ∈ b.finish, m.WellFormed :=
  h.endMessage.flushLoose.messages

end Builder.Fits

end PromptTemplate

/-! ## Messages in front

The messages that a builder has finished do not matter to what is done next:
they can be put in front of it before or after. A builder without an open
message to which messages were added is an empty one with everything so far
in front. -/

namespace PromptTemplate.Builder

/-- The builder with finished messages in front of its own. -/
def behind (earlier : List Message) (b : Builder) : Builder :=
  { b with messages := earlier ++ b.messages }

variable {earlier : List Message} {b : Builder}

theorem pushBlock_behind (block : Block) :
    (b.behind earlier).pushBlock block = (b.pushBlock block).behind earlier := by
  obtain ⟨messages, current, loose, text⟩ := b
  cases current <;> rfl

theorem flushText_behind : (b.behind earlier).flushText = b.flushText.behind earlier := by
  unfold flushText takeText
  dsimp only [behind]
  split
  · rfl
  · exact pushBlock_behind (b := { b with text := "" }) _

theorem flushLoose_behind : (b.behind earlier).flushLoose = b.flushLoose.behind earlier := by
  unfold flushLoose
  dsimp only
  rw [flushText_behind]
  generalize b.flushText = b
  by_cases h : b.loose.isEmpty = true <;> simp [behind, h]

theorem beginMessage_behind (role : Role) (toolId : Option String) :
    (b.behind earlier).beginMessage role toolId = (b.beginMessage role toolId).behind earlier := by
  unfold beginMessage
  rw [flushLoose_behind]
  rfl

theorem endMessage_behind : (b.behind earlier).endMessage = b.endMessage.behind earlier := by
  unfold endMessage
  dsimp only
  rw [flushText_behind]
  generalize b.flushText = b
  obtain ⟨messages, current, loose, text⟩ := b
  cases current <;> simp [behind]

theorem extend_behind (messages : List Message) :
    (b.behind earlier).extend messages = (b.extend messages).behind earlier := by
  unfold extend
  dsimp only
  rw [flushLoose_behind]
  simp [behind]

theorem finish_behind : (b.behind earlier).finish = earlier ++ b.finish := by
  unfold finish
  rw [endMessage_behind, flushLoose_behind]
  rfl

-- ---------------------------------------------------------------------------
-- Between messages
-- ---------------------------------------------------------------------------

theorem text_flushText : b.flushText.text = "" := by
  unfold flushText takeText
  dsimp only
  split
  · rfl
  · obtain ⟨messages, current, loose, text⟩ := b
    cases current <;> rfl

theorem flushText_flushText : b.flushText.flushText = b.flushText := by
  have htext := text_flushText (b := b)
  generalize b.flushText = b at htext
  obtain ⟨messages, current, loose, text⟩ := b
  subst htext
  rfl

theorem current_flushText (h : b.current = none) : b.flushText.current = none := by
  unfold flushText takeText
  dsimp only
  split
  · exact h
  · unfold pushBlock
    dsimp only
    rw [h]

/-- Where no message is open, ending what is loose leaves nothing that has
not ended. -/
theorem flushLoose_of_current (h : b.current = none) :
    b.flushLoose = Builder.empty.behind b.finish := by
  have hcurrent := current_flushText h
  have htext := text_flushText (b := b)
  have hend : b.endMessage = b.flushText := by
    unfold endMessage
    dsimp only
    rw [hcurrent]
  have hfinish : b.finish = b.flushLoose.messages := by
    unfold finish flushLoose
    dsimp only
    rw [hend, flushText_flushText]
  rw [hfinish]
  unfold flushLoose
  dsimp only
  generalize b.flushText = b at hcurrent htext
  obtain ⟨messages, current, loose, text⟩ := b
  subst hcurrent htext
  cases loose <;> simp [behind, empty]

theorem extend_of_current (h : b.current = none) (messages : List Message) :
    b.extend messages = Builder.empty.behind (b.finish ++ messages) := by
  unfold extend
  rw [flushLoose_of_current h]
  simp [behind, empty]

end PromptTemplate.Builder
