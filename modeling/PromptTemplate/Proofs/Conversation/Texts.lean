import PromptTemplate.Conversation.Builder
import PromptTemplate.Proofs.Text.Trim

/-!
# The texts of a conversation

A builder holds the texts of the blocks that it has made and the run of text
that has not ended yet. Text goes to the end of the run; whatever else is
done to the builder ends the run, and the text of its block, if it makes one,
goes behind all others (`Builder.tally`).
-/

namespace PromptTemplate

/-- What a run of text becomes: one block, unless it is blank. -/
def textBlocks (s : String) : List Block :=
  if Text.isAllBlank s then [] else [.text (Text.trim s)]

/-- The text of a block, or of the result that it is. -/
def Block.text? : Block → Option String
  | .text value | .toolResult _ value => some value
  | .image _ | .toolCall .. => none

def textsOf (blocks : List Block) : List String := blocks.filterMap Block.text?

@[simp] theorem textsOf_append (xs ys : List Block) :
    textsOf (xs ++ ys) = textsOf xs ++ textsOf ys := List.filterMap_append

@[simp] theorem textsOf_nil : textsOf [] = [] := rfl

@[simp] theorem textBlocks_empty : textBlocks "" = [] := rfl

theorem textsOf_textBlocks (s : String) :
    textsOf (textBlocks s) = if Text.isAllBlank s then [] else [Text.trim s] := by
  unfold textBlocks
  split <;> rfl

def Message.texts (m : Message) : List String := textsOf m.content

def Conversation.texts (c : Conversation) : List String := c.messages.flatMap Message.texts

/-- Closing makes results of texts, and leaves what they say. -/
theorem OpenMessage.texts_close (m : OpenMessage) : m.close.texts = textsOf m.content := by
  have hresult : ∀ id, textsOf (m.content.map (Block.toResult id)) = textsOf m.content := by
    intro id
    rw [textsOf, List.filterMap_map]
    refine List.filterMap_congr fun block _ => ?_
    cases block <;> rfl
  unfold OpenMessage.close
  split
  · exact hresult _
  · rfl

-- ---------------------------------------------------------------------------
-- Tallies
-- ---------------------------------------------------------------------------

/-- Texts that stand in blocks, and the run of text behind them. -/
@[ext] structure Tally where
  texts : List String
  run : String

namespace Tally

def empty : Tally := ⟨[], ""⟩

def say (t : Tally) (s : String) : Tally := ⟨t.texts, t.run ++ s⟩

/-- Ends the run. -/
def cut (t : Tally) : Tally := ⟨t.texts ++ textsOf (textBlocks t.run), ""⟩

@[simp] theorem cut_cut (t : Tally) : t.cut.cut = t.cut := by simp [cut]

/-- The tally with texts before its own. -/
def after (texts : List String) (t : Tally) : Tally := ⟨texts ++ t.texts, t.run⟩

@[simp] theorem after_say (texts : List String) (t : Tally) (s : String) :
    (t.say s).after texts = (t.after texts).say s := rfl

@[simp] theorem after_cut (texts : List String) (t : Tally) :
    t.cut.after texts = (t.after texts).cut := by
  simp [cut, after]

end Tally

namespace Builder

def tally (b : Builder) : Tally :=
  ⟨b.messages.flatMap Message.texts ++
    textsOf ((b.current.map OpenMessage.content).getD []) ++ textsOf b.loose, b.text⟩

theorem flushText_eq (b : Builder) :
    b.flushText = (textBlocks b.text).foldl Builder.pushBlock { b with text := "" } := by
  unfold Builder.flushText Builder.takeText textBlocks
  simp only [Text.isEmpty_trim]
  split <;> rfl

/-- Inside a message one is open, and outside none; where one is, no block
waits for a message. -/
structure Stands (inside : Bool) (b : Builder) : Prop where
  current : b.current.isSome = inside
  loose : inside = true → b.loose = []

variable {inside : Bool} {b : Builder}

namespace Stands

theorem empty : Stands false Builder.empty := ⟨rfl, nofun⟩

theorem text (h : Stands inside b) (text : String) : Stands inside { b with text } :=
  ⟨h.current, h.loose⟩

theorem pushBlock (h : Stands inside b) (block : Block) : Stands inside (b.pushBlock block) := by
  obtain ⟨messages, current, loose, text⟩ := b
  obtain ⟨rfl, hloose⟩ := h
  cases current with
  | none => exact ⟨rfl, nofun⟩
  | some m => exact ⟨rfl, hloose⟩

theorem flushText (h : Stands inside b) : Stands inside b.flushText := by
  rw [flushText_eq]
  unfold textBlocks
  split
  · exact h.text ""
  · exact (h.text "").pushBlock _

theorem flushLoose (h : Stands inside b) : Stands inside b.flushLoose := by
  unfold Builder.flushLoose
  dsimp only
  split
  · exact h.flushText
  · exact ⟨h.flushText.current, fun _ => rfl⟩

end Stands

theorem Stands.current_eq_none (h : Stands false b) : b.current = none := by
  simpa using h.current

theorem loose_flushLoose (b : Builder) : b.flushLoose.loose = [] := by
  unfold flushLoose
  dsimp only
  split
  · rename_i hempty
    exact List.isEmpty_iff.mp hempty
  · rfl

theorem tally_pushBlock (h : Stands inside b) (block : Block) :
    (b.pushBlock block).tally = ⟨b.tally.texts ++ textsOf [block], b.text⟩ := by
  obtain ⟨messages, current, loose, text⟩ := b
  obtain ⟨rfl, hloose⟩ := h
  cases current with
  | none => simp [Builder.pushBlock, tally]
  | some m =>
    obtain rfl : loose = [] := hloose rfl
    simp [Builder.pushBlock, tally]

theorem tally_flushText (h : Stands inside b) : b.flushText.tally = b.tally.cut := by
  rw [flushText_eq, Tally.cut]
  change _ = (⟨b.tally.texts ++ textsOf (textBlocks b.text), ""⟩ : Tally)
  unfold textBlocks
  split
  · simp [tally]
  · exact tally_pushBlock (h.text "") _

theorem tally_flushLoose (h : Stands inside b) : b.flushLoose.tally = b.tally.cut := by
  rw [← tally_flushText h]
  have hflush := h.flushText
  unfold flushLoose
  dsimp only
  generalize b.flushText = flushed at hflush ⊢
  split
  · rfl
  · rename_i hne
    have houtside : inside ≠ true := fun hin => hne (by simp [hflush.loose hin])
    obtain rfl : inside = false := by simpa using houtside
    simp [tally, hflush.current_eq_none, Message.texts]

theorem stands_beginMessage (b : Builder) (role : Role) (toolId : Option String) :
    Stands true (b.beginMessage role toolId) := by
  have hloose := loose_flushLoose b
  unfold beginMessage
  generalize b.flushLoose = flushed at hloose ⊢
  exact ⟨rfl, fun _ => hloose⟩

/-- A message begins outside messages. -/
theorem tally_beginMessage (h : Stands false b) (role : Role) (toolId : Option String) :
    (b.beginMessage role toolId).tally = b.tally.cut := by
  rw [← tally_flushLoose h]
  simp [beginMessage, tally, h.flushLoose.current_eq_none]

theorem stands_endMessage (b : Builder) : Stands false b.endMessage := by
  unfold endMessage
  dsimp only
  generalize b.flushText = flushed
  split
  · exact ⟨rfl, nofun⟩
  · rename_i hnone
    exact ⟨by simp [hnone], nofun⟩

theorem tally_endMessage (h : Stands inside b) : b.endMessage.tally = b.tally.cut := by
  rw [← tally_flushText h]
  unfold endMessage
  dsimp only
  split
  · rename_i m hsome
    simp [tally, hsome, OpenMessage.texts_close]
  · rfl

/-- Messages are taken over outside messages. -/
theorem Stands.extend (h : Stands false b) (messages : List Message) :
    Stands false (b.extend messages) := by
  have hflush := h.flushLoose
  unfold Builder.extend
  generalize b.flushLoose = flushed at hflush ⊢
  exact ⟨hflush.current, nofun⟩

theorem tally_extend (h : Stands false b) (messages : List Message) :
    (b.extend messages).tally =
      ⟨b.tally.cut.texts ++ messages.flatMap Message.texts, ""⟩ := by
  have htally := tally_flushLoose h
  have hflush := h.flushLoose
  have hloose := loose_flushLoose b
  unfold extend
  generalize b.flushLoose = flushed at htally hflush hloose ⊢
  have hrun : flushed.text = "" := congrArg Tally.run htally
  rw [← htally]
  simp [tally, hflush.current_eq_none, hloose, hrun]

/-- A finished builder has made the blocks of all its text. -/
theorem texts_finish (h : Stands inside b) :
    b.finish.flatMap Message.texts = b.tally.cut.texts := by
  have hend := stands_endMessage b
  have htally : b.endMessage.flushLoose.tally = b.tally.cut := by
    rw [tally_flushLoose hend, tally_endMessage h, Tally.cut_cut]
  have hflush := hend.flushLoose
  have hloose := loose_flushLoose b.endMessage
  unfold finish
  generalize b.endMessage.flushLoose = flushed at htally hflush hloose ⊢
  rw [← htally]
  simp [tally, hflush.current_eq_none, hloose]

end Builder

end PromptTemplate
