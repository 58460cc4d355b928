import PromptTemplate.Host.Standard
import PromptTemplate.Proofs.Conversation.Texts
import PromptTemplate.Proofs.Document.Nesting
import PromptTemplate.Proofs.Token.Section
import PromptTemplate.Proofs.Walk.Run

/-!
# Escaped text

A text with its special characters escaped is compiled as it was before: it
is one token, one node, and, if it is not blank, one block. Escaping changes
no line but by backslashes, so it makes no opening section where there was
none.
-/

namespace PromptTemplate

open Lexer

-- ---------------------------------------------------------------------------
-- Lines
-- ---------------------------------------------------------------------------

theorem isBlank_escapable {c : Char} (h : isEscapable c = true) : Text.isBlank c = false := by
  simp only [isEscapable, Bool.or_eq_true, decide_eq_true_eq] at h
  rcases h with (((((rfl | rfl) | rfl) | rfl) | rfl) | rfl) | rfl <;> decide

theorem escapeText_append (cs ds : List Char) :
    escapeText (cs ++ ds) = escapeText cs ++ escapeText ds := by
  induction cs with
  | nil => rfl
  | cons c cs ih =>
    rw [List.cons_append, escapeText, escapeText, ih]
    split <;> rfl

theorem all_isBlank_escapeText (cs : List Char) :
    (escapeText cs).all Text.isBlank = cs.all Text.isBlank := by
  induction cs with
  | nil => rfl
  | cons c cs ih =>
    rw [escapeText]
    split
    · rename_i hc
      have hslash : Text.isBlank '\\' = false := by decide
      simp [isBlank_escapable hc, hslash]
    · simp [ih]

/-- Escaping does not touch the blanks in front. -/
theorem dropWhile_escapeText (cs : List Char) :
    (escapeText cs).dropWhile Text.isBlank = escapeText (cs.dropWhile Text.isBlank) := by
  induction cs with
  | nil => rfl
  | cons c cs ih =>
    rw [escapeText]
    split
    · rename_i hc
      have hslash : Text.isBlank '\\' = false := by decide
      rw [List.dropWhile_cons_of_neg (by simp [hslash]),
        List.dropWhile_cons_of_neg (by simp [isBlank_escapable hc]), escapeText, if_pos hc]
    · rename_i hc
      cases hblank : Text.isBlank c with
      | true => rw [List.dropWhile_cons_of_pos hblank, List.dropWhile_cons_of_pos hblank, ih]
      | false =>
        rw [List.dropWhile_cons_of_neg (by simp [hblank]),
          List.dropWhile_cons_of_neg (by simp [hblank]), escapeText, if_neg hc]

theorem dropBlankEnd_concat (cs : List Char) (c : Char) :
    Text.dropBlankEnd (cs ++ [c]) =
      if Text.isBlank c then Text.dropBlankEnd cs else cs ++ [c] := by
  simp only [Text.dropBlankEnd, List.reverse_append, List.reverse_singleton, List.singleton_append,
    List.dropWhile_cons]
  split <;> simp

/-- Nor the blanks at the end. -/
theorem dropBlankEnd_escapeText (cs : List Char) :
    Text.dropBlankEnd (escapeText cs) = escapeText (Text.dropBlankEnd cs) := by
  induction cs using List.reverseRecOn with
  | nil => rfl
  | append_singleton cs c ih =>
    rw [escapeText_append, dropBlankEnd_concat]
    cases hc : isEscapable c with
    | true =>
      have hsingle : escapeText [c] = ['\\'] ++ [c] := by simp [escapeText, hc]
      rw [hsingle, ← List.append_assoc, dropBlankEnd_concat, isBlank_escapable hc]
      simp [escapeText_append, hsingle]
    | false =>
      have hsingle : escapeText [c] = [c] := by simp [escapeText, hc]
      rw [hsingle, dropBlankEnd_concat, ih]
      split
      · rfl
      · rw [escapeText_append, hsingle]

theorem trimChars_escapeText (cs : List Char) :
    Text.trimChars (escapeText cs) = escapeText (Text.trimChars cs) := by
  rw [Text.trimChars, dropWhile_escapeText, dropBlankEnd_escapeText, Text.trimChars]

/-- No line feed is escaped, and no backslash ends a line. -/
theorem lines_escapeText (cs : List Char) : lines (escapeText cs) = (lines cs).map escapeText := by
  induction cs with
  | nil => rfl
  | cons c cs ih =>
    by_cases hline : c = '\n'
    · subst hline
      simp [escapeText, lines, ih, show isEscapable '\n' = false by decide]
    · cases hc : isEscapable c with
      | true => cases hlines : lines cs <;> simp [escapeText, lines, ih, hc, hline, hlines]
      | false => cases hlines : lines cs <;> simp [escapeText, lines, ih, hc, hline, hlines]

theorem escapeText_eq_dashes {cs : List Char} (h : escapeText cs = ['-', '-', '-']) :
    cs = ['-', '-', '-'] := by
  have hstep : ∀ {c : Char} {ds rest : List Char}, escapeText (c :: ds) = '-' :: rest →
      c = '-' ∧ escapeText ds = rest := by
    intro c ds rest h
    rw [escapeText] at h
    split at h
    · cases h
    · exact List.cons.inj h
  rcases cs with _ | ⟨c, _ | ⟨d, _ | ⟨e, rest⟩⟩⟩
  · cases h
  · cases (hstep h).2
  · cases (hstep (hstep h).2).2
  · obtain ⟨rfl, hd⟩ := hstep h
    obtain ⟨rfl, he⟩ := hstep hd
    obtain ⟨rfl, hrest⟩ := hstep he
    cases rest with
    | nil => rfl
    | cons c rest =>
      rw [escapeText] at hrest
      split at hrest <;> cases hrest

/-- Escaping makes no fence. -/
theorem firstLine?_escapeText (cs : List Char) :
    firstLine? (escapeText cs) = (firstLine? cs).map escapeText := by
  simp only [firstLine?, lines_escapeText, List.find?_map, Function.comp_def,
    all_isBlank_escapeText, Option.map_map, trimChars_escapeText]

theorem escapeText_config? {cs : List Char} (h : firstLine? cs ≠ some ['-', '-', '-'])
    (p : Position) : (⟨escapeText cs, p, [], true⟩ : Lexer).config? = none := by
  rw [config?_none_iff, firstLine?_escapeText]
  intro hfence
  obtain ⟨line, hline, hescape⟩ := Option.map_eq_some_iff.mp hfence
  exact h (escapeText_eq_dashes hescape ▸ hline)

-- ---------------------------------------------------------------------------
-- Parsing
-- ---------------------------------------------------------------------------

theorem source_holds {numeral : Float → List Char} {items : List Item}
    (h : Readable numeral items)
    (hconfig : (Lexer.document (Item.source numeral items)).config? = none) :
    TokenStream.Holds [] items (Lexer.document (Item.source numeral items)).stream := by
  have hstream := document_stream hconfig
  obtain ⟨tokens, htokens, hkinds⟩ := items_stream h
  rw [Item.source, String.toList_ofList] at hstream
  rw [Item.source, hstream, htokens]
  exact ⟨hkinds, _, rfl⟩

/-- The item of a text; nothing is written of an empty one. -/
def textItems (s : String) : List Item := if s = "" then [] else [.text s]

def textNodes (s : String) : List Node := if s = "" then [] else [.text .nowhere s]

theorem textItems_derives (s : String) : Derives (textItems s) (textNodes s) := by
  unfold textItems textNodes
  split
  · exact .nil
  · exact .text .nil

theorem spell_textItems (numeral : Float → List Char) (s : String) :
    spellItems numeral (textItems s) = escapeText s.toList := by
  unfold textItems
  split
  · rename_i hs
    subst hs
    rfl
  · simp [spellItems, Item.spell]

theorem textItems_readable (numeral : Float → List Char) (s : String) :
    Readable numeral (textItems s) := by
  unfold textItems
  split
  · exact ⟨List.forall_mem_nil _, List.forall_mem_nil _, trivial⟩
  · rename_i hs
    exact ⟨by simpa [Item.WellFormed] using hs, by simp [Item.words, Numbered],
      by simp [Item.Separate]⟩

/-- A text between the tags of a message. -/
def messageItems (role : Role) (s : String) : List Item :=
  .tagOpen role.name [] :: (textItems s ++ [.tagClose role.name])

theorem isTagName_name (role : Role) : IsTagName role.name := by
  cases role
  · exact ⟨'s', ['y', 's', 't', 'e', 'm'], rfl, rfl, List.all_eq_true.mp rfl⟩
  · exact ⟨'u', ['s', 'e', 'r'], rfl, rfl, List.all_eq_true.mp rfl⟩
  · exact ⟨'a', ['s', 's', 'i', 's', 't', 'a', 'n', 't'], rfl, rfl, List.all_eq_true.mp rfl⟩
  · exact ⟨'t', ['o', 'o', 'l'], rfl, rfl, List.all_eq_true.mp rfl⟩

theorem kind_name (role : Role) : TagKind.ofName role.name = .message (some role) := by
  cases role <;> decide

theorem messageItems_readable (numeral : Float → List Char) (role : Role) (s : String) :
    Readable numeral (messageItems role s) := by
  have hname := isTagName_name role
  have htag : Tag.Allowed role.name [] := ⟨hname, .nil, nofun, nofun⟩
  unfold messageItems textItems
  split
  · refine ⟨?_, ?_, ?_⟩
    · simpa [Item.WellFormed] using ⟨htag, hname⟩
    · simp [Item.words, Numbered]
    · simp [Item.Separate, Item.isText]
  · rename_i hs
    refine ⟨?_, ?_, ?_⟩
    · simpa [Item.WellFormed] using ⟨htag, hs, hname⟩
    · simp [Item.words, Numbered]
    · simp [Item.Separate, Item.isText]

theorem spell_messageItems (numeral : Float → List Char) (role : Role) (s : String) :
    Item.source numeral (messageItems role s) =
      "<" ++ role.name ++ ">" ++ String.ofList (escapeText s.toList) ++ "</" ++ role.name ++ ">" := by
  have hspell := spell_textItems numeral s
  unfold spellItems at hspell
  apply String.toList_inj.mp
  simp [Item.source, messageItems, spellItems, Item.spell, hspell]

-- ---------------------------------------------------------------------------
-- Walking
-- ---------------------------------------------------------------------------

theorem eraseAll_eq_cons {nodes rest : List Node} {node : Node}
    (h : Node.eraseAll nodes = node :: rest) :
    ∃ first more, nodes = first :: more ∧ first.erase = node ∧ Node.eraseAll more = rest := by
  cases nodes with
  | nil => cases h
  | cons first more =>
    obtain ⟨hfirst, hmore⟩ := List.cons.inj h
    exact ⟨first, more, rfl, hfirst, hmore⟩

theorem eraseAll_eq_nil {nodes : List Node} (h : Node.eraseAll nodes = []) : nodes = [] := by
  cases nodes with
  | nil => rfl
  | cons => cases h

variable {site : Site Compiler} {p : Placement} {scope : ScopeId} {nodes : List Node} {s : String}

theorem walkAll_text (h : Node.eraseAll nodes = textNodes s) (state : WalkState) :
    walkAll site p scope nodes state =
      (.ok (), { state with builder := state.builder.pushText s }) := by
  unfold textNodes at h
  split at h
  · rename_i hs
    obtain rfl := eraseAll_eq_nil h
    simp [walkAll, hs, Builder.pushText]
  · obtain ⟨first, more, rfl, hfirst, hmore⟩ := eraseAll_eq_cons h
    obtain rfl := eraseAll_eq_nil hmore
    cases first with
    | text span value =>
      cases hfirst
      simp [walkAll, walk, Action.run_bind]
    | _ => cases hfirst

theorem walkAll_message {role : Role} (hrole : role ≠ .tool)
    (h : Node.eraseAll nodes = [.tag (Tag.erase ⟨.nowhere, .ofName role.name, role.name, []⟩)
      (textNodes s)]) (state : WalkState) :
    walkAll site .outermost scope nodes state =
      (.ok (), { state with
        builder := ((state.builder.beginMessage role none).pushText s).endMessage }) := by
  obtain ⟨first, more, rfl, hfirst, hmore⟩ := eraseAll_eq_cons h
  obtain rfl := eraseAll_eq_nil hmore
  cases first with
  | tag head children =>
    obtain ⟨hhead, hchildren⟩ := Node.tag.inj hfirst
    have hkind : head.kind = .message (some role) :=
      (congrArg Tag.kind hhead).trans (kind_name role)
    have hadmits : Placement.outermost.admitsMessage = .ok () := rfl
    simp [walkAll, walk, hkind, walkMessage, openMessage, messageRole, toolId, hrole, hadmits,
      walkAll_text hchildren, Action.run_bind]
  | _ => cases hfirst

-- ---------------------------------------------------------------------------
-- The result
-- ---------------------------------------------------------------------------

theorem compile_of_walk {context : Context} {source : String} {d : Document} {b : Builder}
    (hparse : parseDocument source = .ok d) (hsplit : d.split = ([], nodes))
    (hwalk : ∀ (site : Site Compiler) (state : WalkState), state.builder = .empty →
      walkAll site .outermost ScopeTree.root nodes state = (.ok (), { state with builder := b })) :
    compile context source = (.ok ⟨[], b.finish⟩, []) := by
  unfold compile compileWithin
  rw [compileDocument_ok]
  refine ⟨d, hparse, Document.compile_ok.mpr ?_⟩
  simp only [hsplit]
  exact ⟨_, compileNodes_ok.mpr ⟨b, hwalk _ _ rfl, rfl⟩, trivial, rfl⟩

theorem finish_text (s : String) : (Builder.empty.pushText s).finish =
    if Text.isAllBlank s then [] else [⟨.system, textBlocks s⟩] := by
  have hflush : (Builder.empty.pushText s).flushText = ⟨[], none, textBlocks s, ""⟩ := by
    rw [Builder.flushText_eq]
    simp only [Builder.pushText, Builder.empty, String.empty_append]
    unfold textBlocks
    split <;> rfl
  have hend : (Builder.empty.pushText s).endMessage = ⟨[], none, textBlocks s, ""⟩ := by
    rw [Builder.endMessage, hflush]
  have hagain : (⟨[], none, textBlocks s, ""⟩ : Builder).flushText = ⟨[], none, textBlocks s, ""⟩ :=
    Builder.flushText_eq _
  rw [Builder.finish, hend, Builder.flushLoose, hagain]
  unfold textBlocks
  split <;> rfl

theorem finish_message {role : Role} (hrole : role ≠ .tool) (s : String) :
    (((Builder.empty.beginMessage role none).pushText s).endMessage).finish =
      [⟨role, textBlocks s⟩] := by
  have hbegin : (Builder.empty.beginMessage role none).pushText s =
      ⟨[], some ⟨role, none, []⟩, [], s⟩ := by
    simp [Builder.beginMessage, Builder.flushLoose, Builder.flushText_eq, Builder.empty,
      Builder.pushText]
  have hflush : (⟨[], some ⟨role, none, []⟩, [], s⟩ : Builder).flushText =
      ⟨[], some ⟨role, none, textBlocks s⟩, [], ""⟩ := by
    rw [Builder.flushText_eq]
    unfold textBlocks
    split <;> rfl
  have hclose : OpenMessage.close ⟨role, none, textBlocks s⟩ = ⟨role, textBlocks s⟩ := by
    cases role <;> rfl
  have hend : (⟨[], some ⟨role, none, []⟩, [], s⟩ : Builder).endMessage =
      ⟨[⟨role, textBlocks s⟩], none, [], ""⟩ := by
    simp only [Builder.endMessage, hflush, hclose, List.nil_append]
  rw [hbegin, hend]
  simp [Builder.finish, Builder.endMessage, Builder.flushLoose, Builder.flushText_eq]

theorem split_of_eraseAll {d : Document} (h : Node.eraseAll d.nodes = nodes)
    (hconfig : ∀ span entries rest, nodes ≠ .config span entries :: rest) :
    d.split = ([], d.nodes) := by
  unfold Document.split
  split
  · rename_i hnodes
    rw [hnodes] at h
    exact absurd h.symm (hconfig _ _ _)
  · rfl

theorem compile_message (context : Context) {role : Role} (hrole : role ≠ .tool) (s : String) :
    compile context ("<" ++ role.name ++ ">" ++ String.ofList (escapeText s.toList) ++
      "</" ++ role.name ++ ">") = (.ok ⟨[], [⟨role, textBlocks s⟩]⟩, []) := by
  have hitems : Derives (messageItems role s)
      [.tag (Tag.erase ⟨.nowhere, .ofName role.name, role.name, []⟩) (textNodes s)] :=
    .tag (textItems_derives s) .nil
  have hsource := spell_messageItems (fun _ => []) role s
  have hconfig : (Lexer.document (Item.source (fun _ => []) (messageItems role s))).config? = none :=
    Item.source_config?_none rfl (by decide) (by decide)
  have hreadable := messageItems_readable (fun _ => []) role s
  obtain ⟨d, hparse, hnodes⟩ :=
    parseDocument_of_derives hreadable.wellFormed (source_holds hreadable hconfig) hitems
  rw [hsource] at hparse
  rw [← finish_message hrole s]
  refine compile_of_walk hparse (split_of_eraseAll hnodes (by simp)) fun site state hstate => ?_
  rw [walkAll_message hrole hnodes, hstate]

theorem compile_text (context : Context) {s : String}
    (hfence : firstLine? s.toList ≠ some ['-', '-', '-']) :
    compile context (String.ofList (escapeText s.toList)) =
      (.ok ⟨[], if Text.isAllBlank s then [] else [⟨.system, textBlocks s⟩]⟩, []) := by
  have hsource : Item.source (fun _ => []) (textItems s) = String.ofList (escapeText s.toList) :=
    congrArg String.ofList (spell_textItems _ s)
  have hconfig : (Lexer.document (Item.source (fun _ => []) (textItems s))).config? = none := by
    rw [hsource, Lexer.document, String.toList_ofList]
    exact escapeText_config? hfence _
  have hreadable := textItems_readable (fun _ => []) s
  obtain ⟨d, hparse, hnodes⟩ := parseDocument_of_derives hreadable.wellFormed
    (source_holds hreadable hconfig) (textItems_derives s)
  rw [hsource] at hparse
  have hsplit : d.split = ([], d.nodes) := by
    refine split_of_eraseAll hnodes ?_
    unfold textNodes
    split <;> simp
  rw [← finish_text s]
  refine compile_of_walk hparse hsplit fun site state hstate => ?_
  rw [walkAll_text hnodes, hstate]

/-- Escaped, any text between the tags of a message is its content, and any
text that does not open with a section is a message of its own: trimmed, in
one block, or in none if it is blank. -/
theorem compile_escaped (context : Context) (s : String) :
    (∀ role : Role, role ≠ .tool →
      compile context ("<" ++ role.name ++ ">" ++ String.ofList (escapeText s.toList) ++
          "</" ++ role.name ++ ">") =
        (.ok ⟨[], [⟨role, if Text.isAllBlank s then [] else [.text (Text.trim s)]⟩]⟩, [])) ∧
    (firstLine? s.toList ≠ some ['-', '-', '-'] →
      compile context (String.ofList (escapeText s.toList)) =
        (.ok ⟨[], if Text.isAllBlank s then [] else [⟨.system, [.text (Text.trim s)]⟩]⟩, [])) := by
  refine ⟨fun role hrole => compile_message context hrole s, fun hfence => ?_⟩
  rw [compile_text context hfence]
  unfold textBlocks
  split <;> rfl

/-- Braces, what would begin a comment, and a backslash at the end. -/
theorem compile_escaped_comment :
    let context : Context := ⟨[], standardHost none, 0⟩
    compile context "<user>a\\/\\*\\\x7bb \\\\</user>" =
        (.ok ⟨[], [⟨.user, [.text "a/*\x7bb \\"]⟩]⟩, []) ∧
      compile context " a\\/\\*\\\x7bb \\\\" = (.ok ⟨[], [⟨.system, [.text "a/*\x7bb \\"]⟩]⟩, []) :=
  ⟨(compile_escaped _ "a/*\x7bb \\").1 .user (by decide),
    (compile_escaped _ " a/*\x7bb \\").2 (by decide)⟩

end PromptTemplate
