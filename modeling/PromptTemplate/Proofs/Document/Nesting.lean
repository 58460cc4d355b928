import PromptTemplate.Proofs.Document.Stream

/-!
# Which documents are accepted

A row of items is accepted if it nests, and then its tree is the only one that
the grammar makes of it. Otherwise the error is at the first item after which
nothing nests any more, or at the end.
-/

namespace PromptTemplate

open PromptTemplate.Parser TokenStream Lexer

-- ---------------------------------------------------------------------------
-- The grammar and the stack
-- ---------------------------------------------------------------------------

/-- Some continuation makes a tree. -/
def Viable (items : List Item) : Prop := ∃ more nodes, Derives (items ++ more) nodes

def Construct.closing : Construct → Item
  | .ifBlock _ => .ifClose
  | .eachBlock _ => .eachClose
  | .tag name => .tagClose name

theorem Item.run_closing (stack : List Construct) :
    run (stack.map Construct.closing) stack = some [] := by
  induction stack with
  | nil => rfl
  | cons c stack ih => cases c <;> simpa [Construct.closing, step] using ih

theorem Item.step_tags {item : Item} {stack stack' : List Construct} {name : String}
    (hstep : item.step stack = some stack') (hname : .tag name ∈ stack') :
    .tag name ∈ stack ∨ ∃ attributes, item = .tagOpen name attributes := by
  cases item with
  | tagOpen opened attributes =>
    obtain rfl := Option.some.inj hstep
    obtain heq | hmem := List.mem_cons.mp hname
    · exact .inr ⟨attributes, by rw [Construct.tag.inj heq]⟩
    · exact .inl hmem
  | _ =>
    simp only [step] at hstep
    grind

/-- The tags that are open have been opened by some item. -/
theorem Item.run_tags {items : List Item} {stack stack' : List Construct} {name : String}
    (hrun : run items stack = some stack') (hname : .tag name ∈ stack') :
    .tag name ∈ stack ∨ ∃ attributes, .tagOpen name attributes ∈ items := by
  induction items generalizing stack with
  | nil =>
    obtain rfl := Option.some.inj hrun
    exact .inl hname
  | cons item items ih =>
    obtain ⟨next, hstep, hrun⟩ := Option.bind_eq_some_iff.mp hrun
    obtain hnext | ⟨attributes, hmem⟩ := ih hrun
    · obtain hstack | ⟨attributes, rfl⟩ := step_tags hstep hnext
      · exact .inl hstack
      · exact .inr ⟨attributes, List.mem_cons_self ..⟩
    · exact .inr ⟨attributes, List.mem_cons_of_mem _ hmem⟩

theorem Item.closing_wellFormed {items : List Item} {stack : List Construct}
    (hwell : ∀ item ∈ items, item.WellFormed) (hrun : run items [] = some stack) :
    ∀ c ∈ stack, c.closing.WellFormed := by
  intro c hc
  cases c with
  | ifBlock | eachBlock => trivial
  | tag name =>
    obtain hnil | ⟨attributes, hmem⟩ := run_tags hrun hc
    · cases hnil
    · exact (hwell _ hmem).tag

theorem Item.closes_nil {items : List Item} (h : Closes [] items) : items = [] := by
  cases items with
  | nil => rfl
  | cons item items =>
    obtain ⟨hinner, hstep⟩ := h
    cases item with
    | elseIf | otherwise | ifClose | eachClose | tagClose => cases hstep
    | _ => cases hinner

/-- The reader of nodes itself finds a tree where the stack ends empty. -/
theorem derives_of_run {items : List Item} (hwell : ∀ item ∈ items, item.WellFormed)
    (hrun : Item.run items [] = some []) : ∃ nodes, Derives items nodes := by
  -- the reader is given the words of the items without any text they stand in
  let tokens : List Token := (items.flatMap Item.words).map fun kind => ⟨kind, .nowhere⟩
  have hholds : Holds [] items ⟨tokens, .ok .start⟩ :=
    ⟨by simp [tokens, Function.comp_def], .start, rfl⟩
  have hfollows := Node.list_tracks (Item.size items + 1) [] items hwell (Nat.lt_succ_self _) _ hholds
  generalize Node.list (Item.size items + 1) [] _ = result at hfollows
  cases result with
  | ok found =>
    obtain ⟨nodes, t⟩ := found
    obtain ⟨done, rest, stack, hmoves, hderives, rfl, hcloses⟩ := hfollows
    obtain rfl := Item.closes_nil hcloses
    have hitems := hmoves.items
    rw [List.append_nil] at hitems
    exact ⟨_, hitems ▸ hderives⟩
  | error error =>
    obtain ⟨done, rest, stack, t, hmoves, hstuck, -⟩ := hfollows
    rw [hmoves.items, Item.run_append, hmoves.run, Option.bind_some] at hrun
    cases rest with
    | nil => exact absurd (Option.some.inj hrun) hstuck
    | cons item rest =>
      rw [Item.run_cons, show item.step stack = none from hstuck] at hrun
      cases hrun

theorem Viable.of_run {items : List Item} {stack : List Construct}
    (hwell : ∀ item ∈ items, item.WellFormed) (hrun : Item.run items [] = some stack) :
    Viable items := by
  -- what is still open is closed in turn
  have hclosing := Item.closing_wellFormed hwell hrun
  have hall : ∀ item ∈ items ++ stack.map Construct.closing, item.WellFormed := by
    intro item hitem
    rcases List.mem_append.mp hitem with hitem | hitem
    · exact hwell item hitem
    · obtain ⟨c, hc, rfl⟩ := List.mem_map.mp hitem
      exact hclosing c hc
  obtain ⟨nodes, hnodes⟩ := derives_of_run hall (by simp [hrun, Item.run_closing])
  exact ⟨_, nodes, hnodes⟩

theorem not_viable {done : List Item} {item : Item} {stack : List Construct}
    (hrun : Item.run done [] = some stack) (hstep : item.step stack = none) :
    ¬ Viable (done ++ [item]) := by
  rintro ⟨more, nodes, h⟩
  have hderived := h.run []
  simp [hrun, hstep] at hderived

-- ---------------------------------------------------------------------------
-- Documents
-- ---------------------------------------------------------------------------

theorem configParser_reads : Reads Node.configParser []
    (fun k => ∀ body, k ≠ some (.config body)) (· = []) := by
  refine Reads.look Reads.peek (fun _ => id) fun found hfound => ?_
  split
  · exact absurd rfl (hfound _)
  · exact Reads.pure rfl

theorem Item.words_head (item : Item) (body : String) : item.words.head? ≠ some (.config body) := by
  cases item <;> simp [Item.words]

/-- A document follows its items to the end. -/
theorem document_tracks {items : List Item} (hwell : ∀ item ∈ items, item.WellFormed) :
    Tracks Document.parser [] [] items
      fun d done stack rest => Derives done (Node.eraseAll d.nodes) ∧ stack = [] ∧ rest = [] := by
  have hhead : ∀ body, ([] ++ items.flatMap Item.words).head? ≠ some (.config body) := by
    intro body
    cases items with
    | nil => exact nofun
    | cons item items =>
      obtain ⟨kind, kinds, hwords⟩ := List.exists_cons_of_length_pos item.words_length_pos
      have hitem := item.words_head body
      simpa [hwords] using hitem
  rw [Document.parser]
  refine Tracks.read configParser_reads hhead fun opening hopening => ?_
  obtain rfl := hopening
  intro s hs
  have hsize : s.tokens.length + 1 = Item.size items + 1 := by
    rw [← List.length_map (f := Token.kind), hs.1, List.nil_append, Item.size]
  rw [bind_of_ok (show Parser.budget s = .ok (s.tokens.length + 1, s) from rfl), hsize]
  refine Tracks.bind (Node.list_tracks _ [] items hwell (Nat.lt_succ_self _)) ?_ s hs
  rintro nodes done stack rest rfl ⟨hnodes, rfl, hcloses⟩
  refine Tracks.pure ⟨?_, rfl, Item.closes_nil hcloses⟩
  simpa using hnodes

/-- What comes of parsing a row of items: the tree it makes, or an error where the stack is stuck. -/
theorem parseDocument_holds {source : String} {items : List Item}
    (hwell : ∀ item ∈ items, item.WellFormed)
    (hholds : Holds [] items (Lexer.document source).stream) :
    (∃ d, parseDocument source = .ok d ∧ Derives items (Node.eraseAll d.nodes)) ∨
    ∃ error done rest stack t, parseDocument source = .error error ∧
      Moves (Lexer.document source).stream [] items done rest stack t ∧
        Item.Stuck stack rest ∧ error.location.start = t.front := by
  have hfollows := document_tracks hwell _ hholds
  simp only [parseDocument, StateT.run]
  generalize Document.parser _ = result at hfollows
  cases result with
  | ok found =>
    obtain ⟨d, t⟩ := found
    obtain ⟨done, rest, stack, hmoves, hderives, -, rfl⟩ := hfollows
    have hitems := hmoves.items
    rw [List.append_nil] at hitems
    exact .inl ⟨d, rfl, hitems ▸ hderives⟩
  | error error =>
    obtain ⟨done, rest, stack, t, hmoves, hstuck, hfront⟩ := hfollows
    exact .inr ⟨error, done, rest, stack, t, rfl, hmoves, hstuck, hfront⟩

theorem not_derives_of_stuck {done rest : List Item} {stack : List Construct}
    (hrun : Item.run done [] = some stack) (hstuck : Item.Stuck stack rest) (nodes : List Node) :
    ¬ Derives (done ++ rest) nodes := by
  intro hnodes
  have hall := hnodes.run []
  rw [Item.run_append, hrun, Option.bind_some] at hall
  cases rest with
  | nil => exact hstuck (Option.some.inj hall)
  | cons item rest =>
    rw [Item.run_cons, show item.step stack = none from hstuck] at hall
    cases hall

theorem Derives.same {items : List Item} {m n : List Node} (h : Derives items m)
    (h' : Derives items n) : m = n :=
  (h.unique h' (x := []) (y := []) nofun nofun rfl).1

/-- A text whose tokens are those of a row of items with a tree is parsed as this tree. -/
theorem parseDocument_of_derives {source : String} {items : List Item} {nodes : List Node}
    (hwell : ∀ item ∈ items, item.WellFormed)
    (hholds : Holds [] items (Lexer.document source).stream) (hnodes : Derives items nodes) :
    ∃ d, parseDocument source = .ok d ∧ Node.eraseAll d.nodes = nodes := by
  obtain ⟨d, hparse, hderives⟩ | ⟨error, done, rest, stack, t, -, hmoves, hstuck, -⟩ :=
    parseDocument_holds hwell hholds
  · exact ⟨d, hparse, hderives.same hnodes⟩
  · rw [hmoves.items] at hnodes
    exact absurd hnodes (not_derives_of_stuck hmoves.run hstuck _)

/-- The text of a row of items. -/
def Item.source (numeral : Float → List Char) (items : List Item) : String :=
  String.ofList (spellItems numeral items)

theorem Item.source_config?_none {numeral : Float → List Char} {items : List Item} {c : Char}
    {cs : List Char} (hsource : spellItems numeral items = c :: cs) (hblank : Text.isBlank c = false)
    (hdash : c ≠ '-') : (Lexer.document (source numeral items)).config? = none := by
  rw [Lexer.document, source, String.toList_ofList, hsource]
  exact config?_none hblank hdash

/-- A row of items is accepted if and only if it nests, with the one tree it makes. Otherwise the
error starts where nothing nests any more that goes on with the next item, or at the end of the
text. -/
theorem parseDocument_accepts {numeral : Float → List Char} {items : List Item}
    (h : Readable numeral items)
    (hconfig : (Lexer.document (Item.source numeral items)).config? = none) :
    ((∃ d, parseDocument (Item.source numeral items) = .ok d) ↔ ∃ nodes, Derives items nodes) ∧
    (∀ d, parseDocument (Item.source numeral items) = .ok d →
      ∀ nodes, Derives items nodes ↔ nodes = Node.eraseAll d.nodes) ∧
    ∀ error, parseDocument (Item.source numeral items) = .error error →
      ∃ done rest, items = done ++ rest ∧ Viable done ∧
        (∀ item ∈ rest.head?, ¬ Viable (done ++ [item])) ∧
        error.location.start = ((spellItems numeral done).map Char.utf8Size).sum := by
  have hstream := document_stream hconfig
  rw [Item.source, String.toList_ofList] at hstream
  have hholds : Holds [] items (Lexer.document (Item.source numeral items)).stream := by
    obtain ⟨tokens, htokens, hkinds⟩ := items_stream h
    rw [Item.source, hstream, htokens]
    exact ⟨hkinds, _, rfl⟩
  obtain ⟨d, hparse, hderives⟩ | ⟨error, done, rest, stack, t, hparse, hmoves, hstuck, hfront⟩ :=
    parseDocument_holds h.wellFormed hholds
  · rw [hparse]
    refine ⟨⟨fun _ => ⟨_, hderives⟩, fun _ => ⟨d, rfl⟩⟩, ?_, nofun⟩
    rintro _ ⟨⟩ nodes
    exact ⟨fun hnodes => hnodes.same hderives, fun hnodes => hnodes ▸ hderives⟩
  · obtain rfl := hmoves.items
    have hwell := (List.forall_mem_append.mp h.wellFormed).1
    have hnot := not_derives_of_stuck hmoves.run hstuck
    rw [hparse]
    refine ⟨⟨nofun, fun ⟨nodes, hnodes⟩ => absurd hnodes (hnot nodes)⟩, nofun, ?_⟩
    rintro _ ⟨⟩
    refine ⟨done, rest, rfl, .of_run hwell hmoves.run, ?_, ?_⟩
    · intro item hitem
      cases rest with
      | nil => cases hitem
      | cons first rest =>
        obtain rfl := Option.some.inj hitem
        exact not_viable hmoves.run hstuck
    · have hlater := hmoves.later
      rw [Item.source, hstream] at hlater
      rw [hfront, items_front h hmoves.holds hlater]

/-- A branch in its place has its tree; a stray closing tag after a text is where the error is. -/
theorem parseDocument_accepts_branch :
    let x : Expr := .identifier .nowhere "x"
    let branch : List Item := [.ifOpen x, .otherwise, .text "a", .ifClose]
    let stray : List Item := [.text "a", .tagClose "n"]
    Item.source (fun _ => []) branch = "\x7b#if x\x7d\x7b:else\x7da\x7b/if\x7d" ∧
    Item.source (fun _ => []) stray = "a</n>" ∧
    (∃ d, parseDocument (Item.source (fun _ => []) branch) = .ok d ∧ Node.eraseAll d.nodes =
      [.ifBlock .nowhere x [] [.otherwise [.text .nowhere "a"]]]) ∧
    ∃ error, parseDocument (Item.source (fun _ => []) stray) = .error error ∧
      error.location.start = 1 := by
  intro x branch stray
  have hx : x.WellFormed := ⟨isWord_of rfl (by decide), rfl⟩
  have hn : IsTagName "n" := ⟨'n', [], rfl, rfl, nofun⟩
  have hbranch : Readable (fun _ => []) branch := by
    refine ⟨?_, ?_, ?_⟩
    · simpa [branch, Item.WellFormed] using hx
    · simp [branch, Item.words, x, Expr.words, Numbered]
    · simp [branch, Item.Separate, Item.isText]
  have hstray : Readable (fun _ => []) stray := by
    refine ⟨?_, ?_, ?_⟩
    · simpa [stray, Item.WellFormed] using hn
    · simp [stray, Item.words, Numbered]
    · simp [stray, Item.Separate, Item.isText]
  have hfirst := parseDocument_accepts hbranch (Item.source_config?_none rfl (by decide) (by decide))
  have hsecond := parseDocument_accepts hstray (Item.source_config?_none rfl (by decide) (by decide))
  refine ⟨?_, ?_, ?_, ?_⟩
  · simp [branch, x, Item.source, spellItems, Item.spell, Expr.spell, Expr.words, spellWords,
      TokenKind.spell, escapeText, isEscapable]
  · simp [stray, Item.source, spellItems, Item.spell, escapeText, isEscapable]
  · have htree : Derives branch [.ifBlock .nowhere x [] [.otherwise [.text .nowhere "a"]]] :=
      .ifBlock .nil (.otherwise (.text .nil)) .nil
    obtain ⟨d, hd⟩ := hfirst.1.mpr ⟨_, htree⟩
    exact ⟨d, hd, ((hfirst.2.1 d hd _).mp htree).symm⟩
  · have hnone : ¬ ∃ nodes, Derives stray nodes := by
      rintro ⟨nodes, h⟩
      exact absurd (h.run []) (by simp [stray, Item.step])
    cases hparse : parseDocument (Item.source (fun _ => []) stray) with
    | ok d => exact absurd (hsecond.1.mp ⟨d, hparse⟩) hnone
    | error error =>
    refine ⟨error, rfl, ?_⟩
    obtain ⟨done, rest, hitems, hviable, hnot, hlocation⟩ := hsecond.2.2 error hparse
    have hopen : Viable [.text "a"] := ⟨[], _, .text .nil⟩
    have hstuck : ¬ Viable [.text "a", .tagClose "n"] :=
      @not_viable [.text "a"] (.tagClose "n") [] rfl rfl
    rcases done with _ | ⟨first, _ | ⟨second, done⟩⟩
    · subst hitems
      exact absurd hopen (hnot (.text "a") rfl)
    · obtain ⟨rfl, -⟩ := List.cons.inj hitems
      rw [hlocation]
      rfl
    · obtain ⟨rfl, hmore⟩ := List.cons.inj hitems
      obtain ⟨rfl, hnil⟩ := List.cons.inj hmore
      obtain ⟨rfl, rfl⟩ := List.nil_eq_append_iff.mp hnil
      exact absurd hviable hstuck

end PromptTemplate
