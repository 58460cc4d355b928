import PromptTemplate.Proofs.Syntax.Items

/-!
# Trees as rows of items

Every well-formed tree can be written as a row of items that nests and makes
this tree again. Alternatives with a condition come before the one without,
and no text comes right after another.
-/

namespace PromptTemplate

mutual

def Node.items : Node → List Item
  | .config _ _ => []
  | .text _ value => [.text value]
  | .mustache _ value => [.mustache value]
  | .ifBlock _ condition consequent alternates =>
    .ifOpen condition :: (Node.allItems consequent ++ (Alternate.allItems alternates ++ [.ifClose]))
  | .eachBlock _ iterable item index body fallback =>
    .eachOpen iterable item index ::
      (Node.allItems body ++ (Node.fallbackItems fallback ++ [.eachClose]))
  | .tag head [] => [.tagSelf head.name head.attributes]
  | .tag head (child :: children) =>
    .tagOpen head.name head.attributes ::
      ((child.items ++ Node.allItems children) ++ [.tagClose head.name])

def Node.allItems : List Node → List Item
  | [] => []
  | node :: nodes => node.items ++ Node.allItems nodes

def Alternate.allItems : List Alternate → List Item
  | [] => []
  | .elseIf condition body :: rest =>
    .elseIf condition :: (Node.allItems body ++ Alternate.allItems rest)
  | .otherwise body :: rest => .otherwise :: (Node.allItems body ++ Alternate.allItems rest)

def Node.fallbackItems : Option (List Node) → List Item
  | none => []
  | some body => .otherwise :: Node.allItems body

end

/-- A document as text, after an empty comment. -/
def Document.print (numeral : Float → List Char) (d : Document) : String :=
  String.ofList (emptyComment ++ spellItems numeral (Node.allItems d.nodes))

-- ---------------------------------------------------------------------------
-- Well-formed trees
-- ---------------------------------------------------------------------------

def Node.isPlain : Node → Bool
  | .text _ _ => true
  | _ => false

mutual

def Node.WellFormed : Node → Prop
  | .config _ _ => False
  | .text _ value => value ≠ ""
  | .mustache _ value => value.WellFormed
  | .ifBlock _ condition consequent alternates =>
    condition.WellFormed ∧ Node.AllWellFormed consequent ∧ Alternate.AllWellFormed alternates
  | .eachBlock _ iterable item index body fallback =>
    iterable.WellFormed ∧ item.WellFormed ∧ (∀ i ∈ index, IsWord i.name) ∧
      Node.AllWellFormed body ∧ Node.FallbackWellFormed fallback
  | .tag head children =>
    head.kind = .ofName head.name ∧ Tag.Allowed head.name head.attributes ∧
      Node.AllWellFormed children

/-- No text stands beside another one. -/
def Node.AllWellFormed : List Node → Prop
  | [] => True
  | node :: rest => node.WellFormed ∧
    (node.isPlain → ∀ second ∈ rest.head?, second.isPlain = false) ∧ Node.AllWellFormed rest

/-- Only the last branch may be without a condition. -/
def Alternate.AllWellFormed : List Alternate → Prop
  | [] => True
  | .elseIf condition body :: rest =>
    condition.WellFormed ∧ Node.AllWellFormed body ∧ Alternate.AllWellFormed rest
  | .otherwise body :: rest => Node.AllWellFormed body ∧ rest = []

def Node.FallbackWellFormed : Option (List Node) → Prop
  | none => True
  | some body => Node.AllWellFormed body

end

-- ---------------------------------------------------------------------------
-- The rows nest
-- ---------------------------------------------------------------------------

theorem Derives.append {a b : List Item} {m n : List Node} :
    Derives a m → Derives b n → Derives (a ++ b) (m ++ n)
  | .nil, hb => hb
  | .text rest, hb => .text (rest.append hb)
  | .mustache rest, hb => .mustache (rest.append hb)
  | .ifBlock consequent others rest, hb => by
    simpa using .ifBlock consequent others (rest.append hb)
  | .eachBlock each other rest, hb => by
    simpa using .eachBlock each other (rest.append hb)
  | .tag inner rest, hb => by simpa using .tag inner (rest.append hb)
  | .tagSelf rest, hb => .tagSelf (rest.append hb)

theorem Tag.erase_ofName {tag : Tag} (h : tag.kind = .ofName tag.name) :
    tag.erase = Tag.erase ⟨.nowhere, .ofName tag.name, tag.name, tag.attributes⟩ := by
  rw [Tag.erase, h, Tag.erase]

mutual

theorem Node.derives : ∀ node : Node, node.WellFormed → Derives node.items [node.erase]
  | .config _ _, h => h.elim
  | .text _ value, _ => .text .nil
  | .mustache _ value, _ => .mustache .nil
  | .ifBlock _ condition consequent alternates, h =>
    .ifBlock (Node.allDerives consequent h.2.1) (Alternate.allDerives alternates h.2.2) .nil
  | .eachBlock _ iterable item index body fallback, h =>
    .eachBlock (Node.allDerives body h.2.2.2.1) (Node.fallbackDerives fallback h.2.2.2.2) .nil
  | .tag head [], h => by
    rw [Node.items, Node.erase, Node.eraseAll, Tag.erase_ofName h.1]
    exact .tagSelf .nil
  | .tag head (child :: children), h => by
    rw [Node.items, Node.erase, Node.eraseAll, Tag.erase_ofName h.1]
    exact .tag ((Node.derives child h.2.2.1).append (Node.allDerives children h.2.2.2.2)) .nil

theorem Node.allDerives : ∀ nodes : List Node, Node.AllWellFormed nodes →
    Derives (Node.allItems nodes) (Node.eraseAll nodes)
  | [], _ => .nil
  | node :: nodes, h => (Node.derives node h.1).append (Node.allDerives nodes h.2.2)

theorem Alternate.allDerives : ∀ alternates : List Alternate, Alternate.AllWellFormed alternates →
    DerivesAlternates (Alternate.allItems alternates) (Alternate.eraseAll alternates)
  | [], _ => .nil
  | .elseIf condition body :: rest, h =>
    .elseIf (Node.allDerives body h.2.1) (Alternate.allDerives rest h.2.2)
  | .otherwise body :: rest, h => by
    obtain ⟨hbody, rfl⟩ := h
    have hlast := Node.allDerives body hbody
    simpa [Alternate.allItems, Alternate.eraseAll] using DerivesAlternates.otherwise hlast

theorem Node.fallbackDerives : ∀ fallback : Option (List Node), Node.FallbackWellFormed fallback →
    DerivesFallback (Node.fallbackItems fallback) (Node.eraseFallback fallback)
  | none, _ => .none
  | some body, h => .some (Node.allDerives body h)

end

-- ---------------------------------------------------------------------------
-- Their items
-- ---------------------------------------------------------------------------

/-- The row starts with no text. -/
def Item.Markup (items : List Item) : Prop := ∀ item ∈ items.head?, item.isText = false

mutual

theorem Node.items_wellFormed : ∀ node : Node, node.WellFormed →
    ∀ item ∈ node.items, item.WellFormed
  | .config _ _, h => h.elim
  | .text _ value, h => by
    simp only [Node.items, List.forall_mem_cons]
    exact ⟨h, nofun⟩
  | .mustache _ value, h => by
    simp only [Node.items, List.forall_mem_cons]
    exact ⟨h, nofun⟩
  | .ifBlock _ condition consequent alternates, h => by
    have hbody := Node.allItems_wellFormed consequent h.2.1
    have hbranches := Alternate.allItems_wellFormed alternates h.2.2
    simp only [Node.items, List.forall_mem_cons, List.forall_mem_append]
    exact ⟨h.1, hbody, hbranches, trivial, nofun⟩
  | .eachBlock _ iterable item index body fallback, h => by
    have hbody := Node.allItems_wellFormed body h.2.2.2.1
    have hbranch := Node.fallbackItems_wellFormed fallback h.2.2.2.2
    simp only [Node.items, List.forall_mem_cons, List.forall_mem_append]
    exact ⟨⟨h.1, h.2.1, h.2.2.1⟩, hbody, hbranch, trivial, nofun⟩
  | .tag head [], h => by
    simp only [Node.items, List.forall_mem_cons]
    exact ⟨h.2.1, nofun⟩
  | .tag head (child :: children), h => by
    have hchild := Node.items_wellFormed child h.2.2.1
    have hchildren := Node.allItems_wellFormed children h.2.2.2.2
    simp only [Node.items, List.forall_mem_cons, List.forall_mem_append]
    exact ⟨h.2.1, ⟨hchild, hchildren⟩, h.2.1.tag, nofun⟩

theorem Node.allItems_wellFormed : ∀ nodes : List Node, Node.AllWellFormed nodes →
    ∀ item ∈ Node.allItems nodes, item.WellFormed
  | [], _ => nofun
  | node :: nodes, h => by
    simp only [Node.allItems, List.forall_mem_append]
    exact ⟨Node.items_wellFormed node h.1, Node.allItems_wellFormed nodes h.2.2⟩

theorem Alternate.allItems_wellFormed : ∀ alternates : List Alternate,
    Alternate.AllWellFormed alternates → ∀ item ∈ Alternate.allItems alternates, item.WellFormed
  | [], _ => nofun
  | .elseIf condition body :: rest, h => by
    simp only [Alternate.allItems, List.forall_mem_cons, List.forall_mem_append]
    exact ⟨h.1, Node.allItems_wellFormed body h.2.1, Alternate.allItems_wellFormed rest h.2.2⟩
  | .otherwise body :: rest, h => by
    obtain ⟨hbody, rfl⟩ := h
    simp only [Alternate.allItems, List.forall_mem_cons, List.forall_mem_append]
    exact ⟨trivial, Node.allItems_wellFormed body hbody, nofun⟩

theorem Node.fallbackItems_wellFormed : ∀ fallback : Option (List Node),
    Node.FallbackWellFormed fallback → ∀ item ∈ Node.fallbackItems fallback, item.WellFormed
  | none, _ => nofun
  | some body, h => by
    simp only [Node.fallbackItems, List.forall_mem_cons]
    exact ⟨trivial, Node.allItems_wellFormed body h⟩

end

theorem Item.markup_cons {item : Item} {items : List Item} (h : item.isText = false) :
    Markup (item :: items) := by
  simpa [Markup] using h

theorem Item.separate_cons {item : Item} {items : List Item} (h : item.isText = false)
    (hitems : Separate items) : Separate (item :: items) :=
  ⟨fun htext => absurd htext (by simp [h]), hitems⟩

/-- A node starts with a text only if it is one. -/
theorem Node.items_markup {node : Node} (h : node.WellFormed) (hplain : node.isPlain = false)
    (more : List Item) : Item.Markup (node.items ++ more) := by
  cases node with
  | config => exact h.elim
  | text => cases hplain
  | tag head children => cases children <;> exact Item.markup_cons rfl
  | _ => exact Item.markup_cons rfl

theorem Node.allItems_markup {nodes : List Node} {more : List Item} (h : Node.AllWellFormed nodes)
    (hplain : ∀ node ∈ nodes.head?, node.isPlain = false) (hmore : Item.Markup more) :
    Item.Markup (Node.allItems nodes ++ more) := by
  cases nodes with
  | nil => exact hmore
  | cons node nodes =>
    rw [Node.allItems, List.append_assoc]
    exact Node.items_markup h.1 (hplain node rfl) _

theorem Alternate.allItems_markup (alternates : List Alternate) {more : List Item}
    (hmore : Item.Markup more) : Item.Markup (Alternate.allItems alternates ++ more) := by
  rcases alternates with _ | ⟨_ | _, rest⟩
  · exact hmore
  · exact Item.markup_cons rfl
  · exact Item.markup_cons rfl

theorem Node.fallbackItems_markup (fallback : Option (List Node)) {more : List Item}
    (hmore : Item.Markup more) : Item.Markup (Node.fallbackItems fallback ++ more) := by
  cases fallback with
  | none => exact hmore
  | some body => exact Item.markup_cons rfl

mutual

theorem Node.items_separate : ∀ (node : Node) (more : List Item), node.WellFormed →
    Item.Separate more → (node.isPlain → Item.Markup more) → Item.Separate (node.items ++ more)
  | .config _ _, _, h, _, _ => h.elim
  | .text _ value, more, _, hmore, hplain => ⟨fun _ => hplain rfl, hmore⟩
  | .mustache _ value, more, _, hmore, _ => Item.separate_cons rfl hmore
  | .ifBlock _ condition consequent alternates, more, h, hmore, _ => by
    simp only [Node.items, List.cons_append, List.append_assoc, List.nil_append]
    have hclose : Item.Separate (.ifClose :: more) := Item.separate_cons rfl hmore
    exact Item.separate_cons rfl (Node.allItems_separate consequent _ h.2.1
      (Alternate.allItems_separate alternates _ h.2.2 hclose (Item.markup_cons rfl))
      (Alternate.allItems_markup alternates (Item.markup_cons rfl)))
  | .eachBlock _ iterable item index body fallback, more, h, hmore, _ => by
    simp only [Node.items, List.cons_append, List.append_assoc, List.nil_append]
    have hclose : Item.Separate (.eachClose :: more) := Item.separate_cons rfl hmore
    exact Item.separate_cons rfl (Node.allItems_separate body _ h.2.2.2.1
      (Node.fallbackItems_separate fallback _ h.2.2.2.2 hclose (Item.markup_cons rfl))
      (Node.fallbackItems_markup fallback (Item.markup_cons rfl)))
  | .tag head [], more, _, hmore, _ => Item.separate_cons rfl hmore
  | .tag head (child :: children), more, h, hmore, _ => by
    simp only [Node.items, List.cons_append, List.append_assoc, List.nil_append]
    have hclose : Item.Separate (.tagClose head.name :: more) := Item.separate_cons rfl hmore
    exact Item.separate_cons rfl (Node.items_separate child _ h.2.2.1
      (Node.allItems_separate children _ h.2.2.2.2 hclose (Item.markup_cons rfl))
      fun hplain => Node.allItems_markup h.2.2.2.2 (h.2.2.2.1 hplain) (Item.markup_cons rfl))

theorem Node.allItems_separate : ∀ (nodes : List Node) (more : List Item),
    Node.AllWellFormed nodes → Item.Separate more → Item.Markup more →
      Item.Separate (Node.allItems nodes ++ more)
  | [], _, _, hmore, _ => hmore
  | node :: nodes, more, h, hmore, hmarkup => by
    rw [Node.allItems, List.append_assoc]
    exact Node.items_separate node _ h.1 (Node.allItems_separate nodes more h.2.2 hmore hmarkup)
      fun hplain => Node.allItems_markup h.2.2 (h.2.1 hplain) hmarkup

theorem Alternate.allItems_separate : ∀ (alternates : List Alternate) (more : List Item),
    Alternate.AllWellFormed alternates → Item.Separate more → Item.Markup more →
      Item.Separate (Alternate.allItems alternates ++ more)
  | [], _, _, hmore, _ => hmore
  | .elseIf condition body :: rest, more, h, hmore, hmarkup => by
    simp only [Alternate.allItems, List.cons_append, List.append_assoc]
    exact Item.separate_cons rfl (Node.allItems_separate body _ h.2.1
      (Alternate.allItems_separate rest more h.2.2 hmore hmarkup)
      (Alternate.allItems_markup rest hmarkup))
  | .otherwise body :: rest, more, h, hmore, hmarkup => by
    obtain ⟨hbody, rfl⟩ := h
    simp only [Alternate.allItems, List.cons_append, List.append_nil]
    exact Item.separate_cons rfl (Node.allItems_separate body _ hbody hmore hmarkup)

theorem Node.fallbackItems_separate : ∀ (fallback : Option (List Node)) (more : List Item),
    Node.FallbackWellFormed fallback → Item.Separate more → Item.Markup more →
      Item.Separate (Node.fallbackItems fallback ++ more)
  | none, _, _, hmore, _ => hmore
  | some body, more, h, hmore, hmarkup => by
    simp only [Node.fallbackItems, List.cons_append]
    exact Item.separate_cons rfl (Node.allItems_separate body _ h hmore hmarkup)

end

end PromptTemplate
