import PromptTemplate.Proofs.Node.Heads
import PromptTemplate.Proofs.Parser.Tracks

/-!
# Reading the items of a document

The list of nodes follows the items as the stack of open constructs does, with
the tree that the grammar makes of what it takes.
-/

namespace PromptTemplate

open PromptTemplate.Parser TokenStream

namespace Node

/-- The items up to the end of the innermost construct make these nodes. -/
def Listed (enclosing : List Construct) (nodes : List Node) (done : List Item)
    (stack : List Construct) (rest : List Item) : Prop :=
  Derives done (eraseAll nodes) ∧ stack = enclosing ∧ Item.Closes enclosing rest

/-- Tracks every row of items of fewer words than `budget`. -/
def TracksBelow (nested : List Construct → Parser (List Node)) (budget : Nat) : Prop :=
  ∀ enclosing items, (∀ item ∈ items, item.WellFormed) → Item.size items < budget →
    Tracks (nested enclosing) [] enclosing items (Listed enclosing)

/-- The items up to the end of an if block are these branches of it; behind an `else` there are
none. -/
def Branched (enclosing : List Construct) (hasElse : Bool) (r : List Alternate × Span)
    (done : List Item) (stack : List Construct) (_ : List Item) : Prop :=
  ∃ branches, done = branches ++ [.ifClose] ∧ stack = enclosing ∧
    (hasElse = true → branches = []) ∧ DerivesAlternates branches (Alternate.eraseAll r.1)

section
variable {nested : List Construct → Parser (List Node)} {budget : Nat}
  (hnested : TracksBelow nested budget) {enclosing : List Construct}
include hnested

/-- A branch of an if block and those after it. -/
theorem branches_tracks {β : Type} {make : List Node → List Alternate × Span → β} {rounds : Nat}
    {hasElse : Bool} {items : List Item} (hwell : ∀ item ∈ items, item.WellFormed)
    (hsize : Item.size items < budget)
    (hmore : ∀ rest, (∀ item ∈ rest, item.WellFormed) → Item.size rest ≤ Item.size items →
      Item.Closes (.ifBlock hasElse :: enclosing) rest →
      Tracks (alternates nested enclosing rounds hasElse) [] (.ifBlock hasElse :: enclosing) rest
        (Branched enclosing hasElse)) :
    Tracks (do
        let body ← nested (.ifBlock hasElse :: enclosing)
        let found ← alternates nested enclosing rounds hasElse
        return make body found)
      [] (.ifBlock hasElse :: enclosing) items
      fun made done stack _ => ∃ body branches nodes found,
        done = body ++ (branches ++ [.ifClose]) ∧ stack = enclosing ∧ Derives body (eraseAll nodes) ∧
          (hasElse = true → branches = []) ∧
            DerivesAlternates branches (Alternate.eraseAll found.1) ∧ made = make nodes found := by
  refine Tracks.bind (hnested _ items hwell hsize) ?_
  rintro nodes body stack rest rfl ⟨hbody, rfl, hcloses⟩
  refine Tracks.bind (hmore rest (List.forall_mem_append.mp hwell).2 ?_ hcloses) ?_
  · rw [Item.size_append]
    omega
  · rintro found done stack rest rfl ⟨branches, rfl, rfl, hnone, hfound⟩
    exact Tracks.pure ⟨body, branches, nodes, found, by simp, rfl, hbody, hnone, hfound, rfl⟩

theorem alternates_tracks {rounds : Nat} {hasElse : Bool} {items : List Item}
    (hwell : ∀ item ∈ items, item.WellFormed) (hsize : Item.size items < budget)
    (hrounds : Item.size items < rounds) (hcloses : Item.Closes (.ifBlock hasElse :: enclosing) items) :
    Tracks (alternates nested enclosing rounds hasElse) [] (.ifBlock hasElse :: enclosing) items
      (Branched enclosing hasElse) := by
  induction rounds generalizing hasElse items with
  | zero => cases hrounds
  | succ rounds ih =>
    cases items with
    | nil => cases hcloses
    | cons item items =>
      obtain ⟨hitem, hrest⟩ := List.forall_mem_cons.mp hwell
      have hpos := item.words_length_pos
      rw [Item.size_cons] at hsize hrounds
      rw [alternates]
      cases item with
      | elseIf condition =>
        cases hasElse with
        | true => cases hcloses.2
        | false =>
          refine Tracks.enter rfl (Tracks.step Reads.takeRequired fun token htoken => ?_)
          simp only [htoken, if_true, discard_bind]
          refine Tracks.step Reads.take fun _ _ => Tracks.step Reads.takeWord fun found hfound => ?_
          rw [if_pos hfound]
          refine Tracks.read (Expr.parser_reads hitem) Expr.ends_mustacheClose fun a ha => ?_
          refine Tracks.step Reads.expectClose fun _ _ => ?_
          refine (branches_tracks hnested hrest (by omega) fun rest hwell hle hcloses =>
            ih hwell (by omega) (by omega) hcloses).mono ?_
          rintro r done stack rest ⟨body, branches, nodes, found, rfl, rfl, hbody, -, hmore, rfl⟩
          refine ⟨.elseIf condition :: (body ++ branches), by simp, rfl, nofun, ?_⟩
          simp only [Alternate.eraseAll, ha]
          exact .elseIf hbody hmore
      | otherwise =>
        cases hasElse with
        | true => cases hcloses.2
        | false =>
          refine Tracks.enter rfl (Tracks.step Reads.takeRequired fun token htoken => ?_)
          simp only [htoken, if_true, discard_bind]
          refine Tracks.step Reads.take fun _ _ => ?_
          refine Tracks.read Reads.takeWord_none (by simp) fun found hfound => ?_
          simp only [hfound, Bool.false_eq_true, if_false]
          refine Tracks.step Reads.expectClose fun _ _ => ?_
          refine (branches_tracks hnested hrest (by omega) fun rest hwell hle hcloses =>
            ih hwell (by omega) (by omega) hcloses).mono ?_
          rintro r done stack rest ⟨body, branches, nodes, found, rfl, rfl, hbody, hnone, hmore, rfl⟩
          obtain rfl := hnone rfl
          refine ⟨.otherwise :: body, by simp, rfl, nofun, ?_⟩
          simp only [Alternate.eraseAll]
          generalize Alternate.eraseAll found.1 = alternates at hmore ⊢
          cases hmore
          exact .otherwise hbody
      | ifClose =>
        refine Tracks.enter rfl (Tracks.step Reads.takeRequired fun token htoken => ?_)
        simp only [htoken, reduceCtorEq, if_false]
        refine Tracks.step Reads.expectClose fun _ _ => Tracks.pure ?_
        exact ⟨[], rfl, rfl, fun _ => rfl, .nil⟩
      | eachClose | tagClose => cases hcloses.2
      | _ => cases hcloses.1

theorem ifBlock_tracks {condition : Expr} {items : List Item} {start : Span} {rounds : Nat}
    (hcondition : condition.WellFormed) (hwell : ∀ item ∈ items, item.WellFormed)
    (hsize : Item.size items < budget) (hrounds : Item.size items < rounds) :
    Tracks (ifBlockParser nested enclosing rounds start)
      (condition.words false ++ [.mustacheClose]) (.ifBlock false :: enclosing) items
      fun node done stack _ => ∃ body branches nodes alternates,
        done = body ++ (branches ++ [.ifClose]) ∧ stack = enclosing ∧ Derives body nodes ∧
          DerivesAlternates branches alternates ∧
            node.erase = .ifBlock .nowhere condition.erase nodes alternates := by
  rw [ifBlockParser]
  simp only [discard_bind]
  refine Tracks.read (Expr.parser_reads hcondition) Expr.ends_mustacheClose fun a ha => ?_
  refine Tracks.step Reads.expectClose fun _ _ => ?_
  refine (branches_tracks hnested hwell hsize fun rest hwell hle hcloses =>
    alternates_tracks hnested hwell (by omega) (by omega) hcloses).mono ?_
  rintro node done stack rest ⟨body, branches, nodes, found, rfl, rfl, hbody, -, hmore, rfl⟩
  refine ⟨body, branches, _, _, rfl, rfl, hbody, hmore, ?_⟩
  simp [Node.erase, ha]

/-- A loop that has had its branch is given no other one. -/
theorem fallback_tracks {rounds : Nat} {hasElse : Bool} {earlier : Option (List Node)}
    {items : List Item} (hwell : ∀ item ∈ items, item.WellFormed) (hsize : Item.size items < budget)
    (hrounds : Item.size items < rounds)
    (hcloses : Item.Closes (.eachBlock hasElse :: enclosing) items) :
    Tracks (fallback nested enclosing rounds earlier) [] (.eachBlock hasElse :: enclosing) items
      fun r done stack _ => ∃ branch, done = branch ++ [.eachClose] ∧ stack = enclosing ∧
        (branch = [] ∧ r.1 = earlier ∨
          hasElse = false ∧ DerivesFallback branch (eraseFallback r.1)) := by
  induction rounds generalizing hasElse items earlier with
  | zero => cases hrounds
  | succ rounds ih =>
    cases items with
    | nil => cases hcloses
    | cons item items =>
      obtain ⟨hitem, hrest⟩ := List.forall_mem_cons.mp hwell
      have hpos := item.words_length_pos
      rw [Item.size_cons] at hsize hrounds
      rw [fallback]
      cases item with
      | otherwise =>
        cases hasElse with
        | true => cases hcloses.2
        | false =>
          refine Tracks.enter rfl (Tracks.step Reads.takeRequired fun token htoken => ?_)
          simp only [htoken, if_true, discard_bind]
          refine Tracks.step Reads.take fun _ _ => Tracks.step Reads.expectClose fun _ _ => ?_
          refine Tracks.bind (hnested _ items hrest (by omega)) ?_
          rintro body done stack rest rfl ⟨hbody, rfl, hcloses⟩
          rw [Item.size_append] at hsize hrounds
          refine (ih (List.forall_mem_append.mp hrest).2 (by omega) (by omega) hcloses).mono ?_
          rintro r done' stack rest ⟨branch, rfl, rfl, ⟨rfl, hr⟩ | ⟨⟨⟩, -⟩⟩
          refine ⟨.otherwise :: done, by simp, rfl, .inr ⟨trivial, ?_⟩⟩
          rw [hr, eraseFallback]
          exact .some hbody
      | eachClose =>
        refine Tracks.enter rfl (Tracks.step Reads.takeRequired fun token htoken => ?_)
        simp only [htoken, reduceCtorEq, if_false]
        refine Tracks.step Reads.expectClose fun _ _ => Tracks.pure ?_
        exact ⟨[], rfl, rfl, .inl ⟨rfl, rfl⟩⟩
      | elseIf | ifClose | tagClose => cases hcloses.2
      | _ => cases hcloses.1

/-- A loop after its head. -/
theorem eachBody_tracks {items : List Item} {rounds : Nat}
    (make : List Node → Option (List Node) → Span → Node)
    (hwell : ∀ item ∈ items, item.WellFormed) (hsize : Item.size items < budget)
    (hrounds : Item.size items < rounds) :
    Tracks (do
        discard expectClose
        let body ← nested (.eachBlock false :: enclosing)
        let (fallback, last) ← fallback nested enclosing rounds none
        return make body fallback last)
      [.mustacheClose] (.eachBlock false :: enclosing) items
      fun node done stack _ => ∃ body branch nodes fallback last,
        done = body ++ (branch ++ [.eachClose]) ∧ stack = enclosing ∧ Derives body (eraseAll nodes) ∧
          DerivesFallback branch (eraseFallback fallback) ∧ node = make nodes fallback last := by
  simp only [discard_bind]
  refine Tracks.step Reads.expectClose fun _ _ => ?_
  refine Tracks.bind (hnested _ items hwell hsize) ?_
  rintro body done stack rest rfl ⟨hbody, rfl, hcloses⟩
  rw [Item.size_append] at hsize hrounds
  refine Tracks.bind (fallback_tracks hnested (List.forall_mem_append.mp hwell).2 (by omega)
    (by omega) hcloses) ?_
  rintro more done' stack rest rfl ⟨branch, rfl, rfl, hmore⟩
  refine Tracks.pure ⟨done, branch, body, more.1, more.2, by simp, rfl, hbody, ?_, rfl⟩
  obtain ⟨rfl, hnone⟩ | ⟨-, hmore⟩ := hmore
  · rw [hnone]
    exact .none
  · exact hmore

theorem eachBlock_tracks {iterable : Expr} {item : Pattern} {index : Option Ident}
    {items : List Item} {start : Span} {rounds : Nat}
    (hhead : iterable.WellFormed ∧ item.WellFormed) (hwell : ∀ item ∈ items, item.WellFormed)
    (hsize : Item.size items < budget) (hrounds : Item.size items < rounds) :
    Tracks (eachBlockParser nested enclosing rounds start)
      (iterable.words false ++ .identifier "as" :: item.words ++ Ident.words index ++
        [.mustacheClose]) (.eachBlock false :: enclosing) items
      fun node done stack _ => ∃ body branch nodes fallback,
        done = body ++ (branch ++ [.eachClose]) ∧ stack = enclosing ∧ Derives body nodes ∧
          DerivesFallback branch fallback ∧
            node.erase = .eachBlock .nowhere iterable.erase item.erase (index.map Ident.erase) nodes
              fallback := by
  rw [eachBlockParser]
  simp only [List.append_assoc, List.cons_append]
  refine Tracks.read (Expr.parser_reads hhead.1) ?_ fun a ha => ?_
  · exact ⟨⟨rfl, rfl⟩, rfl, by simp, rfl⟩
  refine Tracks.step Reads.takeWord fun found hfound => ?_
  simp only [hfound, Bool.not_true, Bool.false_eq_true, if_false]
  have hpattern : Reads Pattern.parser item.words (fun _ => True) (·.erase = item.erase) :=
    Pattern.parser_reads hhead.2
  refine Tracks.read hpattern trivial fun b hb => ?_
  have hmade (found : Option Ident) (hfound : found.map Ident.erase = index.map Ident.erase) :=
    (@eachBody_tracks nested budget hnested enclosing items rounds
      (fun body fallback last => .eachBlock (start.join last) a b found body fallback) hwell hsize
      hrounds).mono (R := fun node done stack _ => ∃ body branch nodes fallback,
        done = body ++ (branch ++ [.eachClose]) ∧ stack = enclosing ∧ Derives body nodes ∧
          DerivesFallback branch fallback ∧
            node.erase = .eachBlock .nowhere iterable.erase item.erase (index.map Ident.erase) nodes
              fallback) (by
      rintro node done stack rest ⟨body, branch, nodes, fallback, last, hdone, hstack, hbody, hmore, rfl⟩
      exact ⟨body, branch, _, _, hdone, hstack, hbody, hmore, by simp [Node.erase, ha, hb, hfound]⟩)
  cases index with
  | none =>
    refine Tracks.read Reads.takeSymbol_none (by simp) fun found hfound => ?_
    simp only [hfound, Option.isSome_none, Bool.false_eq_true, if_false, pure_bind]
    exact hmade none rfl
  | some index =>
    refine Tracks.step Reads.takeSymbol fun found hfound => ?_
    simp only [hfound, if_true, pure_bind]
    refine Tracks.step Reads.name fun found hfound => ?_
    exact hmade (some ⟨found.1, found.2⟩) (by simp [Ident.erase, hfound])

omit hnested in
/-- The head of a tag, up to its end. -/
theorem tagHead_tracks {β : Type} {name : String} {attributes : List Attribute} {rounds : Nat}
    {selfClosing : Bool} {stack : List Construct} {items : List Item}
    {rest : List Attribute × Attribute.Closing → Parser β}
    {R : β → List Item → List Construct → List Item → Prop}
    (hallowed : Tag.Allowed name attributes) (hrounds : attributes.length < rounds)
    (hrest : ∀ r, r.1.map Attribute.erase = attributes.map Attribute.erase →
      r.2.selfClosing = selfClosing → Tracks (rest r) [] stack items R) :
    Tracks (do
        let r ← Attribute.list rounds []
        Attribute.checkLiteral r.1 (TagKind.ofName name).literalAttributes
        rest r)
      (attributes.flatMap Attribute.words ++ [Attribute.closeWord selfClosing]) stack items R := by
  have hlist := @Attribute.list_reads (fun _ => True) attributes [] selfClosing rounds
    (fun a ha => (hallowed.each a ha).2) (by simpa using hallowed.distinct) hrounds
  rw [← List.append_nil (_ ++ _)]
  refine Tracks.read hlist trivial ?_
  rintro r ⟨hfound, hclosing⟩
  have hliteral := Attribute.literal_of_erase hfound hallowed.literal
  have hcheck := @Attribute.checkLiteral_reads (fun _ => True) _ _ hliteral
  exact Tracks.read hcheck trivial fun _ _ => hrest r hfound hclosing

theorem tag_tracks {name : String} {attributes : List Attribute} {items : List Item} {start : Span}
    {rounds : Nat} (hallowed : Tag.Allowed name attributes)
    (hwell : ∀ item ∈ items, item.WellFormed) (hsize : Item.size items < budget)
    (hrounds : attributes.length < rounds) :
    Tracks (tagParser nested enclosing rounds start name)
      (attributes.flatMap Attribute.words ++ [.tagEnd]) (.tag name :: enclosing) items
      fun node done stack _ => ∃ body children, done = body ++ [.tagClose name] ∧
        stack = enclosing ∧ Derives body children ∧
          node.erase = .tag (Tag.erase ⟨.nowhere, .ofName name, name, attributes⟩) children := by
  rw [tagParser, show TokenKind.tagEnd = Attribute.closeWord false from rfl]
  refine tagHead_tracks hallowed hrounds fun r hfound hclosing => ?_
  simp only [hclosing, Bool.false_eq_true, if_false]
  refine Tracks.bind (hnested _ items hwell hsize) ?_
  rintro children done stack rest rfl ⟨hchildren, rfl, hcloses⟩
  cases rest with
  | nil => cases hcloses
  | cons item rest =>
    cases item with
    | tagClose other =>
      obtain rfl : other = name := by
        have hsome := hcloses.2
        simp only [Item.step] at hsome
        split at hsome
        · assumption
        · cases hsome
      refine Tracks.enter (if_pos rfl) (Tracks.step Reads.takeRequired fun _ _ => Tracks.pure ?_)
      refine ⟨done, _, rfl, rfl, hchildren, ?_⟩
      rw [Node.erase, Tag.erase, hfound, Tag.erase]
    | _ => simp [Item.Closes, Item.isInner, Item.step] at hcloses

omit hnested in
theorem tagSelf_tracks {name : String} {attributes : List Attribute} {items : List Item}
    {start : Span} {rounds : Nat} (hallowed : Tag.Allowed name attributes)
    (hrounds : attributes.length < rounds) :
    Tracks (tagParser nested enclosing rounds start name)
      (attributes.flatMap Attribute.words ++ [.tagSelfClose]) enclosing items
      fun node done stack _ => done = [] ∧ stack = enclosing ∧
        node.erase = .tag (Tag.erase ⟨.nowhere, .ofName name, name, attributes⟩) [] := by
  rw [tagParser, show TokenKind.tagSelfClose = Attribute.closeWord true from rfl]
  refine tagHead_tracks hallowed hrounds fun r hfound hclosing => ?_
  simp only [hclosing, if_true]
  refine Tracks.pure ⟨rfl, rfl, ?_⟩
  rw [Node.erase, Node.eraseAll, Tag.erase, hfound, Tag.erase]

end

section
variable {enclosing : List Construct} {item : Item} {items : List Item} {s : TokenStream}
  (hs : Holds [] (item :: items) s)
include hs

theorem listed_inner (hinner : item.isInner) (hstep : (item.step enclosing).isSome) :
    Follows s enclosing (item :: items) (Listed enclosing) (.ok ([], s)) :=
  ⟨[], _, _, .refl hs, .nil, rfl, hinner, hstep⟩

theorem listed_stuck (hstep : item.step enclosing = none) {error : CompileError}
    (hlocation : error.location.start = s.front) :
    Follows s enclosing (item :: items) (Listed enclosing) (.error error) :=
  ⟨[], _, _, s, .refl hs, hstep, hlocation⟩

end

/-- Whether a branch may stand is read off the words after its opening. -/
theorem checkBranch_placed {enclosing : List Construct} {span : Span} {second : TokenKind}
    {kinds : List TokenKind} {s : TokenStream}
    (h : s.tokens.map Token.kind = .blockBranch :: .identifier "else" :: second :: kinds) :
    checkBranch enclosing span s =
      match if second = .identifier "if" then Construct.placeElseIf enclosing
        else Construct.placeElse enclosing with
      | .ok () => .ok ((), s)
      | .error cause => .error ⟨cause, span⟩ := by
  obtain ⟨tokens, stop⟩ := s
  obtain ⟨opening, tokens, rfl, -, h⟩ := List.map_eq_cons_iff.mp h
  obtain ⟨first, tokens, rfl, hfirst, h⟩ := List.map_eq_cons_iff.mp h
  obtain ⟨second, tokens, rfl, rfl, -⟩ := List.map_eq_cons_iff.mp h
  rw [checkBranch, bind_of_ok (show peekAt 1 _ = .ok (some first, _) from rfl),
    bind_of_ok (show peekAt 2 _ = .ok (some second, _) from rfl)]
  simp only [Option.map_some, hfirst, Option.some.injEq, TokenKind.identifier.injEq, String.reduceEq,
    if_false, if_true]
  generalize (if second.kind = .identifier "if" then Construct.placeElseIf enclosing
    else Construct.placeElse enclosing) = placed
  rcases placed with cause | ⟨⟩ <;> rfl

theorem branch_tracks {enclosing : List Construct} {span : Span} {item : Item}
    {items : List Item} {s : TokenStream} {second : TokenKind} {kinds : List TokenKind}
    (hwords : item.words = .blockBranch :: .identifier "else" :: second :: kinds)
    (hplaced : (if second = .identifier "if" then Construct.placeElseIf enclosing
      else Construct.placeElse enclosing) = .ok () ↔ (item.step enclosing).isSome)
    (hinner : item.isInner) (hs : Holds [] (item :: items) s) (hspan : span.start = s.front) :
    Follows s enclosing (item :: items) (Listed enclosing)
      ((do checkBranch enclosing span; return []) s) := by
  have hkinds := (holds_cons.mp hs).1
  rw [hwords] at hkinds
  rw [run_bind, checkBranch_placed hkinds]
  generalize (if second = .identifier "if" then Construct.placeElseIf enclosing
    else Construct.placeElse enclosing) = placed at hplaced
  rcases placed with cause | ⟨⟩
  · refine listed_stuck hs ?_ hspan
    simpa using hplaced
  · exact listed_inner hs hinner (hplaced.mp rfl)

theorem closedByBlock_if (enclosing : List Construct) :
    enclosing.head?.any (·.closedByBlock "if") ↔ (Item.ifClose.step enclosing).isSome := by
  rcases enclosing with _ | ⟨_ | _ | _, outer⟩ <;> simp [Construct.closedByBlock, Item.step]

theorem closedByBlock_each (enclosing : List Construct) :
    enclosing.head?.any (·.closedByBlock "each") ↔ (Item.eachClose.step enclosing).isSome := by
  rcases enclosing with _ | ⟨_ | _ | _, outer⟩ <;> simp [Construct.closedByBlock, Item.step]

theorem closedByTag (name : String) (enclosing : List Construct) :
    enclosing.head? = some (.tag name) ↔ ((Item.tagClose name).step enclosing).isSome := by
  rcases enclosing with _ | ⟨_ | _ | other, outer⟩
  · simp [Item.step]
  · simp [Item.step]
  · simp [Item.step]
  · by_cases h : name = other <;> simp [Item.step, h, eq_comm]

theorem close_tracks {enclosing : List Construct} {cause : Cause} {span : Span} {item : Item}
    {items : List Item} {s : TokenStream} {fits : Prop} [Decidable fits] (hinner : item.isInner)
    (hfits : fits ↔ (item.step enclosing).isSome) (hs : Holds [] (item :: items) s)
    (hspan : span.start = s.front) :
    Follows s enclosing (item :: items) (Listed enclosing)
      ((if fits then return [] else Parser.fail cause span : Parser (List Node)) s) := by
  by_cases h : fits
  · rw [if_pos h]
    exact listed_inner hs hinner (hfits.mp h)
  · rw [if_neg h]
    refine listed_stuck hs ?_ hspan
    simpa [hfits] using h

theorem attributes_length {attributes : List Attribute} {name : TokenKind} (close : TokenKind) :
    attributes.length ≤ (name :: attributes.flatMap Attribute.words ++ [close]).length := by
  have hflat : attributes.length ≤ (attributes.flatMap Attribute.words).length := by
    induction attributes with
    | nil => exact Nat.le_refl _
    | cons a rest ih =>
      simp only [List.flatMap_cons, List.length_append, List.length_cons, Attribute.words]
      omega
  simp only [List.length_append, List.length_cons]
  omega

/-- A node and those after it. -/
theorem cons_tracks {nested : List Construct → Parser (List Node)} {budget : Nat}
    (hnested : TracksBelow nested budget) {enclosing : List Construct} {items : List Item}
    (hwell : ∀ item ∈ items, item.WellFormed) (hsize : Item.size items < budget) {node : Node}
    (before : List Item)
    (hnode : ∀ done nodes, Derives done nodes → Derives (before ++ done) (node.erase :: nodes)) :
    Tracks (do return node :: (← nested enclosing)) [] enclosing items
      fun a done => Listed enclosing a (before ++ done) := by
  refine Tracks.bind (hnested _ items hwell hsize) ?_
  rintro nodes done stack rest rfl ⟨hnodes, rfl, hcloses⟩
  refine Tracks.pure ?_
  rw [List.append_nil]
  exact ⟨hnode _ _ hnodes, rfl, hcloses⟩

/-- A construct with what is inside it, and the nodes after it. -/
theorem construct_tracks {nested : List Construct → Parser (List Node)} {budget : Nat}
    (hnested : TracksBelow nested budget) {enclosing inner : List Construct} {items : List Item}
    (hwell : ∀ item ∈ items, item.WellFormed) (hsize : Item.size items < budget) {p : Parser Node}
    {kinds : List TokenKind} (opening : Item)
    (hp : Tracks p kinds inner items fun node done stack _ => stack = enclosing ∧
      ∀ rest nodes, Derives rest nodes →
        Derives (opening :: (done ++ rest)) (node.erase :: nodes)) :
    Tracks (do let node ← p; return node :: (← nested enclosing)) kinds inner items
      fun a done => Listed enclosing a (opening :: done) := by
  refine Tracks.bind hp ?_
  rintro node done stack rest rfl ⟨rfl, hnode⟩
  rw [Item.size_append] at hsize
  exact cons_tracks hnested (List.forall_mem_append.mp hwell).2 (by omega) (opening :: done) hnode

/-- Behind the last item the list of nodes ends where nothing is open, and fails elsewhere. -/
theorem listed_end {enclosing : List Construct} {s : TokenStream} (hs : Holds [] [] s)
    (budget : Nat) :
    Follows s enclosing [] (Listed enclosing) (list (budget + 1) enclosing s) := by
  obtain ⟨tokens, stop⟩ := s
  obtain rfl : tokens = [] := by simpa using hs.1
  obtain ⟨position, rfl⟩ : ∃ position, stop = .ok position := hs.2
  unfold list
  rw [bind_of_ok (show peek _ = .ok (none, _) from rfl)]
  cases enclosing with
  | nil => exact ⟨[], [], [], .refl hs, .nil, rfl, rfl⟩
  | cons inner outer => exact ⟨[], [], _, _, .refl hs, nofun, rfl⟩

/-- The list of nodes follows the items as the stack does. -/
theorem list_tracks (budget : Nat) : TracksBelow (list budget) budget := by
  induction budget with
  | zero => intro _ _ _ hsize; cases hsize
  | succ budget ih =>
    intro enclosing items hwell hsize s hs
    cases items with
    | nil => exact listed_end hs budget
    | cons item items =>
      have hpos := item.words_length_pos
      obtain ⟨hitem, hrest⟩ := List.forall_mem_cons.mp hwell
      rw [Item.size_cons] at hsize
      -- the first word of the item in front is the token that decides what is read
      obtain ⟨kind, kinds, hwords⟩ := List.exists_cons_of_length_pos hpos
      obtain ⟨tokens, stop⟩ := s
      obtain ⟨token, tokens, rfl, rfl, -⟩ :=
        List.map_eq_cons_iff.mp ((holds_cons.mp hs).1.trans (congrArg (· ++ _) hwords))
      unfold list
      dsimp only
      rw [bind_of_ok peek_cons]
      dsimp only
      generalize hkind : token.kind = kind at hwords
      cases item with
      | text value =>
        cases hwords
        dsimp only [discard_bind]
        rw [discard_bind]
        refine Tracks.enter rfl (Tracks.step Reads.take fun _ _ => ?_) _ hs
        exact cons_tracks ih hrest (by omega) [.text value] fun _ _ => .text
      | mustache value =>
        cases hwords
        simp only [discard_bind]
        refine Tracks.enter rfl (Tracks.step Reads.take fun _ _ => ?_) _ hs
        refine Tracks.read (Expr.parser_reads hitem) Expr.ends_mustacheClose fun a ha => ?_
        refine Tracks.step Reads.expectClose fun _ _ => ?_
        refine cons_tracks ih hrest (by omega) [.mustache value] fun _ _ h => ?_
        rw [erase, ha]
        exact .mustache h
      | ifOpen condition =>
        cases hwords
        simp only [discard_bind, if_true]
        refine Tracks.enter rfl (Tracks.step Reads.take fun _ _ => ?_) _ hs
        refine construct_tracks ih hrest (by omega) (.ifOpen condition)
          ((ifBlock_tracks ih hitem hrest (by omega) (by omega)).mono ?_)
        rintro node done stack - ⟨body, branches, nodes, alternates, rfl, rfl, hbody, hmore, hnode⟩
        refine ⟨rfl, fun rest others h => ?_⟩
        rw [hnode]
        simpa using .ifBlock hbody hmore h
      | eachOpen iterable item index =>
        cases hwords
        simp only [discard_bind, if_true, String.reduceEq, if_false]
        refine Tracks.enter rfl (Tracks.step Reads.take fun _ _ => ?_) _ hs
        refine construct_tracks ih hrest (by omega) (.eachOpen iterable item index)
          ((eachBlock_tracks ih ⟨hitem.1, hitem.2.1⟩ hrest (by omega) (by omega)).mono ?_)
        rintro node done stack - ⟨body, branch, nodes, fallback, rfl, rfl, hbody, hmore, hnode⟩
        refine ⟨rfl, fun rest others h => ?_⟩
        rw [hnode]
        simpa using .eachBlock hbody hmore h
      | tagOpen name attributes =>
        cases hwords
        have hcount : attributes.length ≤ (Item.tagOpen name attributes).words.length :=
          attributes_length .tagEnd
        simp only [discard_bind]
        refine Tracks.enter rfl (Tracks.step Reads.take fun _ _ => ?_) _ hs
        refine construct_tracks ih hrest (by omega) (.tagOpen name attributes)
          ((tag_tracks ih hitem hrest (by omega) (by omega)).mono ?_)
        rintro node done stack - ⟨body, children, rfl, rfl, hbody, hnode⟩
        refine ⟨rfl, fun rest others h => ?_⟩
        rw [hnode]
        simpa using .tag hbody h
      | tagSelf name attributes =>
        cases hwords
        have hcount : attributes.length ≤ (Item.tagSelf name attributes).words.length :=
          attributes_length .tagSelfClose
        simp only [discard_bind]
        refine Tracks.enter rfl (Tracks.step Reads.take fun _ _ => ?_) _ hs
        refine construct_tracks ih hrest (by omega) (.tagSelf name attributes)
          ((tagSelf_tracks hitem (by omega)).mono ?_)
        rintro node done stack - ⟨rfl, rfl, hnode⟩
        refine ⟨rfl, fun rest others h => ?_⟩
        rw [hnode]
        exact .tagSelf h
      | elseIf condition =>
        cases hwords
        exact branch_tracks rfl (Construct.placeElseIf_ok condition enclosing) rfl hs rfl
      | otherwise =>
        cases hwords
        exact branch_tracks rfl (Construct.placeElse_ok enclosing) rfl hs rfl
      | ifClose =>
        cases hwords
        exact close_tracks rfl (closedByBlock_if enclosing) hs rfl
      | eachClose =>
        cases hwords
        exact close_tracks rfl (closedByBlock_each enclosing) hs rfl
      | tagClose name =>
        cases hwords
        exact close_tracks rfl (closedByTag name enclosing) hs rfl

end Node

end PromptTemplate
