import PromptTemplate.Proofs.Expr.Sound
import PromptTemplate.Proofs.Syntax.Trees

/-!
# Parsed nodes are well-formed

What the reader of nodes makes of good tokens can be written and read again.
-/

namespace PromptTemplate

open PromptTemplate.Parser TokenStream

-- ---------------------------------------------------------------------------
-- Patterns
-- ---------------------------------------------------------------------------

namespace Pattern

section
variable {nested : Parser Pattern} (hnested : Sound nested WellFormed)
include hnested

theorem entries_sound (budget : Nat) : Sound (entries nested budget) EntriesWellFormed := by
  induction budget with
  | zero => exact .failAtEnd
  | succ budget ih =>
    rw [entries]
    simp only [discard_bind]
    refine Sound.bind .takeSymbol fun found _ => Sound.ite (fun _ => .pure trivial) fun _ => ?_
    refine Sound.bind .name fun key hkey => Sound.bind .takeSymbol fun colon _ => ?_
    have hname : (Pattern.ident ⟨key.1, key.2⟩).WellFormed := hkey
    refine Sound.ite (fun _ => Sound.bind hnested ?_) fun _ => Sound.bind (.pure hname) ?_
    all_goals
      intro binding hbinding
      refine Sound.bind .takeSymbol fun comma _ => Sound.ite (fun _ => ?_) fun _ => ?_
      · exact Sound.bind ih fun more hmore => .pure ⟨hkey, hbinding, hmore⟩
      · exact Sound.bind .expectSymbol fun _ _ => .pure ⟨hkey, hbinding, trivial⟩

theorem items_sound (budget : Nat) : Sound (items nested budget) ItemsWellFormed := by
  induction budget with
  | zero => exact .failAtEnd
  | succ budget ih =>
    rw [items]
    simp only [discard_bind]
    refine Sound.bind .takeSymbol fun found _ => Sound.ite (fun _ => .pure trivial) fun _ => ?_
    refine Sound.bind hnested fun first hfirst => ?_
    refine Sound.bind .takeSymbol fun comma _ => Sound.ite (fun _ => ?_) fun _ => ?_
    · exact Sound.bind ih fun more hmore => .pure ⟨hfirst, hmore⟩
    · exact Sound.bind .expectSymbol fun _ _ => .pure ⟨hfirst, trivial⟩

end

theorem patterns_sound (budget : Nat) : Sound (patterns budget) WellFormed := by
  induction budget with
  | zero => exact .failAtEnd
  | succ budget ih =>
    rw [patterns]
    refine Sound.bind .takeRequired fun token htoken => ?_
    split
    · rename_i name hkind
      rw [hkind] at htoken
      exact .pure htoken
    · exact Sound.bind (entries_sound ih _) fun entries h => .pure h
    · exact Sound.bind (items_sound ih _) fun items h => .pure h
    · exact .fail

theorem parser_sound : Sound parser WellFormed := Sound.budget_bind patterns_sound

end Pattern

-- ---------------------------------------------------------------------------
-- Attributes
-- ---------------------------------------------------------------------------

namespace Attribute

theorem valueParser_sound : Sound valueParser AttributeValue.WellFormed := by
  rw [valueParser]
  simp only [discard_bind]
  refine Sound.bind .takeSymbol fun found _ => Sound.ite (fun _ => .pure trivial) fun _ => ?_
  refine Sound.bind .take fun token htoken => ?_
  split
  · exact .failAtEnd
  · rename_i token
    have htoken := htoken token rfl
    split
    · rename_i text hkind
      rw [hkind] at htoken
      exact .pure htoken
    · exact Sound.bind Expr.parser_sound fun value h => Sound.bind .expectClose fun _ _ => .pure h
    · exact .fail
    · exact .fail

/-- Attributes of one tag, as far as they go. -/
structure Listed (attributes : List Attribute) : Prop where
  distinct : (attributes.map Attribute.name).Nodup
  each : ∀ a ∈ attributes, IsAttributeName a.name ∧ a.value.WellFormed

theorem Listed.concat {attributes : List Attribute} {a : Attribute} (h : Listed attributes)
    (hnew : (find? attributes a.name).isSome = false) (hname : IsAttributeName a.name)
    (hvalue : a.value.WellFormed) : Listed (attributes ++ [a]) := by
  have hdistinct : ∀ b ∈ attributes, b.name ≠ a.name := by
    simpa [find?, List.find?_isSome] using hnew
  constructor
  · rw [List.map_append, List.nodup_append]
    refine ⟨h.distinct, by simp, ?_⟩
    simpa using hdistinct
  · intro b hb
    rcases List.mem_append.mp hb with hb | hb
    · exact h.each b hb
    · obtain rfl := List.mem_singleton.mp hb
      exact ⟨hname, hvalue⟩

theorem list_sound (budget : Nat) {earlier : List Attribute} (h : Listed earlier) :
    Sound (list budget earlier) fun r => Listed r.1 := by
  induction budget generalizing earlier with
  | zero => exact .failAtEnd
  | succ budget ih =>
    rw [list]
    refine Sound.bind .takeRequired fun token htoken => ?_
    split
    · rename_i name hkind
      rw [hkind] at htoken
      refine Sound.ite (fun _ => .fail) fun hnew => ?_
      refine Sound.bind valueParser_sound fun value hvalue => ih ?_
      exact h.concat (a := ⟨name, token.span, value⟩) (by simpa using hnew) htoken hvalue
    · exact .pure h
    · exact .pure h
    · exact .fail
    · exact .fail

theorem find?_name {attributes : List Attribute} {a : Attribute}
    (h : (attributes.map Attribute.name).Nodup) (ha : a ∈ attributes) :
    find? attributes a.name = some a := by
  induction attributes with
  | nil => cases ha
  | cons first rest ih =>
    obtain ⟨hfirst, hrest⟩ := List.nodup_cons.mp h
    rcases List.mem_cons.mp ha with rfl | ha
    · simp [find?]
    · have hne : first.name ≠ a.name := fun heq => hfirst (heq ▸ List.mem_map_of_mem ha)
      rw [find?, List.find?_cons_of_neg (by simpa using hne)]
      exact ih hrest ha

theorem checkLiteral_sound {attributes : List Attribute} (h : Listed attributes)
    (names : List String) : Sound (checkLiteral attributes names) fun _ =>
      ∀ a ∈ attributes, a.name ∈ names → a.value.isExpression = false := by
  induction names with
  | nil => exact .pure (by simp)
  | cons name names ih =>
    rw [checkLiteral]
    split
    · exact .fail
    · rename_i hfound
      refine ih.mono fun _ hnames a ha hname => ?_
      rcases List.mem_cons.mp hname with rfl | hname
      · obtain ⟨name, span, value⟩ := a
        cases value with
        | expression value => exact (hfound _ _ _ (find?_name h.distinct ha)).elim
        | _ => rfl
      · exact hnames a ha hname

end Attribute

-- ---------------------------------------------------------------------------
-- Nodes
-- ---------------------------------------------------------------------------

/-- A branch may come in the innermost construct. -/
def Construct.Branches (enclosing : List Construct) : Prop := (Item.otherwise.step enclosing).isSome

theorem Construct.branches_of_placeElseIf {enclosing : List Construct}
    (h : placeElseIf enclosing = .ok ()) : Branches enclosing := by
  have hstep := (placeElseIf_ok (.identifier .nowhere "") enclosing).mp h
  rcases enclosing with _ | ⟨(_ | _) | _ | _, outer⟩ <;> first | rfl | cases hstep

namespace Node

open Construct

/-- Only where a branch may come is one left over. -/
def Stops (enclosing : List Construct) (s : TokenStream) : Prop :=
  ∀ token ∈ s.tokens.head?, token.kind = .blockBranch → Branches enclosing

/-- A text may come first only if `text` says so. -/
def Starts (text : Bool) (s : TokenStream) : Prop :=
  ∀ token ∈ s.tokens.head?, token.kind.isText → text

theorem stops_of_head {enclosing : List Construct} {s : TokenStream} {token : Token}
    (hhead : s.tokens.head? = some token) (hkind : token.kind ≠ .blockBranch) :
    Stops enclosing s := by
  intro first hfirst h
  rw [hhead] at hfirst
  obtain rfl := Option.some.inj hfirst
  exact absurd h hkind

def ListSound (nested : List Construct → Parser (List Node)) : Prop :=
  ∀ enclosing text, Ensures (fun s => Good s ∧ Starts text s) (nested enclosing) fun nodes t =>
    (Good t ∧ Stops enclosing t) ∧ AllWellFormed nodes ∧
      ∀ node ∈ nodes.head?, node.isPlain → text

variable {P : TokenStream → Prop} {enclosing : List Construct} {span : Span}

theorem checkBranch_ensures :
    Ensures P (checkBranch enclosing span) fun _ t => P t ∧ Branches enclosing := by
  rw [checkBranch]
  refine Ensures.bind Ensures.peekAt fun first => Ensures.bind Ensures.peekAt fun second => ?_
  refine Ensures.ite (fun _ => .fail) fun _ => Ensures.ite (fun _ => ?_) fun _ => .fail
  split
  · cases hplaced : placeElseIf enclosing with
    | ok => exact .pure fun s hs => ⟨hs, branches_of_placeElseIf hplaced⟩
    | error cause => exact .fail
  · cases hplaced : placeElse enclosing with
    | ok => exact .pure fun s hs => ⟨hs, (placeElse_ok enclosing).mp hplaced⟩
    | error cause => exact .fail

section
variable {nested : List Construct → Parser (List Node)} (hnested : ListSound nested)
include hnested

theorem body_ensures (enclosing : List Construct) : Ensures Good (nested enclosing) fun nodes t =>
    (Good t ∧ Stops enclosing t) ∧ AllWellFormed nodes :=
  (hnested enclosing true).mono (fun _ hs => ⟨hs, fun _ _ _ => rfl⟩) fun _ _ h => ⟨h.1, h.2.1⟩

theorem body_sound (enclosing : List Construct) : Sound (nested enclosing) AllWellFormed :=
  (body_ensures hnested enclosing).mono (fun _ => id) fun _ _ h => ⟨h.1.1, h.2⟩

/-- A last branch is not followed by others. -/
theorem alternates_sound (budget : Nat) (hasElse : Bool) :
    Ensures (fun s => Good s ∧ Stops (.ifBlock hasElse :: enclosing) s)
      (alternates nested enclosing budget hasElse) fun r t =>
        Good t ∧ Alternate.AllWellFormed r.1 ∧ (hasElse → r.1 = []) := by
  induction budget generalizing hasElse with
  | zero => exact .failAtEnd
  | succ budget ih =>
    rw [alternates]
    simp only [discard_bind]
    have htoken : Ensures (fun s => Good s ∧ Stops (.ifBlock hasElse :: enclosing) s)
        (takeRequired "\x7b/if\x7d") fun token t =>
          Good t ∧ (token.kind = .blockBranch → hasElse = false) := by
      refine Ensures.bind Ensures.take fun found => ?_
      cases found with
      | none => exact .failAtEnd
      | some token =>
        refine .pure ?_
        rintro t ⟨s, ⟨hgood, hstops⟩, hhead, htail⟩
        refine ⟨good_tail hgood htail, fun hkind => ?_⟩
        have hbranches := hstops token hhead hkind
        cases hasElse with
        | false => rfl
        | true => cases hbranches
    refine Ensures.step htoken fun token hroom => Ensures.ite (fun hbranch => ?_) fun _ => ?_
    -- the nodes before it have stopped at this branch, so there is room for one
    · obtain rfl := hroom hbranch
      refine Ensures.step Sound.take fun _ _ => Ensures.step Sound.takeWord fun _ _ => ?_
      refine Ensures.ite (fun _ => ?_) fun _ => ?_
      · refine Ensures.step Expr.parser_sound fun condition hcondition => ?_
        refine Ensures.step Sound.expectClose fun _ _ => ?_
        refine Ensures.step (body_ensures hnested _) fun body hbody => ?_
        exact Ensures.step (ih false) fun more hmore =>
          .pure fun t ht => ⟨ht, ⟨hcondition, hbody, hmore.1⟩, nofun⟩
      · refine Ensures.step Sound.expectClose fun _ _ => ?_
        refine Ensures.step (body_ensures hnested _) fun body hbody => ?_
        exact Ensures.step (ih true) fun more hmore =>
          .pure fun t ht => ⟨ht, ⟨hbody, hmore.2 rfl⟩, nofun⟩
    · exact Ensures.step Sound.expectClose fun _ _ => .pure fun t ht => ⟨ht, trivial, fun _ => rfl⟩

theorem ifBlockParser_sound (budget : Nat) :
    Sound (ifBlockParser nested enclosing budget span) fun node =>
      node.WellFormed ∧ node.isPlain = false := by
  rw [ifBlockParser]
  simp only [discard_bind]
  refine Sound.bind Expr.parser_sound fun condition hcondition => ?_
  refine Sound.bind .expectClose fun _ _ => ?_
  refine Ensures.step (body_ensures hnested _) fun consequent hconsequent => ?_
  exact Ensures.step (alternates_sound hnested budget false) fun r hr =>
    Sound.pure ⟨⟨hcondition, hconsequent, hr.1⟩, rfl⟩

theorem fallback_sound (budget : Nat) {earlier : Option (List Node)}
    (h : FallbackWellFormed earlier) :
    Sound (fallback nested enclosing budget earlier) fun r => FallbackWellFormed r.1 := by
  induction budget generalizing earlier with
  | zero => exact .failAtEnd
  | succ budget ih =>
    rw [fallback]
    simp only [discard_bind]
    refine Sound.bind .takeRequired fun token _ => Sound.ite (fun _ => ?_) fun _ => ?_
    · refine Sound.bind .take fun _ _ => Sound.bind .expectClose fun _ _ => ?_
      exact Sound.bind (body_sound hnested _) fun body hbody => ih hbody
    · exact Sound.bind .expectClose fun _ _ => .pure h

theorem eachBlockParser_sound (budget : Nat) :
    Sound (eachBlockParser nested enclosing budget span) fun node =>
      node.WellFormed ∧ node.isPlain = false := by
  rw [eachBlockParser]
  simp only [discard_bind]
  refine Sound.bind Expr.parser_sound fun iterable hiterable => Sound.bind .takeWord fun _ _ => ?_
  refine Sound.ite (fun _ => Sound.bind .failExpecting fun _ h => False.elim h) fun _ => ?_
  refine Sound.bind Pattern.parser_sound fun item hitem => Sound.bind .takeSymbol fun comma _ => ?_
  have hnone : Sound (pure none) fun index : Option Ident => ∀ i ∈ index, IsWord i.name :=
    .pure nofun
  have hsome : ∀ {name : String × Span}, IsWord name.1 →
      Sound (pure (some (Ident.mk name.1 name.2))) fun index => ∀ i ∈ index, IsWord i.name :=
    fun hname => .pure (by rintro _ ⟨⟩; exact hname)
  refine Sound.ite (fun _ => Sound.bind .name fun name hname => Sound.bind (hsome hname) ?_) fun _ =>
    Sound.bind hnone ?_
  all_goals
    refine fun index hindex => Sound.bind .expectClose fun _ _ => ?_
    refine Sound.bind (body_sound hnested _) fun body hbody => ?_
    exact Sound.bind (fallback_sound hnested budget trivial) fun r hr =>
      .pure ⟨⟨hiterable, hitem, hindex, hbody, hr⟩, rfl⟩

theorem tagParser_sound {name : String} (hname : IsTagName name) (budget : Nat) :
    Sound (tagParser nested enclosing budget span name) fun node =>
      node.WellFormed ∧ node.isPlain = false := by
  rw [tagParser]
  refine Sound.bind (Attribute.list_sound budget ⟨.nil, nofun⟩) fun r hr => ?_
  refine Sound.bind (Attribute.checkLiteral_sound hr _) fun _ hliteral => ?_
  have hallowed : Tag.Allowed name r.1 := ⟨hname, hr.distinct, hr.each, hliteral⟩
  refine Sound.ite (fun _ => .pure ⟨⟨rfl, hallowed, trivial⟩, rfl⟩) fun _ => ?_
  refine Sound.bind (body_sound hnested _) fun children hchildren => ?_
  exact Sound.bind .takeRequired fun _ _ => .pure ⟨⟨rfl, hallowed, hchildren⟩, rfl⟩

theorem cons_sound {p : Parser Node}
    (hp : Sound p fun node => node.WellFormed ∧ node.isPlain = false) (text : Bool) :
    Ensures Good (do let node ← p; let nodes ← nested enclosing; pure (node :: nodes))
      fun nodes t => (Good t ∧ Stops enclosing t) ∧ AllWellFormed nodes ∧
        ∀ node ∈ nodes.head?, node.isPlain → text := by
  refine Ensures.step hp fun node hnode => ?_
  refine Ensures.step (body_ensures hnested _) fun nodes hnodes => ?_
  refine .pure fun t ht => ⟨ht, ⟨hnode.1, ?_, hnodes⟩, ?_⟩
  · simp [hnode.2]
  · simp [hnode.2]

end

/-- What is known of a token before it is taken, and of the stream after it. -/
theorem taken_ensures {text : Bool} {token : Token} :
    Ensures (fun s => (Good s ∧ Starts text s) ∧ s.tokens.head? = some token) take fun _ t =>
      (Good t ∧ (token.kind.isText → Starts false t)) ∧
        token.kind.Lexed ∧ (token.kind.isText → text) := by
  refine Ensures.take.mono (fun _ => id) ?_
  rintro _ t ⟨s, ⟨⟨hs, hstarts⟩, hhead⟩, -, htail⟩
  obtain ⟨hlexed, hnone, -⟩ := good_tokens hs hhead
  refine ⟨⟨good_tail hs htail, fun htext second hsecond hkind => ?_⟩, hlexed, hstarts token hhead⟩
  rw [htail] at hsecond
  rw [hnone htext second hsecond] at hkind
  cases hkind

theorem list_sound (budget : Nat) : ListSound (list budget) := by
  induction budget with
  | zero => exact fun _ _ => .failAtEnd
  | succ budget ih =>
    intro enclosing text
    unfold list
    simp only [discard_bind]
    refine Ensures.bind Ensures.peek fun found => ?_
    cases found with
    | none =>
      cases enclosing with
      | nil => exact .pure fun s hs => ⟨⟨hs.1.1, by simp [Stops, hs.2]⟩, trivial, nofun⟩
      | cons inner outer => exact .failAtEnd
    | some token =>
      have hgood : ∀ s, (Good s ∧ Starts text s) ∧ s.tokens.head? = some token → Good s :=
        fun _ hs => hs.1.1
      dsimp only
      split
      · rename_i value hkind
        have htext : token.kind.isText := by rw [hkind]; rfl
        refine Ensures.step taken_ensures fun _ ⟨hlexed, htext'⟩ => ?_
        rw [hkind] at hlexed
        have hrest : Ensures (fun t => Good t ∧ (token.kind.isText → Starts false t))
            (list budget enclosing) _ :=
          (ih enclosing false).mono (fun t ht => ⟨ht.1, ht.2 htext⟩) fun _ _ => id
        refine Ensures.step hrest fun nodes hnodes => .pure fun t ht => ⟨ht, ?_⟩
        have hsecond : ∀ node ∈ nodes.head?, node.isPlain = false := by simpa using hnodes.2
        exact ⟨⟨hlexed, fun _ => hsecond, hnodes.1⟩, fun _ _ _ => htext' htext⟩
      · refine Ensures.mono ?_ hgood fun _ _ => id
        refine Ensures.step Sound.take fun _ _ => ?_
        refine Ensures.step Expr.parser_sound fun value hvalue => ?_
        refine Ensures.step Sound.expectClose fun _ _ => ?_
        refine Ensures.step (body_ensures ih _) fun nodes hnodes => ?_
        exact .pure fun t ht => ⟨ht, ⟨hvalue, nofun, hnodes⟩, by simp [isPlain]⟩
      · refine Ensures.mono ?_ hgood fun _ _ => id
        refine Ensures.step Sound.take fun _ _ => ?_
        refine Ensures.ite (fun _ => ?_) fun _ => Ensures.ite (fun _ => ?_) fun _ => ?_
        · exact cons_sound ih (ifBlockParser_sound ih _) text
        · exact cons_sound ih (eachBlockParser_sound ih _) text
        · exact cons_sound ih .fail text
      · refine Ensures.step checkBranch_ensures fun _ hroom => ?_
        exact .pure fun s hs => ⟨⟨hs.1.1, fun _ _ _ => hroom⟩, trivial, nofun⟩
      · rename_i hkind
        refine Ensures.ite (fun _ => .pure fun s hs => ⟨⟨hs.1.1, ?_⟩, trivial, nofun⟩) fun _ => .fail
        exact stops_of_head hs.2 (by simp [hkind])
      · rename_i name hkind
        refine Ensures.step taken_ensures fun _ ⟨hname, _⟩ => ?_
        rw [hkind] at hname
        exact (cons_sound ih (tagParser_sound ih hname _) text).mono (fun _ ht => ht.1) fun _ _ => id
      · rename_i hkind
        refine Ensures.ite (fun _ => .pure fun s hs => ⟨⟨hs.1.1, ?_⟩, trivial, nofun⟩) fun _ => .fail
        exact stops_of_head hs.2 (by simp [hkind])
      · exact .fail

/-- There is no opening section among good tokens. -/
theorem configParser_sound : Sound configParser (· = []) := by
  rw [configParser]
  refine Ensures.bind Ensures.peek fun found => ?_
  split
  · rintro s _ _ ⟨hs, hhead⟩
    exact (good_tokens hs hhead).1.elim
  · exact .pure fun s hs => ⟨hs.1, rfl⟩

end Node

theorem Document.parser_sound : Sound Document.parser fun d => Node.AllWellFormed d.nodes := by
  rw [Document.parser]
  refine Sound.bind Node.configParser_sound fun opening hopening => ?_
  refine Sound.budget_bind fun budget => ?_
  subst hopening
  exact Sound.bind (Node.body_sound (Node.list_sound budget) []) fun nodes h => .pure h

end PromptTemplate
