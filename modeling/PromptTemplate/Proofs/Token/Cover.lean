import PromptTemplate.Proofs.Token.Trivia

/-!
# Tokens and the gaps between them

The tokens of a text stand in it one after the other. If the text can be read
to its end, then what lies before, between and after them is trivia
(`stream_covers`).
-/

namespace PromptTemplate

/-- No token is empty, and each starts at the earliest where the one before it stops. -/
def Token.Increasing : (first : Nat) → List Token → Prop
  | _, [] => True
  | first, token :: rest =>
    first ≤ token.span.start ∧ token.span.start < token.span.stop ∧ Increasing token.span.stop rest

namespace Token.Increasing

variable {first : Nat} {tokens : List Token}

theorem mono {earlier : Nat} (h : Increasing first tokens) (hle : earlier ≤ first) :
    Increasing earlier tokens := by
  cases tokens with
  | nil => trivial
  | cons token rest => exact ⟨Nat.le_trans hle h.1, h.2⟩

theorem bounds (h : Increasing first tokens) :
    ∀ token ∈ tokens, first ≤ token.span.start ∧ token.span.start < token.span.stop := by
  induction tokens generalizing first with
  | nil => nofun
  | cons token rest ih =>
    obtain ⟨hfirst, htoken, hrest⟩ := h
    have hle := Nat.le_trans hfirst (Nat.le_of_lt htoken)
    exact List.forall_mem_cons.mpr ⟨⟨hfirst, htoken⟩, ih (hrest.mono hle)⟩

theorem pairwise (h : Increasing first tokens) :
    tokens.Pairwise fun token later => token.span.stop ≤ later.span.start := by
  induction tokens generalizing first with
  | nil => exact .nil
  | cons token rest ih =>
    exact .cons (fun later hlater => (h.2.2.bounds later hlater).1) (ih h.2.2)

end Token.Increasing

namespace Lexer

/-- Tokens stand one after the other from a place on, each behind trivia. Where the text ends after
them, nothing but trivia is left. -/
inductive Laid (ended : Prop) : Place → List Token → Prop
  | nil {a : Place} (hend : ended → IsTrivia a.ahead) : Laid ended a []
  | cons {a first last : Place} {token : Token} {rest : List Token} (hskip : Skips a first)
      (hpass : first.Passes last) (hspan : token.span = .between first.position last.position)
      (hrest : Laid ended last rest) : Laid ended a (token :: rest)

variable {ended : Prop} {a b : Place} {tokens : List Token}

theorem Laid.increasing (h : Laid ended a tokens) :
    Token.Increasing a.position.offset tokens := by
  induction h with
  | nil => trivial
  | cons hskip hpass hspan hrest ih =>
    rw [Token.Increasing, hspan]
    exact ⟨hskip.leads.offset_le, hpass.offset_lt, ih⟩

theorem streamWithin_laid {budget : Nat} {l : Lexer} (hbudget : l.rest.length < budget) :
    Laid (∃ finish, (l.streamWithin budget).stop = .ok finish) l.place
      (l.streamWithin budget).tokens := by
  induction budget generalizing l with
  | zero => exact absurd hbudget (Nat.not_lt_zero _)
  | succ budget ih =>
    have hreads := next_reads l
    rw [streamWithin]
    split
    · exact .nil (by simp)
    · rename_i m hstep
      rw [hstep] at hreads
      exact .nil fun _ => hreads.1
    · rename_i token m hstep
      rw [hstep] at hreads
      obtain ⟨first, hskip, hpass, hspan⟩ := hreads
      -- Less of the text is left, so the budget lasts.
      have hshorter : m.rest.length < l.rest.length := (hskip.leads.passes hpass).shorter
      exact .cons hskip hpass hspan (ih (by omega))

theorem stream_laid (l : Lexer) :
    Laid (∃ finish, l.stream.stop = .ok finish) l.place l.stream.tokens :=
  streamWithin_laid (Nat.lt_succ_self _)

/-- The texts before, between and after tokens, from the byte `first` on. -/
def gaps (source : String) : (first : Nat) → List Token → List (List Char)
  | first, [] => [bytesBetween first source.utf8ByteSize 0 source.toList]
  | first, token :: rest =>
    bytesBetween first token.span.start 0 source.toList :: gaps source token.span.stop rest

theorem utf8ByteSize_of_leads {source : String} (h : (Place.startOf source.toList).Leads a) :
    (a.position.afterAll a.ahead).offset = source.utf8ByteSize := by
  obtain ⟨taken, hsource, ha⟩ := h
  have hend : a.position.afterAll a.ahead = Position.start.afterAll source.toList := by
    rw [ha, ← Position.afterAll_append]
    exact congrArg _ hsource.symm
  rw [hend, Position.afterAll_offset, ← Span.utf8ByteSize_ofList, String.ofList_toList]
  exact Nat.zero_add _

theorem Laid.gaps_trivia {source : String} (h : Laid ended a tokens) (hended : ended)
    (ha : (Place.startOf source.toList).Leads a) :
    ∀ gap ∈ gaps source a.position.offset tokens, IsTrivia gap := by
  induction h with
  | @nil a hend =>
    have hbytes := Place.bytesBetween_leads (c := ⟨a.position.afterAll a.ahead, []⟩) ha
      (List.append_nil _).symm rfl
    rw [utf8ByteSize_of_leads ha] at hbytes
    rw [gaps, List.forall_mem_singleton]
    exact hbytes ▸ hend hended
  | cons hskip hpass hspan hrest ih =>
    have hfirst := ha.trans hskip.leads
    obtain ⟨trivia, htrivia, hahead, hposition⟩ := hskip
    have hbytes := Place.bytesBetween_leads ha hahead hposition
    rw [gaps, hspan, List.forall_mem_cons]
    exact ⟨hbytes ▸ htrivia, ih (hfirst.trans hpass.leads)⟩

/-- The spans of tokens cover a source text but for trivia. -/
structure Covers (source : String) (tokens : List Token) : Prop where
  within : ∀ token ∈ tokens, token.span.Within source
  nonempty : ∀ token ∈ tokens, token.span.start < token.span.stop
  increasing : tokens.Pairwise fun token later => token.span.stop ≤ later.span.start
  gaps : ∀ gap ∈ gaps source 0 tokens, IsTrivia gap

/-- If a text can be read to its end, as a document or as an expression, the tokens cover it. -/
theorem stream_covers {source : String} {l : Lexer}
    (hl : l = document source ∨ l = expression source) {finish : Position}
    (h : l.stream.stop = .ok finish) : Covers source l.stream.tokens := by
  have hplace : l.place = Place.startOf source.toList := by
    obtain rfl | rfl := hl <;> rfl
  have hstart : (Place.startOf source.toList).Leads l.place := hplace ▸ .refl _
  have hspanned := streamWithin_spanned (l.rest.length + 1) hstart
  have hlaid := stream_laid l
  have hincreasing := hlaid.increasing
  have hgaps := hlaid.gaps_trivia ⟨finish, h⟩ hstart
  rw [hplace] at hincreasing hgaps
  exact {
    within := fun token htoken => (hspanned.tokens token htoken).within
    nonempty := fun token htoken => (hincreasing.bounds token htoken).2
    increasing := hincreasing.pairwise
    gaps := hgaps }

theorem stream_covers_comment :
    Covers "/*é*/\x7b x \x7d" (document "/*é*/\x7b x \x7d").stream.tokens := by
  have hstop : (document "/*é*/\x7b x \x7d").stream.stop = .ok ⟨11, 1, 11⟩ := rfl
  exact stream_covers (.inl rfl) hstop

end Lexer
end PromptTemplate
