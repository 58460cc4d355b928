import Mathlib
import PromptTemplate.Proofs.Document.Stream
import PromptTemplate.Proofs.Token.Lexed
import PromptTemplate.Proofs.Token.Modes

/-!
# The grammar of token streams

The language of the tokens of documents, and what of it may follow in each
stack of modes. A token leads from what may follow before it to what may follow
after it, and something always may, so the tokens of a text are the beginning
of a word (`document_tokens_follow_grammar`).
-/

namespace PromptTemplate

open Computability

namespace TokenKind

def isConfig : TokenKind → Bool
  | .config _ => true
  | _ => false

def isTagOpen : TokenKind → Bool
  | .tagOpen _ => true
  | _ => false

def isTagClose : TokenKind → Bool
  | .tagClose _ => true
  | _ => false

end TokenKind

namespace Grammar

open TokenKind

/-- One token of a class. -/
def one (p : TokenKind → Bool) : Language TokenKind := {word | ∃ kind, p kind ∧ word = [kind]}

/-- Operands, with braces around some of them that are all closed. -/
inductive Balanced : List TokenKind → Prop
  | nil : Balanced []
  | operand {kind word} (h : kind.isOperand) (rest : Balanced word) : Balanced (kind :: word)
  | braces {inner word} (inside : Balanced inner) (rest : Balanced word) :
    Balanced (.symbol .braceOpen :: (inner ++ .symbol .braceClose :: word))

def balanced : Language TokenKind := {word | Balanced word}

/-- Braces in text or in a tag, with all that is in them. -/
def mustache : Language TokenKind := one opensBraces * balanced * one (· = .mustacheClose)

/-- What may stand between the name of a tag and its end. -/
def tagPart : Language TokenKind := one isAttribute + mustache

def tag : Language TokenKind := one isTagOpen * tagPart∗ * one endsTag

def textPart : Language TokenKind := one isText + one isTagClose + mustache + tag

def document : Language TokenKind := (1 + one isConfig) * textPart∗

-- ---------------------------------------------------------------------------
-- What may follow
-- ---------------------------------------------------------------------------

/-- To the end of the braces, from a place with this many braces of the expression open. -/
def closers : (depth : Nat) → Language TokenKind
  | 0 => one (· = .mustacheClose)
  | depth + 1 => one (· = .symbol .braceClose) * (balanced * closers depth)

def following : List Mode → Language TokenKind
  | [] => textPart∗
  | .tag :: outer => tagPart∗ * (one endsTag * following outer)
  | .expression depth :: outer => balanced * (closers depth * following outer)

variable {kind : TokenKind} {word : List TokenKind} {p : TokenKind → Bool}
  {L M N : Language TokenKind}

theorem cons_mem_mul (h : p kind) (hword : word ∈ L) : kind :: word ∈ one p * L := by
  have hone : [kind] ∈ one p := ⟨kind, h, rfl⟩
  exact Language.append_mem_mul hone hword

theorem one_le_balanced : 1 ≤ balanced := by
  rintro word hword
  rw [(Language.mem_one word).mp hword]
  exact .nil

theorem le_balanced_mul (L : Language TokenKind) : L ≤ balanced * L :=
  le_mul_of_one_le_left' one_le_balanced

theorem operand_balanced_le : one isOperand * balanced ≤ balanced := by
  rintro _ ⟨_, ⟨kind, hkind, rfl⟩, word, hword, rfl⟩
  exact .operand hkind hword

theorem braces_balanced_le : one (· = .symbol .braceOpen) *
    (balanced * (one (· = .symbol .braceClose) * balanced)) ≤ balanced := by
  rintro _ ⟨_, ⟨first, hfirst, rfl⟩, _, ⟨inner, hinner, _, ⟨_, ⟨last, hlast, rfl⟩, word, hword,
    rfl⟩, rfl⟩, rfl⟩
  obtain rfl := of_decide_eq_true hfirst
  obtain rfl := of_decide_eq_true hlast
  exact .braces hinner hword

/-- A repetition takes one more in front. -/
theorem mul_kstar_mul_le (h : L ≤ M) : L * (M∗ * N) ≤ M∗ * N :=
  calc L * (M∗ * N) ≤ M * (M∗ * N) := mul_le_mul_left h _
    _ = M * M∗ * N := (mul_assoc ..).symm
    _ ≤ M∗ * N := mul_le_mul_left mul_kstar_le_kstar _

theorem mul_following_text_le (h : L ≤ textPart) : L * following [] ≤ following [] := by
  simpa [following] using @mul_kstar_mul_le L textPart 1 h

theorem mustache_mul_following_le {modes : List Mode} (h : modes = [] ∨ modes.head? = some .tag) :
    mustache * following modes ≤ following modes := by
  rcases modes with _ | ⟨_ | _, outer⟩
  · exact mul_following_text_le fun _ hword => .inl (.inr hword)
  · simp at h
  · exact mul_kstar_mul_le fun _ hword => .inr hword

/-- Applying the inequality itself would turn the languages into sets. -/
theorem mem_of_le (h : L ≤ M) (hword : word ∈ L) : word ∈ M := h hword

/-- A token leads to what may follow it from what may follow before it. -/
theorem following_of_shift {modes modes' : List Mode} (h : Shift modes kind modes')
    (hword : word ∈ following modes') : kind :: word ∈ following modes := by
  have hcons : ∀ {p : TokenKind → Bool}, p kind → kind :: word ∈ one p * following modes' :=
    fun hkind => cons_mem_mul hkind hword
  cases h with
  | text =>
    have hpart : one isText ≤ textPart := fun _ h => .inl (.inl (.inl h))
    exact mem_of_le (mul_following_text_le hpart) (hcons rfl)
  | tagClose =>
    have hpart : one isTagClose ≤ textPart := fun _ h => .inl (.inl (.inr h))
    exact mem_of_le (mul_following_text_le hpart) (hcons rfl)
  | @tagOpen name =>
    have hpart : tag ≤ textPart := fun _ h => .inr h
    have htag : .tagOpen name :: word ∈ one isTagOpen * following [.tag] := hcons rfl
    refine mem_of_le (mul_following_text_le hpart) ?_
    simpa only [following, tag, mul_assoc] using htag
  | word h =>
    have hpart : one isAttribute ≤ tagPart := fun _ h => .inl h
    exact mem_of_le (mul_kstar_mul_le hpart) (hcons h)
  | tagEnd h => exact mem_of_le (le_mul_of_one_le_left' one_le_kstar) (hcons h)
  | opening h houter =>
    have hopen : kind :: word ∈ one opensBraces * following (.expression 0 :: modes) := hcons h
    refine mem_of_le (mustache_mul_following_le houter) ?_
    simpa only [following, closers, mustache, mul_assoc] using hopen
  | @operand _ depth outer h =>
    have hoperand : kind :: word ∈ one isOperand * following (.expression depth :: outer) := hcons h
    rw [following, ← mul_assoc] at hoperand
    exact mem_of_le (mul_le_mul_left operand_balanced_le _) hoperand
  | @braceOpen depth outer =>
    have hbrace : .symbol .braceOpen :: word ∈ one (· = .symbol .braceOpen) *
        following (.expression (depth + 1) :: outer) := hcons rfl
    refine mem_of_le (mul_le_mul_left braces_balanced_le _) ?_
    simpa only [following, closers, mul_assoc] using hbrace
  | @braceClose depth outer =>
    have hbrace : .symbol .braceClose :: word ∈ one (· = .symbol .braceClose) *
        following (.expression depth :: outer) := hcons rfl
    refine mem_of_le (le_balanced_mul _) ?_
    simpa only [following, closers, mul_assoc] using hbrace
  | closing =>
    have hclose : .mustacheClose :: word ∈ one (· = .mustacheClose) * following modes' := hcons rfl
    exact mem_of_le (le_balanced_mul _) hclose

theorem exists_following (modes : List Mode) : ∃ word, word ∈ following modes := by
  induction modes with
  | nil => exact ⟨[], Language.nil_mem_kstar _⟩
  | cons mode outer ih =>
    obtain ⟨word, hword⟩ := ih
    cases mode with
    | tag =>
      have hend : Shift (.tag :: outer) .tagEnd outer := .tagEnd rfl
      exact ⟨_, following_of_shift hend hword⟩
    | expression depth =>
      induction depth with
      | zero => exact ⟨_, following_of_shift .closing hword⟩
      | succ depth ih =>
        obtain ⟨word, hword⟩ := ih
        exact ⟨_, following_of_shift .braceClose hword⟩

end Grammar

namespace Lexer

open TokenStream

theorem streamWithin_following (budget : Nat) {l : Lexer} (hpending : l.configPending = false) :
    ∃ more, (l.streamWithin budget).tokens.map Token.kind ++ more ∈ Grammar.following l.modes := by
  induction budget generalizing l with
  | zero => exact Grammar.exists_following l.modes
  | succ budget ih =>
    have hturns := next_turns hpending
    rw [streamWithin]
    split
    · exact Grammar.exists_following l.modes
    · exact Grammar.exists_following l.modes
    · rename_i token m hstep
      rw [hstep] at hturns
      obtain ⟨more, hmore⟩ := ih hturns.pending
      exact ⟨more, Grammar.following_of_shift (hturns.shift token rfl) hmore⟩

/-- The stream of a document is one that is read in text, with the opening section in front if there
is one. -/
theorem document_stream_cases (source : String) : ∃ (l : Lexer) (budget : Nat),
    l.modes = [] ∧ l.configPending = false ∧
      ((document source).stream.tokens = (l.streamWithin budget).tokens ∨
        ∃ token body, token.kind = .config body ∧
          (document source).stream.tokens = token :: (l.streamWithin budget).tokens) := by
  obtain ⟨-, hconfig⟩ | hready := next_cases (document source)
  · have hopens := config?_opens rfl hconfig
    rw [stream, streamWithin]
    split
    · exact ⟨(document source).ready, 0, rfl, rfl, .inl rfl⟩
    · exact ⟨(document source).ready, 0, rfl, rfl, .inl rfl⟩
    · rename_i token m hstep
      rw [hstep] at hopens
      obtain ⟨body, hbody⟩ := hopens.config token rfl
      exact ⟨m, _, hopens.stay, hopens.pending, .inr ⟨token, body, hbody, rfl⟩⟩
  · refine ⟨(document source).ready, (document source).rest.length + 1, rfl, rfl, .inl ?_⟩
    rw [stream, streamWithin, hready, streamWithin]

theorem texts_of_goodTokens {tokens : List Token} (h : GoodTokens tokens) :
    (∀ token ∈ tokens, token.kind ≠ .text "") ∧
      tokens.IsChain fun first second => ¬ (first.kind.isText ∧ second.kind.isText) := by
  induction tokens with
  | nil => exact ⟨nofun, .nil⟩
  | cons token rest ih =>
    obtain ⟨hlexed, hnext, hrest⟩ := h
    obtain ⟨hsome, hchain⟩ := ih hrest
    refine ⟨List.forall_mem_cons.mpr ⟨?_, hsome⟩, List.isChain_cons.mpr ⟨?_, hchain⟩⟩
    · intro hempty
      rw [hempty] at hlexed
      exact hlexed rfl
    · rintro second hsecond ⟨htext, htext'⟩
      rw [hnext htext second hsecond] at htext'
      cases htext'

/-- The tokens of a text, up to its end or to its first error, are the beginning of a word of the
grammar. No text among them is empty, no two stand next to each other, and the lexer is in no other
modes than those of the grammar. -/
theorem document_tokens_follow_grammar (source : String) :
    (∃ more, (document source).stream.tokens.map Token.kind ++ more ∈ Grammar.document) ∧
    (∀ token ∈ (document source).stream.tokens, token.kind ≠ .text "") ∧
    (document source).stream.tokens.IsChain
      (fun first second => ¬ (first.kind.isText ∧ second.kind.isText)) ∧
    ∀ n, Mode.IsStack ((document source).after n).modes := by
  obtain ⟨l, budget, hmodes, hpending, htokens⟩ := document_stream_cases source
  obtain ⟨more, hmore⟩ := streamWithin_following budget hpending
  obtain ⟨hsome, hchain⟩ := texts_of_goodTokens (streamWithin_good budget hpending).1
  rw [hmodes] at hmore
  obtain htokens | ⟨token, body, hconfig, htokens⟩ := htokens
  · rw [htokens]
    refine ⟨⟨more, ?_⟩, hsome, hchain, after_isStack .text⟩
    exact Grammar.mem_of_le (le_mul_of_one_le_left' le_self_add) hmore
  · rw [htokens]
    refine ⟨⟨more, ?_⟩, List.forall_mem_cons.mpr ⟨by simp [hconfig], hsome⟩,
      List.isChain_cons.mpr ⟨by simp [hconfig, TokenKind.isText], hchain⟩, after_isStack .text⟩
    have hkind : token.kind.isConfig := by rw [hconfig]; rfl
    exact Grammar.mem_of_le (mul_le_mul_left le_add_self _) (Grammar.cons_mem_mul hkind hmore)

end Lexer
end PromptTemplate
