import Mathlib.Data.List.DropRight
import PromptTemplate.Text.Blank

/-!
# Trimming

A trimmed text has no blanks at its ends, so trimming it again changes
nothing, and blanks put around a text make no difference to it trimmed.
Without its blanks, a text is the same trimmed or not.
-/

namespace PromptTemplate.Text

theorem dropWhile_eq_self_of_prefix {cs ds : List Char} (h : ds <+: cs)
    (hc : cs.dropWhile isBlank = cs) : ds.dropWhile isBlank = ds := by
  rw [List.dropWhile_eq_self_iff] at hc ⊢
  intro hd
  obtain ⟨tail, rfl⟩ := h
  have := hc (by simp; omega)
  rwa [List.getElem_append_left hd] at this

theorem trimChars_trimChars (cs : List Char) : trimChars (trimChars cs) = trimChars cs := by
  have hprefix : trimChars cs <+: cs.dropWhile isBlank := List.rdropWhile_prefix isBlank _
  have hfront : (trimChars cs).dropWhile isBlank = trimChars cs :=
    dropWhile_eq_self_of_prefix hprefix (List.dropWhile_idempotent isBlank _)
  calc trimChars (trimChars cs)
      = dropBlankEnd (trimChars cs) := by rw [trimChars, hfront]
    _ = trimChars cs := List.rdropWhile_idempotent isBlank _

@[simp] theorem trim_trim (s : String) : trim (trim s) = trim s := by
  simp [trim, trimChars_trimChars]

/-- The text without any blanks. -/
def unblank (s : String) : List Char := s.toList.filter (!isBlank ·)

@[simp] theorem unblank_append (s t : String) : unblank (s ++ t) = unblank s ++ unblank t := by
  simp [unblank]

theorem filter_dropWhile (cs : List Char) :
    (cs.dropWhile isBlank).filter (!isBlank ·) = cs.filter (!isBlank ·) := by
  induction cs with
  | nil => rfl
  | cons c cs ih => cases hc : isBlank c <;> simp [hc, ih]

theorem filter_dropBlankEnd (cs : List Char) :
    (dropBlankEnd cs).filter (!isBlank ·) = cs.filter (!isBlank ·) := by
  rw [dropBlankEnd, List.filter_reverse, filter_dropWhile, ← List.filter_reverse,
    List.reverse_reverse]

@[simp] theorem unblank_trim (s : String) : unblank (trim s) = unblank s := by
  simp [unblank, trim, trimChars, filter_dropBlankEnd, filter_dropWhile]

theorem unblank_eq_nil {s : String} : unblank s = [] ↔ isAllBlank s = true := by
  simp [unblank, isAllBlank, List.filter_eq_nil_iff]

theorem trimChars_eq_nil {cs : List Char} : trimChars cs = [] ↔ cs.all isBlank = true := by
  have hfilter : ∀ ds : List Char, ds.filter (!isBlank ·) = [] ↔ ∀ c ∈ ds, isBlank c = true := by
    simp [List.filter_eq_nil_iff]
  rw [List.all_eq_true, ← hfilter, ← filter_dropWhile, hfilter]
  exact List.rdropWhile_eq_nil_iff

/-- Trimming leaves nothing of a text that is blank, and of no other. -/
theorem isEmpty_trim (s : String) : (trim s).isEmpty = isAllBlank s := by
  rw [Bool.eq_iff_iff, String.isEmpty_iff, trim, String.ofList_eq_empty_iff, trimChars_eq_nil,
    isAllBlank]

-- ---------------------------------------------------------------------------
-- Blanks around a text
-- ---------------------------------------------------------------------------

theorem dropBlankEnd_append {behind : List Char} (h : ∀ c ∈ behind, isBlank c) (cs : List Char) :
    dropBlankEnd (cs ++ behind) = dropBlankEnd cs := by
  have hreverse : ∀ c ∈ behind.reverse, isBlank c := by simpa using h
  rw [dropBlankEnd, List.reverse_append, List.dropWhile_append_of_pos hreverse, dropBlankEnd]

theorem trimChars_append_right {behind : List Char} (h : ∀ c ∈ behind, isBlank c)
    (cs : List Char) : trimChars (cs ++ behind) = trimChars cs := by
  rw [trimChars, trimChars, List.dropWhile_append]
  split
  · next hnil =>
    rw [List.isEmpty_iff.1 hnil, List.dropWhile_eq_nil_iff.2 h]
  · exact dropBlankEnd_append h _

/-- Blanks around a text are gone when it is trimmed. -/
theorem trim_surrounded {before behind : String} (hbefore : isAllBlank before)
    (hbehind : isAllBlank behind) (s : String) : trim (before ++ s ++ behind) = trim s := by
  have hfront := List.all_eq_true.1 hbefore
  have hend := List.all_eq_true.1 hbehind
  rw [trim, String.toList_append, trimChars_append_right hend, String.toList_append, trimChars,
    List.dropWhile_append_of_pos hfront, ← trimChars, ← trim]

/-- A text with something other than blanks at its two ends is trimmed. -/
theorem trimChars_of_ends {cs : List Char} (hhead : ∀ c ∈ cs.head?, isBlank c = false)
    (hlast : ∀ d ∈ cs.getLast?, isBlank d = false) : trimChars cs = cs := by
  have hself {ds : List Char} (h : ∀ c ∈ ds.head?, isBlank c = false) : ds.dropWhile isBlank = ds := by
    cases ds with
    | nil => rfl
    | cons d ds => exact List.dropWhile_cons_of_neg (Bool.eq_false_iff.1 (h d rfl))
  rw [trimChars, hself hhead, dropBlankEnd, hself (by simpa using hlast), List.reverse_reverse]

theorem trimChars_eq_self {c d : Char} (hc : isBlank c = false) (hd : isBlank d = false)
    (cs : List Char) : trimChars (c :: (cs ++ [d])) = c :: (cs ++ [d]) := by
  refine trimChars_of_ends (by simpa using hc) ?_
  rw [← List.cons_append, List.getLast?_concat]
  simpa using hd

end PromptTemplate.Text
