import Mathlib.Data.List.Induction
import PromptTemplate.Proofs.Expr.Phrase

/-!
# Trees of operators

A sequence of operands with operators between them has exactly one tree in
which the operators are grouped by their levels (`OpTree.grouped_unique`,
`OpTree.grouped_ofSequence`).
-/

namespace PromptTemplate

inductive OpTree (α : Type) where
  | operand (a : α)
  | node (op : BinaryOp) (left right : OpTree α)

theorem BinaryOp.level_eq_power {op : BinaryOp} : op.level = 11 ↔ op = .power := by
  cases op <;> decide

namespace OpTree

variable {α : Type}

/-- From left to right. -/
def read : OpTree α → List (α ⊕ BinaryOp)
  | operand a => [.inl a]
  | node op left right => left.read ++ .inr op :: right.read

/-- The operators of a tree, from left to right. -/
def ops : OpTree α → List BinaryOp
  | operand _ => []
  | node op left right => left.ops ++ op :: right.ops

/-- Operators of one level group to the left, and tighter ones come first. Powers are the tightest,
and group to the right. -/
def Grouped : OpTree α → Prop
  | operand _ => True
  | node op left right => left.Grouped ∧ right.Grouped ∧
    if op = .power then left.ops = [] ∧ ∀ o ∈ right.ops, o = .power
    else (∀ o ∈ left.ops, op.level ≤ o.level) ∧ ∀ o ∈ right.ops, op.level < o.level

/-- Operands with operators between them. -/
def sequence (first : α) (rest : List (BinaryOp × α)) : List (α ⊕ BinaryOp) :=
  .inl first :: rest.flatMap fun next => [.inr next.1, .inl next.2]

theorem mem_ops {t : OpTree α} {op : BinaryOp} : op ∈ t.ops ↔ .inr op ∈ t.read := by
  induction t with
  | operand a => simp [ops, read]
  | node o left right hleft hright => simp [ops, read, hleft, hright]

theorem read_ne_nil (t : OpTree α) : t.read ≠ [] := by
  cases t <;> simp [read]

-- ---------------------------------------------------------------------------
-- At most one tree
-- ---------------------------------------------------------------------------

/-- The operator at the root binds no tighter than one to its left, and looser than one to its
right. -/
theorem not_both {op op' : BinaryOp} {left right left' right' : OpTree α}
    (h : (node op left right).Grouped) (h' : (node op' left' right').Grouped)
    (hleft : op ∈ left'.ops) (hright : op' ∈ right.ops) : False := by
  obtain ⟨-, -, h⟩ := h
  obtain ⟨-, -, h'⟩ := h'
  split at h'
  · rw [h'.1] at hleft
    cases hleft
  · rename_i hpower
    split at h
    · exact hpower (h.2 op' hright)
    · have hle := h'.1 op hleft
      have hlt := h.2 op' hright
      omega

/-- So the root is the same operator of the sequence in both trees. -/
theorem split_of_read {op op' : BinaryOp} {left right left' right' : OpTree α}
    (h : (node op left right).Grouped) (h' : (node op' left' right').Grouped)
    (hread : left.read ++ .inr op :: right.read = left'.read ++ .inr op' :: right'.read) :
    left.read = left'.read ∧ op = op' ∧ right.read = right'.read := by
  obtain ⟨x, hleft, hright⟩ | ⟨x, hleft, hright⟩ := List.append_eq_append_iff.1 hread
  · cases x with
    | nil =>
      obtain ⟨hop, hright⟩ := List.cons.inj hright
      exact ⟨by simpa using hleft.symm, Sum.inr.inj hop, hright⟩
    | cons y x =>
      rw [List.cons_append, List.cons.injEq] at hright
      obtain ⟨rfl, hright⟩ := hright
      exact (not_both h h' (mem_ops.2 (by simp [hleft])) (mem_ops.2 (by simp [hright]))).elim
  · cases x with
    | nil =>
      obtain ⟨hop, hright⟩ := List.cons.inj hright
      exact ⟨by simpa using hleft, (Sum.inr.inj hop).symm, hright.symm⟩
    | cons y x =>
      rw [List.cons_append, List.cons.injEq] at hright
      obtain ⟨rfl, hright⟩ := hright
      exact (not_both h' h (mem_ops.2 (by simp [hleft])) (mem_ops.2 (by simp [hright]))).elim

theorem length_read_node (op : BinaryOp) (left right : OpTree α) :
    1 < (node op left right).read.length := by
  have hpos := List.length_pos_iff.2 left.read_ne_nil
  rw [read, List.length_append, List.length_cons]
  omega

theorem grouped_unique {t t' : OpTree α} (h : t.Grouped) (h' : t'.Grouped)
    (hread : t.read = t'.read) : t = t' := by
  induction t generalizing t' with
  | operand a =>
    cases t' with
    | operand a' => simpa [read] using hread
    | node op left right => exact absurd (length_read_node op left right) (by rw [← hread]; simp [read])
  | node op left right ihleft ihright =>
    cases t' with
    | operand a => exact absurd (length_read_node op left right) (by rw [hread]; simp [read])
    | node op' left' right' =>
      obtain ⟨hleft, rfl, hright⟩ := split_of_read h h' hread
      rw [ihleft h.1 h'.1 hleft, ihright h.2.1 h'.2.1 hright]

-- ---------------------------------------------------------------------------
-- A tree for every sequence
-- ---------------------------------------------------------------------------

/-- The second of two operators is inside the right branch of the first. -/
def Inside (first second : BinaryOp) : Prop :=
  first.level < second.level ∨ first = .power ∧ second = .power

instance (first second : BinaryOp) : Decidable (Inside first second) :=
  inferInstanceAs (Decidable (_ ∨ _))

/-- One more operator and operand at the end of the sequence. -/
def insert (op : BinaryOp) (a : α) : OpTree α → OpTree α
  | operand b => .node op (.operand b) (.operand a)
  | node root left right =>
    if Inside root op then .node root left (insert op a right)
    else .node op (.node root left right) (.operand a)

def ofSequence (first : α) (rest : List (BinaryOp × α)) : OpTree α :=
  rest.foldl (fun t next => t.insert next.1 next.2) (.operand first)

@[simp] theorem read_insert (op : BinaryOp) (a : α) (t : OpTree α) :
    (t.insert op a).read = t.read ++ [.inr op, .inl a] := by
  induction t with
  | operand b => rfl
  | node root left right _ ih =>
    rw [insert]
    split
    · simp [read, ih]
    · simp [read]

@[simp] theorem ops_insert (op : BinaryOp) (a : α) (t : OpTree α) :
    (t.insert op a).ops = t.ops ++ [op] := by
  induction t with
  | operand b => rfl
  | node root left right _ ih =>
    rw [insert]
    split
    · simp [ops, ih]
    · simp [ops]

theorem grouped_insert {t : OpTree α} (op : BinaryOp) (a : α) (h : t.Grouped) :
    (t.insert op a).Grouped := by
  induction t with
  | operand b =>
    refine ⟨trivial, trivial, ?_⟩
    split <;> exact ⟨by simp [ops], by simp [ops]⟩
  | node root left right _ ih =>
    have hwhole := h
    obtain ⟨hleft, hright, h⟩ := h
    rw [insert]
    split
    · rename_i hinside
      refine ⟨hleft, ih hright, ?_⟩
      simp only [ops_insert, List.forall_mem_append, List.forall_mem_singleton]
      split at h
      · rename_i hroot
        subst hroot
        have hpower : op = .power := hinside.elim
          (fun hlt => absurd op.level_le (Nat.not_le.2 hlt)) (·.2)
        rw [if_pos rfl]
        exact ⟨h.1, h.2, hpower⟩
      · rename_i hroot
        rw [if_neg hroot]
        exact ⟨h.1, h.2, hinside.elim id fun hpower => absurd hpower.1 hroot⟩
    · rename_i hinside
      obtain ⟨hle, hpower⟩ := not_or.1 hinside
      have hle : op.level ≤ root.level := Nat.not_lt.1 hle
      -- a power in front would be tighter than the new operator, unless that is one, too
      have hop : op ≠ .power := by
        rintro rfl
        exact hpower ⟨BinaryOp.level_eq_power.1 (Nat.le_antisymm root.level_le hle), rfl⟩
      refine ⟨hwhole, trivial, ?_⟩
      rw [if_neg hop]
      refine ⟨?_, by simp [ops]⟩
      simp only [ops, List.forall_mem_append, List.forall_mem_cons]
      split at h
      · rw [h.1]
        exact ⟨nofun, hle, fun o ho => h.2 o ho ▸ op.level_le⟩
      · exact ⟨fun o ho => Nat.le_trans hle (h.1 o ho), hle,
          fun o ho => Nat.le_trans hle (Nat.le_of_lt (h.2 o ho))⟩

theorem ofSequence_concat (first : α) (rest : List (BinaryOp × α)) (last : BinaryOp × α) :
    ofSequence first (rest ++ [last]) = (ofSequence first rest).insert last.1 last.2 := by
  simp [ofSequence]

theorem read_ofSequence (first : α) (rest : List (BinaryOp × α)) :
    (ofSequence first rest).read = sequence first rest := by
  induction rest using List.reverseRecOn with
  | nil => rfl
  | append_singleton rest last ih =>
    rw [ofSequence_concat, read_insert, ih]
    simp [sequence]

theorem grouped_ofSequence (first : α) (rest : List (BinaryOp × α)) :
    (ofSequence first rest).Grouped := by
  induction rest using List.reverseRecOn with
  | nil => trivial
  | append_singleton rest last ih =>
    rw [ofSequence_concat]
    exact grouped_insert _ _ ih

end OpTree

end PromptTemplate
