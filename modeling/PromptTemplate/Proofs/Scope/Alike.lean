import PromptTemplate.Proofs.Scope.Names

/-!
# Scopes that are alike to a program

What a relation between scope trees needs for a program that uses certain
names to do the same in related trees: the names have the same values in frames
that belong to each other (`Sees`), and every operation keeps the relation
(`Alike`). Two relations of frames with the same numbers are of this kind:
equality, and having the same frames above roots that agree on the names
(`agreeing_alike`).
-/

namespace PromptTemplate.ScopeTree

/-- Both writes fail for one reason or give one value and related trees. -/
inductive WritesAlike (R : ScopeTree → ScopeTree → Prop) :
    Except Cause (Value × ScopeTree) → Except Cause (Value × ScopeTree) → Prop
  | ok (value : Value) {t t' : ScopeTree} :
    R t t' → WritesAlike R (.ok (value, t)) (.ok (value, t'))
  | error (cause : Cause) : WritesAlike R (.error cause) (.error cause)

/-- Both frames that begin belong to each other, are not the root, and leave related trees. -/
structure EntersAlike (S : ScopeId → ScopeId → Prop) (R : ScopeTree → ScopeTree → Prop)
    (entered entered' : ScopeId × ScopeTree) : Prop where
  ne_root : entered.1 ≠ root
  scope : S entered.1 entered'.1
  tree : R entered.2 entered'.2

/-- The names `N` have the same values in frames of related trees that belong to each other. -/
structure Sees (N : String → Prop) (S : ScopeId → ScopeId → Prop)
    (R : ScopeTree → ScopeTree → Prop) : Prop where
  lookup : ∀ {t t' : ScopeTree}, R t t' → ∀ {name}, N name → ∀ {scope scope'}, S scope scope' →
    t'.lookup? scope' name = t.lookup? scope name

/-- Programs that use only the names `N`, and declare in no frame but their own
ones, do the same in frames of related trees that belong to each other. -/
structure Alike (N : String → Prop) (S : ScopeId → ScopeId → Prop)
    (R : ScopeTree → ScopeTree → Prop) : Prop extends Sees N S R where
  write : ∀ {t t' : ScopeTree}, R t t' → ∀ {name}, N name → ∀ {scope scope'}, S scope scope' →
    ∀ path declares change,
      WritesAlike R (t.write scope name path declares change)
        (t'.write scope' name path declares change)
  declare : ∀ {t t' : ScopeTree}, R t t' → ∀ {scope scope'}, S scope scope' → scope ≠ root →
    ∀ name value, Option.Rel R (t.declare? scope name value) (t'.declare? scope' name value)
  enter : ∀ {t t' : ScopeTree}, R t t' → ∀ {parent parent'}, S parent parent' →
    EntersAlike S R (t.enter parent) (t'.enter parent')
  exit : ∀ {t t' : ScopeTree}, R t t' → ∀ {scope scope'}, S scope scope' → scope ≠ root →
    R (t.exit scope) (t'.exit scope')

-- ---------------------------------------------------------------------------
-- The same tree
-- ---------------------------------------------------------------------------

/-- Equality of trees that have a root. -/
def Same (t t' : ScopeTree) : Prop := t = t' ∧ t.frames ≠ []

theorem bind_ne_nil {t : ScopeTree} (h : t.frames ≠ []) (scope : ScopeId) (name : String)
    (value : Value) : (t.bind scope name value).frames ≠ [] := by
  rw [← List.length_pos_iff, length_frames_bind, List.length_pos_iff]
  exact h

theorem same_alike (N : String → Prop) : Alike N Eq Same where
  lookup := by
    rintro t _ ⟨rfl, -⟩ name - scope _ rfl
    rfl
  write := by
    rintro t _ ⟨rfl, hroot⟩ name - scope _ rfl path declares change
    cases hwrite : t.write scope name path declares change with
    | error cause => exact .error cause
    | ok outcome =>
      obtain ⟨result, u⟩ := outcome
      refine .ok result ⟨rfl, ?_⟩
      obtain ⟨owner, value, changed, -, -, rfl⟩ | ⟨stored, -, -, -, -, rfl⟩ := write_cases hwrite
      · exact bind_ne_nil hroot _ _ _
      · exact bind_ne_nil hroot _ _ _
  declare := by
    rintro t _ ⟨rfl, hroot⟩ scope _ rfl - name value
    unfold declare?
    split
    · exact .none
    · exact .some ⟨rfl, bind_ne_nil hroot _ _ _⟩
  enter := by
    rintro t _ ⟨rfl, hroot⟩ parent _ rfl
    exact ⟨Nat.ne_of_gt (List.length_pos_iff.2 hroot), rfl, rfl, List.cons_ne_nil _ _⟩
  exit := by
    rintro t _ ⟨rfl, hroot⟩ scope _ rfl hscope
    refine ⟨rfl, ?_⟩
    have hlength := List.length_pos_iff.2 hroot
    have hpos : 0 < (scope : Nat) := Nat.pos_of_ne_zero hscope
    rw [exit, if_neg hscope, ← List.length_pos_iff, List.length_drop]
    exact Nat.sub_pos_of_lt (Nat.sub_lt hlength hpos)

-- ---------------------------------------------------------------------------
-- Roots that agree on some names
-- ---------------------------------------------------------------------------

/-- The same frames above roots that agree on the names `N`. -/
def Agreeing (N : String → Prop) (t t' : ScopeTree) : Prop :=
  ∃ (inner : List Frame) (base base' : Frame),
    t.frames = inner ++ [base] ∧ t'.frames = inner ++ [base'] ∧
      ∀ name, N name → Dict.get? base'.bindings name = Dict.get? base.bindings name

variable {N : String → Prop}

section
variable {inner : List Frame} {base base' : Frame}

theorem frameIn?_above {scope : Nat} (h : scope ≠ 0) :
    frameIn? (inner ++ [base]) scope = frameIn? inner (scope - 1) := by
  induction inner with
  | nil => exact if_neg h
  | cons frame older ih =>
    have hnewest : scope = (older ++ [base]).length ↔ scope - 1 = older.length := by
      rw [List.length_append, List.length_singleton]
      omega
    simp only [List.cons_append, frameIn?, hnewest, ih]

theorem changeIn_above {change : Dict Value → Dict Value} {scope : Nat} (h : scope ≠ 0) :
    changeIn change (inner ++ [base]) scope = changeIn change inner (scope - 1) ++ [base] := by
  induction inner with
  | nil => exact if_neg h
  | cons frame older ih =>
    have hnewest : scope = (older ++ [base]).length ↔ scope - 1 = older.length := by
      rw [List.length_append, List.length_singleton]
      omega
    simp only [List.cons_append, changeIn, hnewest, ih]
    split <;> rfl

theorem drop_above {scope : Nat} (h : scope ≠ 0) :
    (inner ++ [base]).drop ((inner ++ [base]).length - scope) =
      inner.drop (inner.length + 1 - scope) ++ [base] := by
  rw [List.length_append, List.length_singleton]
  exact List.drop_append_of_le_length (by omega)

theorem changeIn_root {change : Dict Value → Dict Value} :
    changeIn change (inner ++ [base]) root =
      inner ++ [{ base with bindings := change base.bindings }] := by
  induction inner with
  | nil => rfl
  | cons frame older ih =>
    have hnewer : root ≠ (older ++ [base]).length := by simp [root]
    rw [List.cons_append, changeIn_older hnewer, ih]
    rfl

theorem ownerIn?_agreeing {name : String}
    (h : Dict.get? base'.bindings name = Dict.get? base.bindings name) (scope : Nat) :
    ownerIn? name (inner ++ [base']) scope = ownerIn? name (inner ++ [base]) scope := by
  induction inner generalizing scope with
  | nil =>
    have hroot (frame : Frame) : ownerIn? name [frame] scope =
        if scope = 0 then (Dict.get? frame.bindings name).map (Prod.mk scope) else none := by
      unfold ownerIn?
      cases Dict.get? frame.bindings name <;> cases frame.parent <;> rfl
    rw [List.nil_append, List.nil_append, hroot, hroot, h]
  | cons frame older ih =>
    have hfun : ownerIn? name (older ++ [base']) = ownerIn? name (older ++ [base]) := funext ih
    simp only [List.cons_append, ownerIn?, List.length_append, List.length_singleton, hfun]

end

variable {t t' : ScopeTree}

theorem Agreeing.owner? (h : Agreeing N t t') {name : String} (hname : N name) (scope : ScopeId) :
    t'.owner? scope name = t.owner? scope name := by
  obtain ⟨inner, base, base', ht, ht', hagree⟩ := h
  rw [ScopeTree.owner?, ScopeTree.owner?, ht, ht', ownerIn?_agreeing (hagree name hname)]

theorem Agreeing.bind (h : Agreeing N t t') (scope : ScopeId) (name : String) (value : Value) :
    Agreeing N (t.bind scope name value) (t'.bind scope name value) := by
  obtain ⟨inner, base, base', ht, ht', hagree⟩ := h
  unfold ScopeTree.bind changeBindings
  rw [ht, ht']
  by_cases hscope : scope = root
  · subst hscope
    refine ⟨inner, _, _, changeIn_root, changeIn_root, fun other hother => ?_⟩
    simp only [Dict.get?_put, hagree other hother]
  · exact ⟨_, base, base', changeIn_above hscope, changeIn_above hscope, hagree⟩

theorem agreeing_ofBindings {bindings bindings' : Dict Value}
    (h : ∀ name, N name → Dict.get? bindings' name = Dict.get? bindings name) :
    Agreeing N (ofBindings bindings) (ofBindings bindings') :=
  ⟨[], ⟨bindings, none⟩, ⟨bindings', none⟩, rfl, rfl, h⟩

theorem agreeing_alike (N : String → Prop) : Alike N Eq (Agreeing N) where
  lookup := by
    rintro t t' h name hname scope _ rfl
    rw [lookup?, lookup?, h.owner? hname]
  write := by
    rintro t t' h name hname scope _ rfl path declares change
    unfold write
    rw [h.owner? hname]
    cases t.owner? scope name with
    | some found =>
      obtain ⟨owner, value⟩ := found
      cases hchange : Value.changeAt change path value with
      | error cause =>
        simp only [hchange]
        exact .error cause
      | ok outcome =>
        simp only [hchange]
        exact .ok outcome.2 (h.bind owner name outcome.1)
    | none =>
      dsimp only
      split
      · cases hchange : change none with
        | error cause => exact .error cause
        | ok outcome => exact .ok outcome.2 (h.bind scope name outcome.1)
      · exact .error _
  declare := by
    rintro t t' h scope _ rfl hscope name value
    have hframe : t'.frame? scope = t.frame? scope := by
      obtain ⟨inner, base, base', ht, ht', -⟩ := h
      rw [frame?, frame?, ht, ht', frameIn?_above hscope, frameIn?_above hscope]
    unfold declare?
    rw [hframe]
    split
    · exact .none
    · exact .some (h.bind scope name value)
  enter := by
    rintro t t' ⟨inner, base, base', ht, ht', hagree⟩ parent _ rfl
    have hlength : t.frames.length = t'.frames.length := by simp [ht, ht']
    refine ⟨?_, hlength, ⟨[], some parent⟩ :: inner, base, base', ?_, ?_, hagree⟩
    · simp [enter, ht, root]
    · simp [enter, ht]
    · simp [enter, ht']
  exit := by
    rintro t t' ⟨inner, base, base', ht, ht', hagree⟩ scope _ rfl hscope
    unfold exit
    rw [if_neg hscope, if_neg hscope, ht, ht']
    exact ⟨_, base, base', drop_above hscope, drop_above hscope, hagree⟩

end PromptTemplate.ScopeTree
