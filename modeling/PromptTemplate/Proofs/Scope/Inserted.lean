import PromptTemplate.Proofs.Scope.Alike

/-!
# A frame with nothing in it

A tree and the same tree with one more frame, which is empty. Newer frames count
one more, and what is inside the parent of the empty frame is inside the empty
frame instead. Programs do the same in the newer frames (`inserted_alike`), and
the empty frame shows what its parent shows (`inserted_sees`).
-/

namespace PromptTemplate.ScopeTree

/-- Which frames belong to each other around an empty frame with the number `n` inside `outer`: the
frame `outer` to the empty one, and newer frames to the ones that count one more. -/
inductive Beside (n : Nat) (outer : ScopeId) : ScopeId → ScopeId → Prop
  | empty : Beside n outer outer n
  | newer {scope : Nat} : n ≤ scope → Beside n outer scope (scope + 1)

/-- Newer frames alone. -/
def Moved (n scope scope' : Nat) : Prop := n ≤ scope ∧ scope' = scope + 1

/-- The second list of frames has an empty frame with the number `n` inside `outer`, and the frames
of the first list around it. -/
inductive Inserted (n : Nat) (outer : ScopeId) : List Frame → List Frame → Prop
  | empty {older : List Frame} : older.length = n →
    Inserted n outer older (⟨[], some outer⟩ :: older)
  | newer {frames frames' : List Frame} (bindings : Dict Value) {parent parent' : ScopeId} :
    Beside n outer parent parent' → Inserted n outer frames frames' →
      Inserted n outer (⟨bindings, some parent⟩ :: frames) (⟨bindings, some parent'⟩ :: frames')

/-- The number that a frame has beside an empty frame of the number `n`. -/
def numberBeside (n scope : Nat) : Nat := if scope < n then scope else scope + 1

theorem numberBeside_of_moved {n scope scope' : Nat} (h : Moved n scope scope') :
    scope' = numberBeside n scope := by
  rw [numberBeside, if_neg (Nat.not_lt.2 h.1), h.2]

namespace Inserted

variable {n outer : Nat} {frames frames' : List Frame}

theorem length (h : Inserted n outer frames frames') :
    n ≤ frames.length ∧ frames'.length = frames.length + 1 := by
  induction h with
  | empty h => exact ⟨h ▸ Nat.le_refl _, rfl⟩
  | newer _ _ _ ih =>
    simp only [List.length_cons]
    omega

-- ---------------------------------------------------------------------------
-- What is visible
-- ---------------------------------------------------------------------------

theorem ownerIn? (h : Inserted n outer frames frames') (houter : outer < n) (name : String)
    {scope scope' : Nat} (hscope : Beside n outer scope scope') :
    ScopeTree.ownerIn? name frames' scope' =
      (ScopeTree.ownerIn? name frames scope).map (Prod.map (numberBeside n) id) := by
  induction h generalizing scope scope' with
  | @empty older h =>
    subst h
    cases hscope with
    | empty =>
      rw [ownerIn?_newest]
      show ScopeTree.ownerIn? name older outer = _
      cases howner : ScopeTree.ownerIn? name older outer with
      | none => rfl
      | some found =>
        have hlt := (ownerIn?_spec howner).1
        simp [Prod.map, numberBeside, hlt]
    | newer hscope =>
      rw [ownerIn?_older (by omega), ownerIn?_eq_none hscope, ownerIn?_eq_none (by omega)]
      rfl
  | @newer frames frames' bindings parent parent' hparent h ih =>
    obtain ⟨hle, hlength⟩ := h.length
    cases hscope with
    | empty => rw [ownerIn?_older (by omega), ownerIn?_older (by omega), ih .empty]
    | @newer scope hscope =>
      by_cases hnewest : scope = frames.length
      · rw [hnewest, ← hlength, ownerIn?_newest, hlength, ownerIn?_newest]
        dsimp only
        cases Dict.get? bindings name with
        | some value => simp [Prod.map, numberBeside, Nat.not_lt.2 hle]
        | none => exact ih hparent
      · rw [ownerIn?_older (by omega), ownerIn?_older hnewest, ih (.newer hscope)]

theorem snapshotIn (h : Inserted n outer frames frames') (houter : outer < n) {scope scope' : Nat}
    (hscope : Beside n outer scope scope') :
    ScopeTree.snapshotIn frames' scope' = ScopeTree.snapshotIn frames scope := by
  induction h generalizing scope scope' with
  | @empty older h =>
    subst h
    cases hscope with
    | empty => exact snapshotIn_newest
    | newer hscope =>
      rw [snapshotIn_older (by omega), snapshotIn_eq_nil hscope, snapshotIn_eq_nil (by omega)]
  | @newer frames frames' bindings parent parent' hparent h ih =>
    obtain ⟨hle, hlength⟩ := h.length
    cases hscope with
    | empty => rw [snapshotIn_older (by omega), snapshotIn_older (by omega), ih .empty]
    | @newer scope hscope =>
      by_cases hnewest : scope = frames.length
      · rw [hnewest, ← hlength, snapshotIn_newest, snapshotIn_newest]
        dsimp only
        rw [ih hparent]
      · rw [snapshotIn_older (by omega), snapshotIn_older hnewest, ih (.newer hscope)]

-- ---------------------------------------------------------------------------
-- What the operations do
-- ---------------------------------------------------------------------------

theorem changeIn (h : Inserted n outer frames frames') (change : Dict Value → Dict Value)
    (scope : Nat) :
    Inserted n outer (ScopeTree.changeIn change frames scope)
      (ScopeTree.changeIn change frames' (numberBeside n scope)) := by
  induction h with
  | @empty older h =>
    subst h
    have hne : numberBeside older.length scope ≠ older.length := by
      unfold numberBeside
      split <;> omega
    have hsame : ScopeTree.changeIn change older (numberBeside older.length scope) =
        ScopeTree.changeIn change older scope := by
      unfold numberBeside
      split
      · rfl
      · rw [changeIn_eq_self (by omega), changeIn_eq_self (by omega)]
    rw [changeIn_older hne, hsame]
    exact .empty (length_changeIn ..)
  | @newer frames frames' bindings parent parent' hparent h ih =>
    obtain ⟨hle, hlength⟩ := h.length
    by_cases hnewest : scope = frames.length
    · have hbeside : numberBeside n scope = frames'.length := by
        rw [hlength, hnewest, numberBeside, if_neg (Nat.not_lt.2 hle)]
      rw [hbeside, hnewest, changeIn_newest, changeIn_newest]
      exact .newer _ hparent h
    · have hbeside : numberBeside n scope ≠ frames'.length := by
        unfold numberBeside
        split <;> omega
      rw [changeIn_older hbeside, changeIn_older hnewest]
      exact .newer _ hparent ih

theorem frameIn? (h : Inserted n outer frames frames') {scope scope' : Nat}
    (hscope : Moved n scope scope') :
    (ScopeTree.frameIn? frames' scope').map Frame.bindings =
      (ScopeTree.frameIn? frames scope).map Frame.bindings := by
  obtain ⟨hscope, rfl⟩ := hscope
  induction h with
  | empty h =>
    subst h
    rw [frameIn?_older (by omega), frameIn?_eq_none hscope, frameIn?_eq_none (by omega)]
  | @newer frames frames' bindings parent parent' hparent h ih =>
    have hlength := h.length.2
    by_cases hnewest : scope = frames.length
    · rw [hnewest, ← hlength, frameIn?_newest, frameIn?_newest]
      rfl
    · rw [frameIn?_older (by omega), frameIn?_older hnewest, ih]

theorem drop (h : Inserted n outer frames frames') {count : Nat} (hcount : count ≤ frames.length - n) :
    Inserted n outer (frames.drop count) (frames'.drop count) := by
  induction h generalizing count with
  | empty h =>
    obtain rfl : count = 0 := by omega
    exact .empty h
  | newer bindings hparent h ih =>
    cases count with
    | zero => exact .newer bindings hparent h
    | succ count =>
      rw [List.length_cons] at hcount
      exact ih (by omega)

end Inserted

/-- A tree and the same tree with an empty frame. -/
def HasEmpty (n : Nat) (outer : ScopeId) (t t' : ScopeTree) : Prop :=
  Inserted n outer t.frames t'.frames

variable {n outer : Nat} {t t' : ScopeTree}

namespace HasEmpty

theorem owner? (h : HasEmpty n outer t t') (houter : outer < n) (name : String)
    {scope scope' : ScopeId} (hscope : Beside n outer scope scope') :
    t'.owner? scope' name = (t.owner? scope name).map (Prod.map (numberBeside n) id) :=
  Inserted.ownerIn? h houter name hscope

theorem snapshot (h : HasEmpty n outer t t') (houter : outer < n) {scope scope' : ScopeId}
    (hscope : Beside n outer scope scope') : t'.snapshot scope' = t.snapshot scope :=
  Inserted.snapshotIn h houter hscope

theorem bind (h : HasEmpty n outer t t') (scope : ScopeId) (name : String) (value : Value) :
    HasEmpty n outer (t.bind scope name value) (t'.bind (numberBeside n scope) name value) :=
  Inserted.changeIn h _ scope

/-- A frame that begins in frames that belong to each other. -/
theorem enter (h : HasEmpty n outer t t') (houter : outer < n) {parent parent' : ScopeId}
    (hparent : Beside n outer parent parent') :
    EntersAlike (Moved n) (HasEmpty n outer) (t.enter parent) (t'.enter parent') := by
  obtain ⟨hle, hlength⟩ := Inserted.length h
  exact ⟨Nat.ne_of_gt (by omega : 0 < t.frames.length), ⟨hle, hlength⟩, .newer [] hparent h⟩

/-- The empty frame ends when all newer frames have ended. -/
theorem exit_length (h : HasEmpty t.frames.length outer t t') (hroot : t.frames ≠ []) :
    t'.exit t.frames.length = t := by
  obtain ⟨frames⟩ := t
  obtain ⟨frames'⟩ := t'
  cases (show Inserted frames.length outer frames frames' from h) with
  | empty => exact exit_newest _ hroot
  | newer _ _ hinner => exact absurd hinner.length.1 (by simp)

end HasEmpty

theorem Moved.beside {scope scope' : Nat} (h : Moved n scope scope') :
    Beside n outer scope scope' := by
  obtain ⟨h, rfl⟩ := h
  exact .newer h

/-- The empty frame shows the same as its parent, and so do the newer frames. -/
theorem inserted_sees (N : String → Prop) (houter : outer < n) :
    Sees N (Beside n outer) (HasEmpty n outer) where
  lookup := by
    intro t t' h name _ scope scope' hscope
    rw [lookup?, lookup?, h.owner? houter name hscope, Option.map_map]
    rfl

theorem inserted_alike (N : String → Prop) (houter : outer < n) :
    Alike N (Moved n) (HasEmpty n outer) where
  lookup h _ hname _ _ hscope := (inserted_sees N houter).lookup h hname hscope.beside
  write := by
    intro t t' h name _ scope scope' hscope path declares change
    unfold write
    rw [h.owner? houter name hscope.beside]
    cases t.owner? scope name with
    | some found =>
      obtain ⟨owner, value⟩ := found
      cases hchange : Value.changeAt change path value with
      | error cause =>
        simp only [Option.map_some, Prod.map, id, hchange]
        exact .error cause
      | ok outcome =>
        simp only [Option.map_some, Prod.map, id, hchange]
        exact .ok outcome.2 (h.bind owner name outcome.1)
    | none =>
      dsimp only [Option.map_none]
      split
      · cases hchange : change none with
        | error cause => exact .error cause
        | ok outcome =>
          refine .ok outcome.2 ?_
          rw [numberBeside_of_moved hscope]
          exact h.bind scope name outcome.1
      · exact .error _
  declare := by
    intro t t' h scope scope' hscope _ name value
    have hframe : (t'.frame? scope').any (Dict.contains ·.bindings name) =
        (t.frame? scope).any (Dict.contains ·.bindings name) := by
      have hbindings := congrArg (Option.any (Dict.contains · name)) (Inserted.frameIn? h hscope)
      rwa [Option.any_map, Option.any_map] at hbindings
    unfold declare?
    rw [hframe]
    split
    · exact .none
    · rw [numberBeside_of_moved hscope]
      exact .some (h.bind scope name value)
  enter h _ _ hparent := h.enter houter hparent.beside
  exit := by
    rintro t t' h scope _ ⟨hscope, rfl⟩ hroot
    have hlength := (Inserted.length h).2
    have hroot' : scope + 1 ≠ root := Nat.succ_ne_zero scope
    have hcount : t'.frames.length - (scope + 1) = t.frames.length - scope := by omega
    unfold exit
    rw [if_neg hroot, if_neg hroot', hcount]
    exact Inserted.drop h (Nat.sub_le_sub_left hscope _)

end PromptTemplate.ScopeTree
