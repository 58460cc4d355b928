import PromptTemplate.Scope

/-!
# The names in frames

What the operations of a scope tree do to the names that its frames hold.
Only declaring gives a frame a name, and only in the frame that it is done in
(`KeepsNames`); a write to a visible name goes to the frame that holds it
(`write_cases`). Entering a frame and ending it again leaves all older frames
with the names that they had (`outline_exit`).
-/

namespace PromptTemplate

/-- The parent of a frame and the names in it. -/
def Frame.outline (frame : Frame) : Option ScopeId × List String :=
  (frame.parent, Dict.keys frame.bindings)

/-- The parent of a frame and whether a name is in it. -/
def Frame.holds (name : String) (frame : Frame) : Option ScopeId × Bool :=
  (frame.parent, (Dict.get? frame.bindings name).isSome)

namespace ScopeTree

-- ---------------------------------------------------------------------------
-- Frames by their numbers
-- ---------------------------------------------------------------------------

section
variable {frame : Frame} {older : List Frame} {id : Nat}

@[simp] theorem frameIn?_newest : frameIn? (frame :: older) older.length = some frame :=
  if_pos rfl

theorem frameIn?_older (h : id ≠ older.length) :
    frameIn? (frame :: older) id = frameIn? older id :=
  if_neg h

theorem changeIn_newest {change : Dict Value → Dict Value} :
    changeIn change (frame :: older) older.length =
      { frame with bindings := change frame.bindings } :: older :=
  if_pos rfl

theorem changeIn_older {change : Dict Value → Dict Value} (h : id ≠ older.length) :
    changeIn change (frame :: older) id = frame :: changeIn change older id :=
  if_neg h

theorem ownerIn?_newest {name : String} :
    ownerIn? name (frame :: older) older.length =
      match Dict.get? frame.bindings name with
      | some value => some (older.length, value)
      | none => frame.parent.bind (ownerIn? name older) :=
  if_pos rfl

theorem ownerIn?_older {name : String} (h : id ≠ older.length) :
    ownerIn? name (frame :: older) id = ownerIn? name older id :=
  if_neg h

theorem snapshotIn_newest : snapshotIn (frame :: older) older.length =
    Dict.putAll (match frame.parent with
      | some parent => snapshotIn older parent
      | none => []) frame.bindings :=
  if_pos rfl

theorem snapshotIn_older (h : id ≠ older.length) :
    snapshotIn (frame :: older) id = snapshotIn older id :=
  if_neg h

end

-- There are no frames of higher numbers than the newest.

theorem frameIn?_eq_none {frames : List Frame} {id : Nat} (h : frames.length ≤ id) :
    frameIn? frames id = none := by
  induction frames with
  | nil => rfl
  | cons frame older ih =>
    rw [List.length_cons] at h
    rw [frameIn?_older (by omega), ih (by omega)]

theorem changeIn_eq_self {change : Dict Value → Dict Value} {frames : List Frame} {id : Nat}
    (h : frames.length ≤ id) : changeIn change frames id = frames := by
  induction frames with
  | nil => rfl
  | cons frame older ih =>
    rw [List.length_cons] at h
    rw [changeIn_older (by omega), ih (by omega)]

theorem ownerIn?_eq_none {name : String} {frames : List Frame} {id : Nat}
    (h : frames.length ≤ id) : ownerIn? name frames id = none := by
  induction frames with
  | nil => rfl
  | cons frame older ih =>
    rw [List.length_cons] at h
    rw [ownerIn?_older (by omega), ih (by omega)]

theorem snapshotIn_eq_nil {frames : List Frame} {id : Nat} (h : frames.length ≤ id) :
    snapshotIn frames id = [] := by
  induction frames with
  | nil => rfl
  | cons frame older ih =>
    rw [List.length_cons] at h
    rw [snapshotIn_older (by omega), ih (by omega)]

theorem frameIn?_drop {frames : List Frame} {count id : Nat} (h : id < frames.length - count) :
    frameIn? (frames.drop count) id = frameIn? frames id := by
  induction count generalizing frames with
  | zero => rfl
  | succ count ih =>
    cases frames with
    | nil => rfl
    | cons frame older =>
      rw [List.length_cons] at h
      rw [List.drop_succ_cons, ih (by omega), frameIn?_older (by omega)]

theorem frameIn?_changeIn (change : Dict Value → Dict Value) (frames : List Frame)
    (scope id : Nat) :
    frameIn? (changeIn change frames scope) id =
      (frameIn? frames id).map fun frame =>
        if id = scope then { frame with bindings := change frame.bindings } else frame := by
  induction frames with
  | nil => rfl
  | cons frame older ih =>
    by_cases hscope : scope = older.length
    · subst hscope
      rw [changeIn_newest]
      by_cases hid : id = older.length
      · subst hid
        simp
      · rw [frameIn?_older hid, frameIn?_older hid]
        simp [hid]
    · rw [changeIn_older hscope]
      by_cases hid : id = older.length
      · subst hid
        rw [frameIn?_newest, Option.map_some, if_neg (Ne.symm hscope), ← length_changeIn change
          older scope, frameIn?_newest]
      · rw [frameIn?_older (by rwa [length_changeIn]), frameIn?_older hid, ih]

section
variable {frames others : List Frame} {f : Frame → β}

/-- Frames that look alike in one way are as many. -/
theorem length_of_map (h : frames.map f = others.map f) : frames.length = others.length := by
  have hlength := congrArg List.length h
  rwa [List.length_map, List.length_map] at hlength

theorem frameIn?_of_map (h : frames.map f = others.map f) (id : Nat) :
    (frameIn? frames id).map f = (frameIn? others id).map f := by
  induction frames generalizing others with
  | nil =>
    rw [List.map_nil] at h
    rw [List.map_eq_nil_iff.mp h.symm]
  | cons frame older ih =>
    cases others with
    | nil => cases h
    | cons other rest =>
      rw [List.map_cons, List.map_cons, List.cons.injEq] at h
      have hlength := length_of_map h.2
      by_cases hid : id = older.length
      · subst hid
        rw [frameIn?_newest, hlength, frameIn?_newest, Option.map_some, Option.map_some, h.1]
      · rw [frameIn?_older hid, frameIn?_older (hlength ▸ hid)]
        exact ih h.2

theorem map_ext (hlength : frames.length = others.length)
    (h : ∀ id, (frameIn? frames id).map f = (frameIn? others id).map f) :
    frames.map f = others.map f := by
  induction frames generalizing others with
  | nil => rw [List.eq_nil_of_length_eq_zero hlength.symm]
  | cons frame older ih =>
    cases others with
    | nil => cases hlength
    | cons other rest =>
      have hrest : older.length = rest.length := Nat.succ.inj hlength
      have hhead := h older.length
      rw [frameIn?_newest, hrest, frameIn?_newest, Option.map_some, Option.map_some,
        Option.some.injEq] at hhead
      have hrests : ∀ id, (frameIn? older id).map f = (frameIn? rest id).map f := by
        intro id
        by_cases hid : (id : Nat) < older.length
        · have hid' : id ≠ rest.length := hrest ▸ Nat.ne_of_lt hid
          have hframes := h id
          rwa [frameIn?_older (Nat.ne_of_lt hid), frameIn?_older hid'] at hframes
        · rw [frameIn?_eq_none (Nat.le_of_not_lt hid),
            frameIn?_eq_none (hrest ▸ Nat.le_of_not_lt hid)]
      rw [List.map_cons, List.map_cons, hhead, ih hrest hrests]

end

-- ---------------------------------------------------------------------------
-- Owners
-- ---------------------------------------------------------------------------

/-- The owner of a name is a frame that holds it. -/
theorem ownerIn?_spec {name : String} {frames : List Frame} {scope owner : Nat} {value : Value}
    (h : ownerIn? name frames scope = some (owner, value)) :
    owner < frames.length ∧
      ∃ frame, frameIn? frames owner = some frame ∧ Dict.get? frame.bindings name = some value := by
  induction frames generalizing scope with
  | nil => cases h
  | cons frame older ih =>
    have hlater : ∀ id, ownerIn? name older id = some (owner, value) →
        owner < (frame :: older).length ∧ ∃ found,
          frameIn? (frame :: older) owner = some found ∧
            Dict.get? found.bindings name = some value := by
      intro id howner
      obtain ⟨hlt, found, hfound, hvalue⟩ := ih howner
      exact ⟨Nat.lt_succ_of_lt hlt, found, by rw [frameIn?_older (Nat.ne_of_lt hlt), hfound],
        hvalue⟩
    by_cases hscope : scope = older.length
    · subst hscope
      rw [ownerIn?_newest] at h
      cases hget : Dict.get? frame.bindings name with
      | some found =>
        rw [hget] at h
        cases h
        exact ⟨Nat.lt_succ_self _, frame, frameIn?_newest, hget⟩
      | none =>
        rw [hget] at h
        obtain ⟨parent, -, howner⟩ := Option.bind_eq_some_iff.mp h
        exact hlater parent howner
    · rw [ownerIn?_older hscope] at h
      exact hlater scope h

/-- Which frame holds a name depends on the parents and on the frames that it is in. -/
theorem owner_of_holds {name : String} {frames others : List Frame}
    (h : frames.map (Frame.holds name) = others.map (Frame.holds name)) (scope : Nat) :
    (ownerIn? name frames scope).map Prod.fst = (ownerIn? name others scope).map Prod.fst := by
  induction frames generalizing others scope with
  | nil =>
    rw [List.map_nil] at h
    rw [List.map_eq_nil_iff.mp h.symm]
  | cons frame older ih =>
    cases others with
    | nil => cases h
    | cons other rest =>
      rw [List.map_cons, List.map_cons, List.cons.injEq] at h
      obtain ⟨hhead, hrest⟩ := h
      have hlength := length_of_map hrest
      obtain ⟨hparent, hbound⟩ := Prod.mk.inj hhead
      by_cases hscope : scope = older.length
      · subst hscope
        rw [ownerIn?_newest, hlength, ownerIn?_newest, ← hparent]
        cases hget : Dict.get? frame.bindings name with
        | some value =>
          cases hother : Dict.get? other.bindings name with
          | some => rfl
          | none => simp [hget, hother] at hbound
        | none =>
          cases hother : Dict.get? other.bindings name with
          | some => simp [hget, hother] at hbound
          | none =>
            cases frame.parent with
            | none => rfl
            | some parent => exact ih hrest parent
      · rw [ownerIn?_older hscope, ownerIn?_older (hlength ▸ hscope)]
        exact ih hrest scope

/-- Which frame holds a name depends on the names in the frames alone. -/
theorem owner_of_outline {frames others : List Frame}
    (h : frames.map Frame.outline = others.map Frame.outline) (name : String) (scope : Nat) :
    (ownerIn? name frames scope).map Prod.fst = (ownerIn? name others scope).map Prod.fst := by
  have hholds : ∀ frames : List Frame, frames.map (Frame.holds name) =
      (frames.map Frame.outline).map fun outline => (outline.1, decide (name ∈ outline.2)) := by
    intro frames
    rw [List.map_map]
    refine List.map_congr_left fun frame _ => Prod.ext rfl ?_
    simp [Frame.holds, Frame.outline, ← Dict.get?_isSome_iff_mem_keys]
  exact owner_of_holds (by rw [hholds, hholds, h]) scope

theorem ownerIn?_drop {frames : List Frame} {count scope : Nat}
    (h : scope < frames.length - count) (name : String) :
    ownerIn? name (frames.drop count) scope = ownerIn? name frames scope := by
  induction count generalizing frames with
  | zero => rfl
  | succ count ih =>
    cases frames with
    | nil => rfl
    | cons frame older =>
      rw [List.length_cons] at h
      rw [List.drop_succ_cons, ih (by omega), ownerIn?_older (by omega)]

/-- Binding another name anywhere leaves a name where it is. -/
theorem ownerIn?_bind_ne {name other : String} (hne : other ≠ name) (value : Value)
    (frames : List Frame) (scope id : Nat) :
    ownerIn? name (changeIn (Dict.put · other value) frames scope) id =
      ownerIn? name frames id := by
  induction frames generalizing id with
  | nil => rfl
  | cons frame older ih =>
    by_cases hscope : scope = older.length
    · subst hscope
      rw [changeIn_newest]
      by_cases hid : id = older.length
      · subst hid
        simp only [ownerIn?_newest, Dict.get?_put, hne, if_false]
      · rw [ownerIn?_older hid, ownerIn?_older hid]
    · have hfun : ownerIn? name (changeIn (Dict.put · other value) older scope) =
          ownerIn? name older := funext ih
      rw [changeIn_older hscope, ownerIn?, ownerIn?, length_changeIn, hfun]

/-- Binding a visible name where it is bound gives it another value. -/
theorem ownerIn?_bind_owner {name : String} {frames : List Frame} {scope owner : Nat}
    {value : Value} (h : ownerIn? name frames scope = some (owner, value)) (changed : Value) :
    ownerIn? name (changeIn (Dict.put · name changed) frames owner) scope =
      some (owner, changed) := by
  induction frames generalizing scope with
  | nil => cases h
  | cons frame older ih =>
    by_cases hscope : scope = older.length
    · subst hscope
      rw [ownerIn?_newest] at h
      cases hget : Dict.get? frame.bindings name with
      | some found =>
        rw [hget] at h
        cases h
        rw [changeIn_newest, ownerIn?_newest]
        simp [Dict.get?_put]
      | none =>
        rw [hget] at h
        obtain ⟨parent, hparent, howner⟩ := Option.bind_eq_some_iff.mp h
        rw [changeIn_older (Nat.ne_of_lt (ownerIn?_spec howner).1), ownerIn?, length_changeIn,
          if_pos rfl, hget, hparent]
        exact ih howner
    · rw [ownerIn?_older hscope] at h
      rw [changeIn_older (Nat.ne_of_lt (ownerIn?_spec h).1),
        ownerIn?_older (by rwa [length_changeIn])]
      exact ih h

-- ---------------------------------------------------------------------------
-- Keeping names
-- ---------------------------------------------------------------------------

/-- There are as many frames as before, with the names that they had; only the
frame `scope` may have got or lost some. -/
structure KeepsNames (scope : ScopeId) (before after : ScopeTree) : Prop where
  length : after.frames.length = before.frames.length
  frames : ∀ id, id ≠ scope →
    (after.frame? id).map Frame.outline = (before.frame? id).map Frame.outline

variable {scope : ScopeId} {s t u : ScopeTree}

theorem KeepsNames.refl (scope : ScopeId) (t : ScopeTree) : KeepsNames scope t t where
  length := rfl
  frames _ _ := rfl

theorem KeepsNames.trans (h : KeepsNames scope s t) (h' : KeepsNames scope t u) :
    KeepsNames scope s u where
  length := h'.length.trans h.length
  frames id hid := (h'.frames id hid).trans (h.frames id hid)

/-- Names may be bound in the frame that is excepted. -/
theorem KeepsNames.bind (t : ScopeTree) (scope : ScopeId) (name : String) (value : Value) :
    KeepsNames scope t (t.bind scope name value) where
  length := length_frames_bind ..
  frames id hid := by
    show (frameIn? (changeIn _ _ _) id).map _ = _
    rw [frameIn?_changeIn]
    simp only [hid, if_false, Option.map_map, Function.comp_def]
    rfl

/-- A name may be bound again in any frame that holds it. -/
theorem outline_bind_owner {name : String} {owner : ScopeId} {value : Value}
    (h : t.owner? scope name = some (owner, value)) (changed : Value) :
    (t.bind owner name changed).frames.map Frame.outline = t.frames.map Frame.outline := by
  obtain ⟨-, frame, hframe, hget⟩ := ownerIn?_spec h
  have hmem : name ∈ Dict.keys frame.bindings := by
    rw [← Dict.get?_isSome_iff_mem_keys, hget]
    rfl
  refine map_ext (length_frames_bind ..) fun id => ?_
  show (frameIn? (changeIn _ _ _) id).map _ = _
  rw [frameIn?_changeIn, Option.map_map]
  by_cases hid : id = owner
  · subst hid
    rw [hframe, Option.map_some, Option.map_some, Function.comp, if_pos rfl]
    simp only [Frame.outline, Dict.keys_put, hmem, if_true]
  · simp only [Function.comp_def, hid, if_false]

theorem KeepsNames.of_outline (h : t.frames.map Frame.outline = s.frames.map Frame.outline) :
    KeepsNames scope s t where
  length := length_of_map h
  frames id _ := frameIn?_of_map h id

/-- What a write does: it changes the value of a visible name where that is
bound, or binds a name that is not visible in the frame itself. -/
theorem write_cases {name : String} {path : List Value} {declares : Bool} {change : Value.Change}
    {result : Value} (h : t.write scope name path declares change = .ok (result, u)) :
    (∃ owner value changed, t.owner? scope name = some (owner, value) ∧
      Value.changeAt change path value = .ok (changed, result) ∧
      u = t.bind owner name changed) ∨
    (∃ stored, declares = true ∧ path = [] ∧ t.owner? scope name = none ∧
      change none = .ok (stored, result) ∧ u = t.bind scope name stored) := by
  unfold write at h
  cases howner : t.owner? scope name with
  | some found =>
    obtain ⟨owner, value⟩ := found
    rw [howner] at h
    cases hchange : Value.changeAt change path value with
    | error cause => simp [hchange, Bind.bind, Except.bind] at h
    | ok outcome =>
      obtain ⟨changed, given⟩ := outcome
      simp only [hchange, Bind.bind, Except.bind] at h
      cases h
      exact .inl ⟨owner, value, changed, rfl, hchange, rfl⟩
  | none =>
    rw [howner] at h
    dsimp only at h
    split at h
    case isTrue hnew =>
      cases hchange : change none with
      | error cause => simp [hchange, Bind.bind, Except.bind] at h
      | ok outcome =>
        obtain ⟨stored, given⟩ := outcome
        obtain ⟨hdeclares, hpath⟩ := Bool.and_eq_true_iff.mp hnew
        simp only [hchange, Bind.bind, Except.bind] at h
        cases h
        exact .inr ⟨stored, hdeclares, List.isEmpty_iff.mp hpath, rfl, rfl, rfl⟩
    case isFalse => cases h

theorem KeepsNames.write {name : String} {path : List Value} {declares : Bool}
    {change : Value.Change} {result : Value}
    (h : t.write scope name path declares change = .ok (result, u)) : KeepsNames scope t u := by
  rcases write_cases h with ⟨owner, value, changed, howner, -, rfl⟩ | ⟨stored, -, -, -, -, rfl⟩
  · exact .of_outline (outline_bind_owner howner changed)
  · exact .bind t scope name stored

theorem KeepsNames.declare {name : String} {value : Value}
    (h : t.declare? scope name value = some u) : KeepsNames scope t u := by
  unfold declare? at h
  split at h
  · cases h
  · cases h
    exact .bind t scope name value

-- ---------------------------------------------------------------------------
-- Frames that begin and end
-- ---------------------------------------------------------------------------

/-- The frame that began last ends. -/
theorem frames_exit {count : Nat} (hpos : count ≠ 0) (h : t.frames.length = count + 1) :
    (t.exit count).frames = t.frames.drop 1 := by
  rw [exit, if_neg (show count ≠ root from hpos), h, Nat.add_sub_cancel_left]

/-- A frame that begins and ends leaves the others with the names that they
had, whatever names it got itself. -/
theorem outline_exit {parent : ScopeId} (hroot : s.frames ≠ [])
    (h : KeepsNames (s.enter parent).1 (s.enter parent).2 t) :
    (t.exit (s.enter parent).1).frames.map Frame.outline = s.frames.map Frame.outline := by
  have hlength : t.frames.length = s.frames.length + 1 := h.length
  have hpos : s.frames.length ≠ 0 := Nat.ne_of_gt (List.length_pos_iff.mpr hroot)
  have hdropped : (t.frames.drop 1).length = s.frames.length := by
    rw [List.length_drop, hlength, Nat.add_sub_cancel]
  show (t.exit s.frames.length).frames.map _ = _
  rw [frames_exit hpos hlength]
  refine map_ext hdropped fun id => ?_
  by_cases hid : (id : Nat) < s.frames.length
  · have hframes := h.frames id (Nat.ne_of_lt hid)
    rw [frameIn?_drop (by rw [← List.length_drop, hdropped]; exact hid)]
    refine hframes.trans ?_
    show (frameIn? (_ :: s.frames) id).map _ = _
    rw [frameIn?_older (Nat.ne_of_lt hid)]
  · rw [frameIn?_eq_none (hdropped ▸ Nat.le_of_not_lt hid),
      frameIn?_eq_none (Nat.le_of_not_lt hid)]

/-- What older frames see does not change when a frame ends. -/
theorem lookup?_exit {count : Nat} (hpos : count ≠ 0) (h : t.frames.length = count + 1)
    {id : Nat} (hid : id < count) (name : String) :
    (t.exit count).lookup? id name = t.lookup? id name := by
  unfold lookup? owner?
  rw [frames_exit hpos h, ownerIn?_drop (by rw [h]; exact hid)]

/-- A frame that begins sees what its parent sees. -/
theorem lookup?_enter (parent : ScopeId) (name : String) :
    (s.enter parent).2.lookup? (s.enter parent).1 name = s.lookup? parent name := by
  show (ownerIn? name (⟨[], some parent⟩ :: s.frames) s.frames.length).map _ = _
  rw [ownerIn?_newest]
  rfl

end ScopeTree

end PromptTemplate
