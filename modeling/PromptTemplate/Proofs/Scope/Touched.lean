import PromptTemplate.Proofs.Scope.Write

/-!
# What writes touch

The bindings of a tree, each by its frame and its name. Writes to certain
variables from one frame touch no others: what they change is bound where the
frame sees it, and what they add is added to the frame itself (`Touched`).
-/

namespace PromptTemplate.ScopeTree

/-- What a frame itself binds a name to. -/
def binding? (t : ScopeTree) (id : ScopeId) (name : String) : Option Value :=
  (t.frame? id).bind fun frame => Dict.get? frame.bindings name

variable {t u v : ScopeTree} {scope id : ScopeId} {name : String}

theorem owner?_of_binding {value : Value} (h : t.binding? id name = some value) :
    t.owner? id name = some (id, value) := by
  obtain ⟨frame, hframe, hget⟩ := Option.bind_eq_some_iff.mp h
  obtain ⟨newer, older, hframes, rfl⟩ := frames_split hframe
  exact owner?_of_frame hframes hget

theorem binding?_of_owner {owner : ScopeId} {value : Value}
    (h : t.owner? scope name = some (owner, value)) : t.binding? owner name = some value := by
  obtain ⟨-, frame, hframe, hget⟩ := ownerIn?_spec h
  exact Option.bind_eq_some_iff.mpr ⟨frame, hframe, hget⟩

theorem lookup?_eq_none : t.lookup? scope name = none ↔ t.owner? scope name = none :=
  Option.map_eq_none_iff

/-- Binding a name in a frame that there is gives it its value there, and changes nothing else. -/
theorem binding?_bind (t : ScopeTree) (scope : ScopeId) (name : String) (value : Value)
    (id : ScopeId) (other : String) :
    (t.bind scope name value).binding? id other =
      if id = scope ∧ other = name then (t.frame? id).map fun _ => value
      else t.binding? id other := by
  have hframe : (t.bind scope name value).frame? id = _ := frameIn?_changeIn _ t.frames scope id
  rw [binding?, hframe]
  show _ = if id = scope ∧ other = name then (frameIn? t.frames id).map _
    else (frameIn? t.frames id).bind _
  cases frameIn? t.frames id with
  | none => simp
  | some frame =>
    by_cases hid : id = scope
    · by_cases hname : other = name
      · simp [hid, hname, Dict.get?_put]
      · simp [hid, hname, Dict.get?_put, Ne.symm hname]
    · simp [hid]

theorem parents_bind (t : ScopeTree) (scope : ScopeId) (name : String) (value : Value) :
    (t.bind scope name value).frames.map Frame.parent = t.frames.map Frame.parent := by
  refine map_ext (length_frames_bind ..) fun id => ?_
  show (frameIn? (changeIn _ _ _) id).map _ = _
  rw [frameIn?_changeIn, Option.map_map]
  congr 1
  funext frame
  simp only [Function.comp]
  split <;> rfl

/-- Where a name stands for something depends on the parents and on the frames that bind it. -/
theorem owner?_of_bound (hparents : u.frames.map Frame.parent = t.frames.map Frame.parent)
    (hbound : ∀ id, (u.binding? id name).isSome = (t.binding? id name).isSome) (scope : ScopeId) :
    (u.owner? scope name).map Prod.fst = (t.owner? scope name).map Prod.fst := by
  refine owner_of_holds (map_ext (length_of_map hparents) fun id => ?_) scope
  have hparent := frameIn?_of_map hparents id
  have hid := hbound id
  unfold binding? frame? at hid
  cases hu : frameIn? u.frames id with
  | none =>
    cases ht : frameIn? t.frames id with
    | none => rfl
    | some => simp [hu, ht] at hparent
  | some =>
    cases ht : frameIn? t.frames id with
    | none => simp [hu, ht] at hparent
    | some =>
      rw [hu, ht, Option.map_some, Option.map_some, Option.some.injEq] at hparent
      rw [hu, ht] at hid
      exact congrArg some (Prod.ext hparent hid)

/-- The frames are as many as before and have the parents that they had, and no
binding is lost. A variable of another value is one of the `assigned`, bound in
the frame where `scope` saw it. A new one is one of the `declared`, bound in
`scope` itself, which did not see it before. -/
structure Touched (scope : ScopeId) (assigned declared : List String)
    (before after : ScopeTree) : Prop where
  parents : after.frames.map Frame.parent = before.frames.map Frame.parent
  bound : ∀ id name, (before.binding? id name).isSome → (after.binding? id name).isSome
  changed : ∀ id name value, before.binding? id name = some value →
    after.binding? id name ≠ some value →
    name ∈ assigned ∧ (before.owner? scope name).map Prod.fst = some id
  added : ∀ id name, before.binding? id name = none → (after.binding? id name).isSome →
    name ∈ declared ∧ id = scope ∧ before.lookup? scope name = none

namespace Touched

variable {assigned declared : List String}

theorem refl (scope : ScopeId) (assigned declared : List String) (t : ScopeTree) :
    Touched scope assigned declared t t where
  parents := rfl
  bound _ _ h := h
  changed _ _ _ h hne := absurd h hne
  added _ _ h hsome := by simp [h] at hsome

/-- A name that `scope` sees or does not get stands where it stood. -/
theorem owner_eq (h : Touched scope assigned declared t u)
    (hold : t.lookup? scope name ≠ none ∨ u.binding? scope name = none) (other : ScopeId) :
    (u.owner? other name).map Prod.fst = (t.owner? other name).map Prod.fst := by
  refine owner?_of_bound h.parents (fun id => ?_) other
  cases ht : t.binding? id name with
  | some value => exact h.bound id name (by rw [ht]; rfl)
  | none =>
    cases hu : u.binding? id name with
    | none => rfl
    | some value =>
      obtain ⟨-, rfl, hnone⟩ := h.added id name ht (by rw [hu]; rfl)
      rcases hold with hvisible | hunbound
      · exact absurd hnone hvisible
      · rw [hu] at hunbound
        cases hunbound

theorem visible (h : Touched scope assigned declared t u)
    (hvisible : t.lookup? scope name ≠ none) : u.owner? scope name ≠ none := by
  intro hnone
  have howner := h.owner_eq (.inl hvisible) scope
  rw [hnone, Option.map_none, eq_comm, Option.map_eq_none_iff] at howner
  exact hvisible (lookup?_eq_none.mpr howner)

/-- A name that is not assigned stands for what it stood for. -/
theorem lookup?_eq (h : Touched scope assigned declared t u) (hname : name ∉ assigned)
    {value : Value} (hvalue : t.lookup? scope name = some value) :
    u.lookup? scope name = some value := by
  have hvisible : t.lookup? scope name ≠ none := by
    rw [hvalue]
    exact Option.some_ne_none _
  obtain ⟨⟨_, old⟩, hold, rfl⟩ := Option.map_eq_some_iff.mp hvalue
  have howner := h.owner_eq (.inl hvisible) scope
  rw [hold, Option.map_some] at howner
  obtain ⟨⟨owner, new⟩, hnew, rfl⟩ := Option.map_eq_some_iff.mp howner
  by_cases hkept : u.binding? owner name = t.binding? owner name
  · rw [binding?_of_owner hnew, binding?_of_owner hold] at hkept
    rw [lookup?, hnew]
    exact hkept
  · rw [binding?_of_owner hold] at hkept
    exact absurd (h.changed owner name _ (binding?_of_owner hold) hkept).1 hname

/-- A binding that was there before is seen where it was seen before. -/
theorem owner_of_bound (h : Touched scope assigned declared t u)
    (hbound : (t.binding? id name).isSome)
    (howner : (u.owner? scope name).map Prod.fst = some id) :
    (t.owner? scope name).map Prod.fst = some id := by
  by_cases hvisible : t.lookup? scope name = none
  · cases hnew : u.binding? scope name with
    | none => exact (h.owner_eq (.inr hnew) scope).symm.trans howner
    | some value =>
      rw [owner?_of_binding hnew] at howner
      cases howner
      obtain ⟨old, hold⟩ := Option.isSome_iff_exists.mp hbound
      rw [lookup?_eq_none, owner?_of_binding hold] at hvisible
      cases hvisible
  · exact (h.owner_eq (.inl hvisible) scope).symm.trans howner

theorem trans (h : Touched scope assigned declared t u)
    (h' : Touched scope assigned declared u v) : Touched scope assigned declared t v where
  parents := h'.parents.trans h.parents
  bound id name hid := h'.bound id name (h.bound id name hid)
  changed id name value hvalue hne := by
    by_cases hkept : u.binding? id name = some value
    · obtain ⟨hassigned, howner⟩ := h'.changed id name value hkept hne
      exact ⟨hassigned, h.owner_of_bound (by rw [hvalue]; rfl) howner⟩
    · exact h.changed id name value hvalue hkept
  added id name hnone hsome := by
    cases hu : u.binding? id name with
    | none =>
      obtain ⟨hdeclared, hid, hunseen⟩ := h'.added id name hu hsome
      refine ⟨hdeclared, hid, Decidable.of_not_not fun hvisible => ?_⟩
      exact h.visible hvisible (lookup?_eq_none.mp hunseen)
    | some value => exact h.added id name hnone (by rw [hu]; rfl)

/-- A name may get another value where `scope` sees it, or a value in `scope` if it is not seen. -/
theorem bind {owner : ScopeId} (value : Value)
    (hold : (t.binding? owner name).isSome →
      name ∈ assigned ∧ (t.owner? scope name).map Prod.fst = some owner)
    (hnew : t.binding? owner name = none →
      name ∈ declared ∧ owner = scope ∧ t.lookup? scope name = none) :
    Touched scope assigned declared t (t.bind owner name value) where
  parents := parents_bind ..
  bound id other hsome := by
    rw [binding?_bind]
    split
    · obtain ⟨old, hbinding⟩ := Option.isSome_iff_exists.mp hsome
      obtain ⟨frame, hframe, -⟩ := Option.bind_eq_some_iff.mp hbinding
      rw [hframe]
      rfl
    · exact hsome
  changed id other old hbinding hne := by
    rw [binding?_bind] at hne
    split at hne
    next hplace =>
      obtain ⟨rfl, rfl⟩ := hplace
      exact hold (by rw [hbinding]; rfl)
    next => exact absurd hbinding hne
  added id other hnone hsome := by
    rw [binding?_bind] at hsome
    split at hsome
    next hplace =>
      obtain ⟨rfl, rfl⟩ := hplace
      exact hnew hnone
    next =>
      rw [hnone] at hsome
      cases hsome

/-- A write touches the variable that it is made to. -/
theorem write {path : List Value} {declares : Bool} {change : Value.Change} {result : Value}
    (h : t.write scope name path declares change = .ok (result, u)) (hassigned : name ∈ assigned)
    (hdeclared : declares = true → path = [] → name ∈ declared) :
    Touched scope assigned declared t u := by
  rcases write_cases h with ⟨owner, old, changed, howner, -, rfl⟩ | ⟨stored, hd, hp, hnone, -, rfl⟩
  · refine .bind changed (fun _ => ⟨hassigned, by rw [howner]; rfl⟩) fun hnone => ?_
    rw [binding?_of_owner howner] at hnone
    cases hnone
  · refine .bind stored (fun hsome => ?_) fun _ =>
      ⟨hdeclared hd hp, rfl, lookup?_eq_none.mpr hnone⟩
    obtain ⟨old, hold⟩ := Option.isSome_iff_exists.mp hsome
    rw [owner?_of_binding hold] at hnone
    cases hnone

end Touched

end PromptTemplate.ScopeTree
