import PromptTemplate.Proofs.Dict
import PromptTemplate.Value.Property

/-!
# One slot of a value

Changing a value at a path of keys changes one slot of it (`changeAt_ok_iff`):
every object on the way keeps its other fields and the order of all, every
array its other items. `SlotChange` says so without the functions that read
and change values. Property access, which is another function than the one
that finds the slot, sees the old value before and the new one after
(`SlotChange.readAt?_before`, `SlotChange.readAt?_after`).
-/

namespace PromptTemplate

namespace Value

-- ---------------------------------------------------------------------------
-- What property access sees at a path
-- ---------------------------------------------------------------------------

/-- What property access with one key after the other arrives at. -/
def readAt? (path : List Value) (value : Value) : Option Value := path.foldlM property? value

/-- The object property or array element at a path. Unlike `readAt?` this
finds neither the length of anything nor a character of a text. -/
def slotAt? (path : List Value) (value : Value) : Option Value := path.foldlM child? value

@[simp] theorem readAt?_nil (value : Value) : readAt? [] value = some value := rfl

@[simp] theorem readAt?_cons (key : Value) (path : List Value) (value : Value) :
    readAt? (key :: path) value = (value.property? key).bind (readAt? path) := rfl

@[simp] theorem slotAt?_cons (key : Value) (path : List Value) (value : Value) :
    slotAt? (key :: path) value = (value.child? key).bind (slotAt? path) := rfl

theorem not_isLengthKey_of_index? {key : Value} {i : Nat} (h : key.index? = some i) :
    key.isLengthKey = false := by
  cases key with
  | string s =>
    rw [isLengthKey, beq_eq_false_iff_ne]
    intro hs
    rw [hs, index?, show textToIndex? "length" = none by decide +kernel] at h
    cases h
  | _ => rfl

theorem child?_object {key child : Value} {before after : Dict Value}
    (h : key.render ∉ Dict.keys before) :
    (object (before ++ (key.render, child) :: after)).child? key = some child :=
  Dict.get?_of_split h

theorem child?_array {key child : Value} {before after : List Value}
    (h : key.index? = some before.length) :
    (array (before ++ child :: after)).child? key = some child := by
  simp [child?, h]

/-- Only objects and arrays have children. -/
theorem child?_cases {container key child : Value} (h : container.child? key = some child) :
    (∃ before after, key.render ∉ Dict.keys before ∧
      container = object (before ++ (key.render, child) :: after)) ∨
    (∃ before after : List Value, key.index? = some before.length ∧
      container = array (before ++ child :: after)) := by
  cases container with
  | object fields =>
    obtain ⟨before, after, hkey, rfl⟩ := Dict.split_of_get? h
    exact .inl ⟨before, after, hkey, rfl⟩
  | array items =>
    obtain ⟨i, hi, hitem⟩ := Option.bind_eq_some_iff.mp h
    obtain ⟨hlt, rfl⟩ := List.getElem?_eq_some_iff.mp hitem
    refine .inr ⟨items.take i, items.drop (i + 1), ?_, by simp⟩
    rw [List.length_take_of_le (Nat.le_of_lt hlt), hi]
  | _ => cases h

theorem property?_of_index? {key : Value} {i : Nat} (h : key.index? = some i)
    (items : List Value) : (array items).property? key = items[i]? := by
  simp [property?, not_isLengthKey_of_index? h, h]

/-- A slot is read by property access. -/
theorem property?_of_child? {container key child : Value}
    (h : container.child? key = some child) : container.property? key = some child := by
  rcases child?_cases h with ⟨before, after, -, rfl⟩ | ⟨before, after, hkey, rfl⟩
  · exact h
  · simp [property?_of_index? hkey]

theorem readAt?_of_slotAt? {path : List Value} {value found : Value}
    (h : slotAt? path value = some found) : readAt? path value = some found := by
  induction path generalizing value with
  | nil => exact h
  | cons key path ih =>
    obtain ⟨child, hchild, hrest⟩ := Option.bind_eq_some_iff.mp h
    rw [readAt?_cons, property?_of_child? hchild]
    exact ih hrest

-- ---------------------------------------------------------------------------
-- The change of one slot
-- ---------------------------------------------------------------------------

/-- `after` is `before` with `new` in the slot that `path` leads to, where
`old` was before. A slot that did not exist comes at the end of its object or
array; nothing else of any container on the path differs. -/
inductive SlotChange (old : Option Value) (new : Value) : List Value → Value → Value → Prop where
  | here {value : Value} (hold : old = some value) : SlotChange old new [] value new
  | property {path : List Value} {key child changed : Value} {before after : Dict Value}
      (hkey : key.render ∉ Dict.keys before) (hchild : SlotChange old new path child changed) :
      SlotChange old new (key :: path) (object (before ++ (key.render, child) :: after))
        (object (before ++ (key.render, changed) :: after))
  | addProperty {key : Value} {fields : Dict Value} (hold : old = none)
      (hkey : key.render ∉ Dict.keys fields) :
      SlotChange old new [key] (object fields) (object (fields ++ [(key.render, new)]))
  | element {path : List Value} {key child changed : Value} {before after : List Value}
      (hkey : key.index? = some before.length) (hchild : SlotChange old new path child changed) :
      SlotChange old new (key :: path) (array (before ++ child :: after))
        (array (before ++ changed :: after))
  | append {key : Value} {items : List Value} (hold : old = none)
      (hkey : key.index? = some items.length) :
      SlotChange old new [key] (array items) (array (items ++ [new]))

variable {old : Option Value} {new value changed result : Value} {path : List Value}
  {change : Change}

theorem SlotChange.readAt?_before (h : SlotChange old new path value changed) :
    value.readAt? path = old := by
  induction h with
  | here hold => rw [hold, readAt?_nil]
  | property hkey _ ih => simpa [property?, Dict.get?_of_split hkey] using ih
  | addProperty hold hkey => simp [property?, Dict.notMem_keys_iff.mp hkey, hold]
  | element hkey _ ih => simpa [property?_of_index? hkey] using ih
  | append hold hkey => simp [property?_of_index? hkey, hold]

theorem SlotChange.readAt?_after (h : SlotChange old new path value changed) :
    changed.readAt? path = some new := by
  induction h with
  | here => rfl
  | property hkey _ ih => simpa [property?, Dict.get?_of_split hkey] using ih
  | addProperty _ hkey => simp [property?, Dict.get?_of_split hkey]
  | element hkey _ ih => simpa [property?_of_index? hkey] using ih
  | append _ hkey => simp [property?_of_index? hkey]

/-- A slot that gets the value that it has changes nothing. -/
theorem SlotChange.eq_of_same (h : SlotChange (some new) new path value changed) :
    changed = value := by
  induction h with
  | here hold => exact Option.some.inj hold
  | property _ _ ih => rw [ih]
  | element _ _ ih => rw [ih]
  | addProperty hold => cases hold
  | append hold => cases hold

/-- Every slot that exists can be given another value. -/
theorem exists_slotChange {found : Value} (h : slotAt? path value = some found) (new : Value) :
    ∃ changed, SlotChange (some found) new path value changed := by
  induction path generalizing value with
  | nil => exact ⟨new, .here (Eq.symm h)⟩
  | cons key path ih =>
    obtain ⟨child, hchild, hrest⟩ := Option.bind_eq_some_iff.mp h
    obtain ⟨changed, hchanged⟩ := ih hrest
    rcases child?_cases hchild with ⟨before, after, hkey, rfl⟩ | ⟨before, after, hkey, rfl⟩
    · exact ⟨_, .property hkey hchanged⟩
    · exact ⟨_, .element hkey hchanged⟩

-- ---------------------------------------------------------------------------
-- Changing a value at a path
-- ---------------------------------------------------------------------------

/-- A change goes on in the child that a key leads to, also for the last key. -/
theorem changeAt_cons_of_child {key child : Value} (h : value.child? key = some child) :
    changeAt change (key :: path) value =
      (changeAt change path child).map fun (changed, result) =>
        (setChild value key changed, result) := by
  cases path with
  | cons =>
    rw [changeAt]
    · simp only [h]
      cases changeAt change _ child <;> rfl
    · simp
  | nil =>
    rw [changeAt, changeAt]
    rcases child?_cases h with ⟨before, after, hkey, rfl⟩ | ⟨before, after, hkey, rfl⟩
    · rw [changeSlot, Dict.get?_of_split hkey]
      cases change (some child) <;> rfl
    · simp only [changeSlot, hkey, setChild, List.length_append, List.length_cons,
        Nat.le_add_right, Nat.lt_add_of_pos_right (Nat.succ_pos _), if_true,
        List.getElem?_append_right (Nat.le_refl _), Nat.sub_self, List.getElem?_cons_zero]
      cases change (some child) <;> rfl

theorem SlotChange.changeAt (h : SlotChange old new path value changed)
    (hchange : change old = .ok (new, result)) :
    Value.changeAt change path value = .ok (changed, result) := by
  induction h with
  | here hold => rw [Value.changeAt, ← hold, hchange]
  | property hkey _ ih =>
    rw [changeAt_cons_of_child (child?_object hkey), ih]
    simp [Except.map, setChild, Dict.put_of_split hkey]
  | addProperty hold hkey =>
    simp [Value.changeAt, changeSlot, Dict.notMem_keys_iff.mp hkey, ← hold, hchange,
      Dict.put_of_notMem hkey, Bind.bind, Except.bind, Pure.pure, Except.pure]
  | element hkey _ ih =>
    rw [changeAt_cons_of_child (child?_array hkey), ih]
    simp [Except.map, setChild, hkey]
  | append hold hkey =>
    simp [Value.changeAt, changeSlot, hkey, ← hold, hchange, Bind.bind, Except.bind, Pure.pure,
      Except.pure]

/-- A change where no child is succeeds only for a new property or for an item
right behind the others. -/
theorem slotChange_of_no_child {key : Value} (hchild : value.child? key = none)
    (h : changeAt change (key :: path) value = .ok (changed, result)) :
    ∃ new, change none = .ok (new, result) ∧ SlotChange none new (key :: path) value changed := by
  cases path with
  | cons =>
    rw [changeAt, hchild] at h
    · cases h
    · simp
  | nil =>
    rw [changeAt] at h
    cases value with
    | object fields =>
      rw [changeSlot, show Dict.get? fields key.render = none from hchild] at h
      cases hchange : change none with
      | error cause => simp [hchange, Bind.bind, Except.bind] at h
      | ok outcome =>
        obtain ⟨new, given⟩ := outcome
        have hkey := Dict.notMem_keys_iff.mpr hchild
        simp only [hchange, Bind.bind, Except.bind, Dict.put_of_notMem hkey] at h
        cases h
        exact ⟨new, rfl, .addProperty rfl hkey⟩
    | array items =>
      cases hi : key.index? with
      | none => simp [changeSlot, hi] at h
      | some i =>
        have hge : items.length ≤ i := by simpa [child?, hi] using hchild
        simp only [changeSlot, hi] at h
        split at h
        case isFalse => cases h
        case isTrue hle =>
          obtain rfl : i = items.length := Nat.le_antisymm hle hge
          rw [List.getElem?_eq_none (Nat.le_refl _)] at h
          cases hchange : change none with
          | error cause => simp [hchange, Bind.bind, Except.bind] at h
          | ok outcome =>
            obtain ⟨new, given⟩ := outcome
            simp only [hchange, Bind.bind, Except.bind, Nat.lt_irrefl, if_false] at h
            cases h
            exact ⟨new, rfl, .append rfl hi⟩
    | _ => cases h

/-- A change at a path that succeeds changes one slot, and it succeeds whenever
there is such a slot and the change of its value succeeds. -/
theorem changeAt_ok_iff :
    changeAt change path value = .ok (changed, result) ↔
      ∃ old new, change old = .ok (new, result) ∧ SlotChange old new path value changed := by
  refine ⟨fun h => ?_, fun ⟨old, new, hchange, hslot⟩ => hslot.changeAt hchange⟩
  induction path generalizing value changed with
  | nil => exact ⟨some value, changed, h, .here rfl⟩
  | cons key path ih =>
    cases hchild : value.child? key with
    | none =>
      obtain ⟨new, hchange, hslot⟩ := slotChange_of_no_child hchild h
      exact ⟨none, new, hchange, hslot⟩
    | some child =>
      rw [changeAt_cons_of_child hchild] at h
      cases hbelow : changeAt change path child with
      | error cause => rw [hbelow] at h; cases h
      | ok outcome =>
        rw [hbelow] at h
        cases h
        obtain ⟨old, new, hchange, hslot⟩ := ih hbelow
        refine ⟨old, new, hchange, ?_⟩
        rcases child?_cases hchild with ⟨before, after, hkey, rfl⟩ | ⟨before, after, hkey, rfl⟩
        · simpa [setChild, Dict.put_of_split hkey] using SlotChange.property hkey hslot
        · simpa [setChild, hkey] using SlotChange.element hkey hslot

end Value

end PromptTemplate
