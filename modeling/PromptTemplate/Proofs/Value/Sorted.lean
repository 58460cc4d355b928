import PromptTemplate.Proofs.Number.Binary
import PromptTemplate.Proofs.Value.Equality

/-!
# The JSON views of a value

A value goes to JSON in two ways: as text, with the fields in the order of the
object, and as a JSON value, with the fields by their keys. The two agree once
the keys are sorted, and what comes back from the JSON value is the value with
null for what has no JSON form (`json_views_agree`).

The JSON value does not depend on the order of fields, so that of a value is
that of the value with its keys sorted; and there the two ways go in step.
-/

namespace PromptTemplate.Value

-- ---------------------------------------------------------------------------
-- Values built anew
-- ---------------------------------------------------------------------------

section
variable (leaf : Value → Value) (arrange : List (String × Value) → List (String × Value))

mutual

/-- The value built anew from the inside, with `leaf` where no other values are inside and the
fields of objects as `arrange` has them. -/
def rebuild : Value → Value
  | array items => array (rebuildItems items)
  | object fields => object (arrange (rebuildFields fields))
  | value => leaf value

def rebuildItems : List Value → List Value
  | [] => []
  | item :: rest => rebuild item :: rebuildItems rest

def rebuildFields : List (String × Value) → List (String × Value)
  | [] => []
  | (key, value) :: rest => (key, rebuild value) :: rebuildFields rest

end

@[simp] theorem rebuild_array (items : List Value) :
    rebuild leaf arrange (array items) = array (items.map (rebuild leaf arrange)) := by
  rw [rebuild]
  congr 1
  induction items with
  | nil => rfl
  | cons item rest ih => rw [rebuildItems, ih, List.map_cons]

@[simp] theorem rebuild_object (fields : List (String × Value)) :
    rebuild leaf arrange (object fields) =
      object (arrange (fields.map fun field => (field.1, rebuild leaf arrange field.2))) := by
  rw [rebuild]
  congr 2
  induction fields with
  | nil => rfl
  | cons field rest ih => rw [rebuildFields, ih, List.map_cons]

end

/-- The value with the fields of every object inside in the order of their keys. -/
def sortKeys (value : Value) : Value :=
  value.rebuild id fun fields => fields.mergeSort fun x y => x.1 ≤ y.1

/-- The value with null for everything inside that has no JSON form. -/
def nullified (value : Value) : Value :=
  value.rebuild (fun
    | number x => if x.isFinite then number x else null
    | function _ => null
    | leaf => leaf) id

-- ---------------------------------------------------------------------------
-- Sorted keys
-- ---------------------------------------------------------------------------

/-- The keys of every object inside the value ascend. -/
def KeysAscending (value : Value) : Prop :=
  ∀ part ∈ value.parts, ∀ fields, part = object fields → (Dict.keys fields).Pairwise (· < ·)

@[simp] theorem keysAscending_array {items : List Value} :
    (array items).KeysAscending ↔ ∀ item ∈ items, item.KeysAscending := by
  simp [KeysAscending, forall_parts_array]

@[simp] theorem keysAscending_object {fields : List (String × Value)} :
    (object fields).KeysAscending ↔
      (Dict.keys fields).Pairwise (· < ·) ∧ ∀ field ∈ fields, field.2.KeysAscending := by
  simp [KeysAscending, forall_parts_object]

theorem keys_mergeSort_ascending {fields : List (String × Value)} (h : (Dict.keys fields).Nodup) :
    (Dict.keys (fields.mergeSort fun x y => x.1 ≤ y.1)).Pairwise (· < ·) := by
  have hsorted : (fields.mergeSort fun x y => x.1 ≤ y.1).Pairwise
      fun x y => decide (x.1 ≤ y.1) = true :=
    List.pairwise_mergeSort
      (fun x y z hxy hyz => by
        simpa using String.le_trans (by simpa using hxy) (by simpa using hyz))
      (fun x y => by simpa using String.le_total x.1 y.1) fields
  have hdistinct := Dict.nodup_keys_perm
    (List.mergeSort_perm fields fun x y => decide (x.1 ≤ y.1)).symm h
  rw [Dict.keys, List.Nodup, List.pairwise_map] at hdistinct
  rw [Dict.keys, List.pairwise_map]
  exact hsorted.imp₂ (fun x y hle hne => Std.lt_of_le_of_ne (by simpa using hle) hne) hdistinct

theorem sortKeys_ascending {v : Value} (h : v.KeysDistinct) : v.sortKeys.KeysAscending := by
  induction v using induct with
  | array items ih =>
    rw [keysDistinct_array] at h
    rw [sortKeys, rebuild_array, keysAscending_array, List.forall_mem_map]
    exact fun item hitem => ih item hitem (h item hitem)
  | object fields ih =>
    rw [keysDistinct_object] at h
    rw [sortKeys, rebuild_object, keysAscending_object]
    refine ⟨keys_mergeSort_ascending (by simpa using h.1), ?_⟩
    simp only [List.mem_mergeSort, List.forall_mem_map]
    exact fun field hfield => ih field hfield (h.2 field hfield)
  | _ => simp [sortKeys, rebuild, KeysAscending, parts]

theorem reordered_items {f : Value → Value} (before : List Value) {items : List Value}
    (h : ∀ item ∈ items, Reordered item (f item)) :
    Reordered (array (before ++ items)) (array (before ++ items.map f)) := by
  induction items generalizing before with
  | nil => exact .refl _
  | cons item rest ih =>
    obtain ⟨hitem, hrest⟩ := List.forall_mem_cons.mp h
    refine (Reordered.item before rest hitem).trans ?_
    simpa using ih (before ++ [f item]) hrest

theorem reordered_fields {f : Value → Value} (before : List (String × Value))
    {fields : List (String × Value)} (h : ∀ field ∈ fields, Reordered field.2 (f field.2)) :
    Reordered (object (before ++ fields))
      (object (before ++ fields.map fun field => (field.1, f field.2))) := by
  induction fields generalizing before with
  | nil => exact .refl _
  | cons field rest ih =>
    obtain ⟨hfield, hrest⟩ := List.forall_mem_cons.mp h
    refine (Reordered.field before field.1 rest hfield).trans ?_
    simpa using ih (before ++ [(field.1, f field.2)]) hrest

theorem reordered_sortKeys (v : Value) : Reordered v v.sortKeys := by
  induction v using induct with
  | array items ih =>
    rw [sortKeys, rebuild_array]
    exact reordered_items [] ih
  | object fields ih =>
    rw [sortKeys, rebuild_object]
    exact (reordered_fields [] ih).trans (.fields (List.mergeSort_perm _ _).symm)
  | _ => exact .refl _

-- ---------------------------------------------------------------------------
-- The fields of the JSON value
-- ---------------------------------------------------------------------------

theorem itemsToJson_eq (items : List Value) : itemsToJson items = items.map toJson := by
  induction items with
  | nil => rfl
  | cons item rest ih => rw [itemsToJson, ih, List.map_cons]

/-- In any order distinct fields are the same JSON value. -/
theorem fieldsToJson_perm {xs ys : List (String × Value)} (h : xs.Perm ys)
    (hdistinct : (Dict.keys xs).Nodup) : fieldsToJson xs = fieldsToJson ys := by
  induction h with
  | nil => rfl
  | cons field _ ih => rw [fieldsToJson, fieldsToJson, ih (List.nodup_cons.mp hdistinct).2]
  | swap field other rest =>
    have hne : other.1 ≠ field.1 := by
      have := (List.nodup_cons.mp hdistinct).1
      simp only [List.map_cons, List.mem_cons] at this
      tauto
    rw [fieldsToJson, fieldsToJson, fieldsToJson, fieldsToJson, Json.putSorted_comm hne]
  | trans hperm _ ih ih' => exact (ih hdistinct).trans (ih' (Dict.nodup_keys_perm hperm hdistinct))

theorem fieldsToJson_congr {x y : Value} (h : x.toJson = y.toJson)
    (before : List (String × Value)) (key : String) (after : List (String × Value)) :
    fieldsToJson (before ++ (key, x) :: after) = fieldsToJson (before ++ (key, y) :: after) := by
  induction before with
  | nil => simp [fieldsToJson, h]
  | cons first rest ih => simp [fieldsToJson, ih]

theorem Reordered.toJson_eq {a b : Value} (h : Reordered a b) (ha : a.KeysDistinct) :
    a.toJson = b.toJson := by
  induction h with
  | refl => rfl
  | trans hab _ ih ih' => exact (ih ha).trans (ih' (hab.keysDistinct ha))
  | fields hperm =>
    rw [toJson, toJson, fieldsToJson_perm hperm (keysDistinct_object.mp ha).1]
  | item before after _ ih =>
    simp only [keysDistinct_array, List.forall_mem_append, List.forall_mem_cons] at ha
    simp [toJson, itemsToJson_eq, ih ha.2.1]
  | field before key after _ ih =>
    simp only [keysDistinct_object, List.forall_mem_append, List.forall_mem_cons] at ha
    rw [toJson, toJson, fieldsToJson_congr (ih ha.2.2.1)]

theorem putSorted_of_lt {key : String} {fields : List (String × Json)}
    (h : ∀ other ∈ Dict.keys fields, key < other) (value : Json) :
    Json.putSorted key value fields = (key, value) :: fields := by
  cases fields with
  | nil => rfl
  | cons field rest => rw [Json.putSorted, if_pos (h field.1 List.mem_cons_self)]

/-- Ascending fields stay where they are. -/
theorem fieldsToJson_of_ascending {fields : List (String × Value)}
    (h : (Dict.keys fields).Pairwise (· < ·)) :
    fieldsToJson fields = fields.map fun field => (field.1, field.2.toJson) := by
  induction fields with
  | nil => rfl
  | cons field rest ih =>
    obtain ⟨hfirst, hrest⟩ := List.pairwise_cons.mp h
    rw [fieldsToJson, ih hrest, putSorted_of_lt (by simpa [Dict.keys] using hfirst), List.map_cons]

-- ---------------------------------------------------------------------------
-- Texts
-- ---------------------------------------------------------------------------

theorem serializeItems_eq (items : List Value) : serializeItems items = items.map serialize := by
  induction items with
  | nil => rfl
  | cons item rest ih => rw [serializeItems, ih, List.map_cons]

theorem serializeFields_eq (fields : List (String × Value)) :
    serializeFields fields = fields.map fun field => Json.fieldText field.1 field.2.serialize := by
  induction fields with
  | nil => rfl
  | cons field rest ih => rw [serializeFields, ih, List.map_cons]

theorem itemTexts_eq (items : List Json) : Json.itemTexts items = items.map Json.text := by
  induction items with
  | nil => rfl
  | cons item rest ih => rw [Json.itemTexts, ih, List.map_cons]

theorem fieldTexts_eq (fields : List (String × Json)) :
    Json.fieldTexts fields = fields.map fun field => Json.fieldText field.1 field.2.text := by
  induction fields with
  | nil => rfl
  | cons field rest ih => rw [Json.fieldTexts, ih, List.map_cons]

/-- With ascending keys the text of a value is the one of its JSON value. -/
theorem serialize_of_ascending {v : Value} (h : v.KeysAscending) : v.serialize = v.toJson.text := by
  induction v using induct with
  | array items ih =>
    rw [keysAscending_array] at h
    rw [serialize, toJson, Json.text, serializeItems_eq, itemsToJson_eq, itemTexts_eq, List.map_map]
    exact congrArg Json.arrayText
      (List.map_congr_left fun item hitem => ih item hitem (h item hitem))
  | object fields ih =>
    rw [keysAscending_object] at h
    rw [serialize, toJson, Json.text, serializeFields_eq, fieldsToJson_of_ascending h.1,
      fieldTexts_eq, List.map_map]
    exact congrArg Json.objectText (List.map_congr_left fun field hfield =>
      congrArg (Json.fieldText field.1) (ih field hfield (h.2 field hfield)))
  | bool b => cases b <;> rfl
  | _ => rfl

-- ---------------------------------------------------------------------------
-- There and back
-- ---------------------------------------------------------------------------

theorem itemsOfJson_eq (items : List Json) : itemsOfJson items = items.map ofJson := by
  induction items with
  | nil => rfl
  | cons item rest ih => rw [itemsOfJson, ih, List.map_cons]

theorem fieldsOfJson_eq (fields : List (String × Json)) :
    fieldsOfJson fields = fields.map fun field => (field.1, ofJson field.2) := by
  induction fields with
  | nil => rfl
  | cons field rest ih => rw [fieldsOfJson, ih, List.map_cons]

theorem putSorted_perm {key : String} {fields : List (String × Json)}
    (h : key ∉ Dict.keys fields) (value : Json) :
    (Json.putSorted key value fields).Perm ((key, value) :: fields) := by
  induction fields with
  | nil => exact .refl _
  | cons field rest ih =>
    obtain ⟨hne, hrest⟩ := List.ne_and_not_mem_of_not_mem_cons h
    rw [Json.putSorted]
    split
    · exact .refl _
    · exact ((ih hrest).cons _).trans (.swap ..)

theorem fieldsToJson_perm_map {fields : List (String × Value)} (h : (Dict.keys fields).Nodup) :
    (fieldsToJson fields).Perm (fields.map fun field => (field.1, field.2.toJson)) := by
  induction fields with
  | nil => exact .refl _
  | cons field rest ih =>
    obtain ⟨hkey, hrest⟩ := List.nodup_cons.mp h
    have hperm := ih hrest
    have hkey' : field.1 ∉ Dict.keys (fieldsToJson rest) := fun hmem => by
      have := (hperm.map Prod.fst).mem_iff.mp hmem
      exact hkey (by simpa [Dict.keys] using this)
    exact (putSorted_perm hkey' _).trans (hperm.cons _)

theorem number_there_and_back (x : Float) :
    (ofJson (numberToJson x)).strictEq (nullified (number x)) := by
  have hfinite := Number.isFinite_eq_isSome x
  cases hb : Number.binary? x with
  | none =>
    rw [hb, Option.isSome_none] at hfinite
    simp [numberToJson, hb, ofJson, nullified, rebuild, hfinite, strictEq]
  | some b =>
    rw [hb, Option.isSome_some] at hfinite
    have hself : (x == x) = true := Number.beq_self_iff.mpr (Number.isNaN_of_binary? hb)
    simp only [numberToJson, hb, nullified, rebuild, hfinite, if_true]
    cases hn : b.toInt? with
    | none => exact hself
    | some n =>
      dsimp only
      split
      · exact Number.ofInt_of_integer? (Option.bind_eq_some_iff.mpr ⟨b, hb, hn⟩) ‹_›
      · exact hself

theorem strictEq_array_map {f g : Value → Value} {items : List Value}
    (h : ∀ item ∈ items, (f item).strictEq (g item)) :
    (array (items.map f)).strictEq (array (items.map g)) := by
  refine strictEq_array.mpr ⟨by simp, fun i x y hx hy => ?_⟩
  rw [List.getElem?_map, Option.map_eq_some_iff] at hx hy
  obtain ⟨item, hitem, rfl⟩ := hx
  obtain ⟨other, hother, rfl⟩ := hy
  cases hitem.symm.trans hother
  exact h item (List.mem_of_getElem? hitem)

theorem strictEq_object_map {f g : Value → Value} {fields : List (String × Value)}
    (hkeys : (Dict.keys fields).Nodup) (h : ∀ field ∈ fields, (f field.2).strictEq (g field.2)) :
    (object (fields.map fun field => (field.1, f field.2))).strictEq
      (object (fields.map fun field => (field.1, g field.2))) := by
  refine strictEq_object.mpr ⟨by simp, ?_⟩
  rw [List.forall_mem_map]
  refine fun field hfield => ⟨g field.2, Dict.get?_of_mem ?_ (List.mem_map_of_mem hfield),
    h field hfield⟩
  rwa [Dict.keys_map]

theorem there_and_back {v : Value} (h : v.KeysDistinct) :
    (ofJson v.toJson).strictEq v.nullified := by
  induction v using induct with
  | number x => exact number_there_and_back x
  | array items ih =>
    rw [keysDistinct_array] at h
    rw [toJson, itemsToJson_eq, ofJson, itemsOfJson_eq, List.map_map, nullified, rebuild_array]
    exact strictEq_array_map fun item hitem => ih item hitem (h item hitem)
  | object fields ih =>
    rw [keysDistinct_object] at h
    have hback : (fieldsOfJson (fieldsToJson fields)).Perm
        (fields.map fun field => (field.1, ofJson field.2.toJson)) := by
      have hperm := (fieldsToJson_perm_map h.1).map fun field => (field.1, ofJson field.2)
      rwa [List.map_map, ← fieldsOfJson_eq] at hperm
    rw [toJson, ofJson, nullified, rebuild_object, (Reordered.fields hback).strictEq_left]
    exact strictEq_object_map (f := fun value => ofJson value.toJson) (g := nullified) h.1
      fun field hfield => ih field hfield (h.2 field hfield)
  | _ => simp [toJson, ofJson, nullified, rebuild, strictEq]

/-- The text of a value with its keys sorted is the text of its JSON value, and what comes back
from the JSON value is the value with null for what has no JSON form: functions and numbers that
are not finite. Sorting reorders fields and does nothing else. -/
theorem json_views_agree {v : Value} (h : v.KeysDistinct) :
    Reordered v v.sortKeys ∧ v.sortKeys.KeysAscending ∧ v.sortKeys.serialize = v.toJson.text ∧
      (ofJson v.toJson).strictEq v.nullified := by
  have hreordered := reordered_sortKeys v
  have hascending := sortKeys_ascending h
  refine ⟨hreordered, hascending, ?_, there_and_back h⟩
  rw [serialize_of_ascending hascending, hreordered.toJson_eq h]

/-- An object with a function and a number that is not finite, and its keys not in order. -/
theorem json_views_agree_nullified :
    let v : Value := object [("b", array [function ⟨0⟩, number 1]), ("a", number Number.notANumber)]
    v.KeysDistinct ∧ v.toJson.text = v.sortKeys.serialize ∧
      (ofJson v.toJson).strictEq (object [("b", array [null, number 1]), ("a", null)]) := by
  intro v
  have hkeys : v.KeysDistinct := by
    simp [v, KeysDistinct, parts, itemsParts, fieldsParts, Dict.keys]
  obtain ⟨-, -, htext, hback⟩ := json_views_agree hkeys
  exact ⟨hkeys, htext.symm, hback⟩

end PromptTemplate.Value
