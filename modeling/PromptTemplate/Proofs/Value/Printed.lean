import PromptTemplate.Dict
import PromptTemplate.Json
import PromptTemplate.Proofs.Json.Reads
import PromptTemplate.Value.Render

/-!
# Values and their text

The JSON text of a value reads as the JSON value that the value becomes. The
text has the fields in the order of the object and the JSON value has them
sorted; functions and numbers that are not finite are null in both. Where the
keys are distinct, the order in which fields are put makes no difference to the
sorted fields.
-/

namespace PromptTemplate

-- ---------------------------------------------------------------------------
-- Sorted fields
-- ---------------------------------------------------------------------------

namespace Json

theorem putSorted_comm {key key' : String} (h : key ≠ key') (value value' : Json)
    (fields : List (String × Json)) :
    putSorted key value (putSorted key' value' fields) =
      putSorted key' value' (putSorted key value fields) := by
  -- At each field it is decided by how the two keys compare with its own.
  induction fields with
  | nil => grind [putSorted]
  | cons field rest ih => grind [putSorted]

theorem foldl_putSorted {key : String} {fields : List (String × Json)}
    (h : key ∉ Dict.keys fields) (value : Json) (sorted : List (String × Json)) :
    fields.foldl (fun sorted field => putSorted field.1 field.2 sorted)
        (putSorted key value sorted) =
      putSorted key value
        (fields.foldl (fun sorted field => putSorted field.1 field.2 sorted) sorted) := by
  induction fields generalizing sorted with
  | nil => rfl
  | cons field rest ih =>
    obtain ⟨hkey, hrest⟩ : key ≠ field.1 ∧ key ∉ Dict.keys rest := by
      simpa [Dict.keys] using h
    rw [List.foldl_cons, List.foldl_cons, putSorted_comm (Ne.symm hkey), ih hrest]

/-- A field whose key comes once may as well be put last. -/
theorem sortFields_cons {key : String} {fields : List (String × Json)}
    (h : key ∉ Dict.keys fields) (value : Json) :
    sortFields ((key, value) :: fields) = putSorted key value (sortFields fields) :=
  foldl_putSorted h value []

end Json

/-- Not finite, or whole and below `2 ^ 53`. -/
def Number.IsExact (x : Float) : Prop :=
  binary? x = none ∨ ∃ n, integer? x = some n ∧ n.natAbs < twoTo 53

namespace Value

-- ---------------------------------------------------------------------------
-- What is inside a value
-- ---------------------------------------------------------------------------

mutual

/-- How many containers stand inside one another. -/
def nesting : Value → Nat
  | array items => itemsNesting items + 1
  | object fields => fieldsNesting fields + 1
  | _ => 0

def itemsNesting : List Value → Nat
  | [] => 0
  | item :: rest => max (nesting item) (itemsNesting rest)

def fieldsNesting : List (String × Value) → Nat
  | [] => 0
  | (_, value) :: rest => max (nesting value) (fieldsNesting rest)

end

mutual

/-- The value and all values inside it. -/
def parts : Value → List Value
  | array items => array items :: itemsParts items
  | object fields => object fields :: fieldsParts fields
  | value => [value]

def itemsParts : List Value → List Value
  | [] => []
  | item :: rest => parts item ++ itemsParts rest

def fieldsParts : List (String × Value) → List Value
  | [] => []
  | (_, value) :: rest => parts value ++ fieldsParts rest

end

theorem nesting_le_items {item : Value} {items : List Value} (h : item ∈ items) :
    item.nesting ≤ itemsNesting items := by
  induction items with
  | nil => cases h
  | cons first rest ih =>
    rcases List.mem_cons.1 h with rfl | h
    · exact Nat.le_max_left _ _
    · exact Nat.le_trans (ih h) (Nat.le_max_right _ _)

theorem parts_subset_items {item : Value} {items : List Value} (h : item ∈ items) :
    item.parts ⊆ itemsParts items := by
  induction items with
  | nil => cases h
  | cons first rest ih =>
    rcases List.mem_cons.1 h with rfl | h
    · exact List.subset_append_left _ _
    · exact List.subset_append_of_subset_right _ (ih h)

theorem fieldsNesting_eq (fields : List (String × Value)) :
    fieldsNesting fields = itemsNesting (fields.map Prod.snd) := by
  induction fields with
  | nil => rfl
  | cons field rest ih => simp [fieldsNesting, itemsNesting, ih]

theorem fieldsParts_eq (fields : List (String × Value)) :
    fieldsParts fields = itemsParts (fields.map Prod.snd) := by
  induction fields with
  | nil => rfl
  | cons field rest ih => simp [fieldsParts, itemsParts, ih]

/-- A value whose text says all there is to its JSON form: no more than `depth`
containers stand inside one another and every number is exact. The keys of an
object are distinct, as those of every dictionary are. -/
structure Printable (depth : Nat) (value : Value) : Prop where
  nesting : value.nesting ≤ depth
  keys : ∀ fields, object fields ∈ value.parts → (Dict.keys fields).Nodup
  numbers : ∀ x, number x ∈ value.parts → Number.IsExact x

namespace Printable

variable {depth : Nat}

/-- What holds of a container holds of what is in it, with one container less
around it. -/
theorem item_of {container : Value} {items : List Value} (h : container.Printable (depth + 1))
    (hnesting : container.nesting = itemsNesting items + 1)
    (hparts : container.parts = container :: itemsParts items) {item : Value}
    (hitem : item ∈ items) : item.Printable depth where
  nesting := by
    have hcontainer := h.nesting
    have hle := nesting_le_items hitem
    omega
  keys fields hfields :=
    h.keys fields (hparts ▸ List.mem_cons_of_mem _ (parts_subset_items hitem hfields))
  numbers x hx := h.numbers x (hparts ▸ List.mem_cons_of_mem _ (parts_subset_items hitem hx))

theorem item {items : List Value} (h : (array items).Printable (depth + 1)) {item : Value}
    (hitem : item ∈ items) : item.Printable depth :=
  h.item_of (by rw [Value.nesting]) (by rw [parts]) hitem

theorem field {fields : List (String × Value)} (h : (object fields).Printable (depth + 1))
    {field : String × Value} (hfield : field ∈ fields) : field.2.Printable depth :=
  h.item_of (by rw [Value.nesting, fieldsNesting_eq]) (by rw [parts, fieldsParts_eq])
    (List.mem_map_of_mem hfield)

end Printable

-- ---------------------------------------------------------------------------
-- The text of a value
-- ---------------------------------------------------------------------------

open Json (Reads ReadsField)

theorem numberToJson_of_none {x : Float} (h : Number.binary? x = none) :
    numberToJson x = .null := by
  rw [numberToJson, h]

theorem numberToJson_of_integer {x : Float} {n : Int} (h : Number.integer? x = some n)
    (hsmall : n.natAbs < Number.twoTo 53) : numberToJson x = .int n := by
  obtain ⟨b, hb, hint⟩ := Option.bind_eq_some_iff.1 h
  simp only [numberToJson, hb, hint, hsmall, if_true]

theorem number_reads (depth : Nat) {x : Float} (h : Number.IsExact x) :
    Reads depth (numberToJson x).text (numberToJson x) := by
  rcases h with hnone | ⟨n, hn, hsmall⟩
  · rw [numberToJson_of_none hnone]
    exact .null depth
  · rw [numberToJson_of_integer hn hsmall]
    exact .integer depth (Nat.lt_trans hsmall (by decide))

/-- Sorted as they are read, fields are those of the JSON value. -/
theorem sortFields_toJson {fields : List (String × Value)} (h : (Dict.keys fields).Nodup) :
    Json.sortFields (fields.map fun field => (field.1, field.2.toJson)) = fieldsToJson fields := by
  induction fields with
  | nil => rfl
  | cons field rest ih =>
    obtain ⟨hkey, hrest⟩ := List.nodup_cons.1 h
    have hkey : field.1 ∉ Dict.keys (rest.map fun field => (field.1, field.2.toJson)) := by
      simpa [Dict.keys] using hkey
    rw [List.map_cons, Json.sortFields_cons hkey, ih hrest, fieldsToJson]

mutual

/-- The text of a value reads as what the value becomes. -/
theorem serialize_reads : (value : Value) → (depth : Nat) → value.Printable depth →
    Reads depth value.serialize value.toJson
  | null, depth, _ => .null depth
  | bool true, depth, _ => .bool depth true
  | bool false, depth, _ => .bool depth false
  | number x, depth, h => number_reads depth (h.numbers x (by simp [parts]))
  | string s, depth, _ => .quote depth s
  | function _, depth, _ => .null depth
  | array _, 0, h => absurd h.nesting (by simp [nesting])
  | array items, depth + 1, h => .array (serializeItems_reads items depth fun _ => h.item)
  | object _, 0, h => absurd h.nesting (by simp [nesting])
  | object fields, depth + 1, h => by
    have hread := Reads.object (serializeFields_reads fields depth fun _ => h.field)
    rwa [sortFields_toJson (h.keys fields (by simp [parts]))] at hread

theorem serializeItems_reads : (items : List Value) → (depth : Nat) →
    (∀ item ∈ items, item.Printable depth) →
    List.Forall₂ (Reads depth) (serializeItems items) (itemsToJson items)
  | [], _, _ => .nil
  | item :: rest, depth, h =>
    .cons (serialize_reads item depth (h item List.mem_cons_self))
      (serializeItems_reads rest depth fun other hother => h other (List.mem_cons_of_mem _ hother))

theorem serializeFields_reads : (fields : List (String × Value)) → (depth : Nat) →
    (∀ field ∈ fields, field.2.Printable depth) →
    List.Forall₂ (ReadsField depth) (serializeFields fields)
      (fields.map fun field => (field.1, field.2.toJson))
  | [], _, _ => .nil
  | (key, value) :: rest, depth, h =>
    .cons ⟨_, rfl, serialize_reads value depth (h (key, value) List.mem_cons_self)⟩
      (serializeFields_reads rest depth fun other hother =>
        h other (List.mem_cons_of_mem _ hother))

end

end Value

end PromptTemplate
