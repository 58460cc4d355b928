import PromptTemplate.Proofs.Dict
import PromptTemplate.Proofs.Number.Binary
import PromptTemplate.Proofs.Value.Printed
import PromptTemplate.Value.Equality

/-!
# The laws of the two equalities

Strict equality is symmetric and transitive, and it is reflexive exactly on the
values without a NaN inside. The order of the fields of objects, at any depth,
makes no difference to it. Loose equality is symmetric and is strict equality
on values of one type (`equalities_lawful`).

An object is equal to another if every field of the first is one of the second
and they have as many. That this can be turned around is counting: the keys are
distinct, so those of the second are no more than those of the first.
-/

/-! ## Values up to the order of fields

Induction over values, conditions on everything inside a value, and values
whose objects have the same fields in another order, at any depth. -/

namespace PromptTemplate.Value

-- ---------------------------------------------------------------------------
-- Induction
-- ---------------------------------------------------------------------------

mutual

/-- What holds of a container if it holds of what is in it holds of every value. -/
@[elab_as_elim]
theorem induct {motive : Value → Prop} (null : motive null) (bool : ∀ b, motive (bool b))
    (number : ∀ x, motive (number x)) (string : ∀ s, motive (string s))
    (array : ∀ items, (∀ item ∈ items, motive item) → motive (array items))
    (object : ∀ fields, (∀ field ∈ fields, motive field.2) → motive (object fields))
    (function : ∀ handle, motive (function handle)) : (value : Value) → motive value
  | .null => null
  | .bool b => bool b
  | .number x => number x
  | .string s => string s
  | .array items => array items (inductItems null bool number string array object function items)
  | .object fields =>
    object fields (inductFields null bool number string array object function fields)
  | .function handle => function handle

theorem inductItems {motive : Value → Prop} (null : motive null) (bool : ∀ b, motive (bool b))
    (number : ∀ x, motive (number x)) (string : ∀ s, motive (string s))
    (array : ∀ items, (∀ item ∈ items, motive item) → motive (array items))
    (object : ∀ fields, (∀ field ∈ fields, motive field.2) → motive (object fields))
    (function : ∀ handle, motive (function handle)) : (items : List Value) →
    ∀ item ∈ items, motive item
  | [] => nofun
  | first :: rest => List.forall_mem_cons.mpr
      ⟨induct null bool number string array object function first,
        inductItems null bool number string array object function rest⟩

theorem inductFields {motive : Value → Prop} (null : motive null) (bool : ∀ b, motive (bool b))
    (number : ∀ x, motive (number x)) (string : ∀ s, motive (string s))
    (array : ∀ items, (∀ item ∈ items, motive item) → motive (array items))
    (object : ∀ fields, (∀ field ∈ fields, motive field.2) → motive (object fields))
    (function : ∀ handle, motive (function handle)) : (fields : List (String × Value)) →
    ∀ field ∈ fields, motive field.2
  | [] => nofun
  | (_, value) :: rest => List.forall_mem_cons.mpr
      ⟨induct null bool number string array object function value,
        inductFields null bool number string array object function rest⟩

end

-- ---------------------------------------------------------------------------
-- Conditions on everything inside
-- ---------------------------------------------------------------------------

section
variable {P : Value → Prop} {items : List Value} {fields : List (String × Value)}

theorem forall_itemsParts :
    (∀ part ∈ itemsParts items, P part) ↔ ∀ item ∈ items, ∀ part ∈ item.parts, P part := by
  induction items with
  | nil => simp [itemsParts]
  | cons first rest ih => simp [itemsParts, or_imp, forall_and, ih]

theorem forall_parts_array : (∀ part ∈ (array items).parts, P part) ↔
    P (array items) ∧ ∀ item ∈ items, ∀ part ∈ item.parts, P part := by
  rw [parts, List.forall_mem_cons, forall_itemsParts]

theorem forall_parts_object : (∀ part ∈ (object fields).parts, P part) ↔
    P (object fields) ∧ ∀ field ∈ fields, ∀ part ∈ field.2.parts, P part := by
  rw [parts, List.forall_mem_cons, fieldsParts_eq, forall_itemsParts, List.forall_mem_map]

end

/-- No two fields of an object inside the value have the same key. -/
def KeysDistinct (value : Value) : Prop :=
  ∀ part ∈ value.parts, ∀ fields, part = object fields → (Dict.keys fields).Nodup

@[simp] theorem keysDistinct_array {items : List Value} :
    (array items).KeysDistinct ↔ ∀ item ∈ items, item.KeysDistinct := by
  simp [KeysDistinct, forall_parts_array]

@[simp] theorem keysDistinct_object {fields : List (String × Value)} :
    (object fields).KeysDistinct ↔
      (Dict.keys fields).Nodup ∧ ∀ field ∈ fields, field.2.KeysDistinct := by
  simp [KeysDistinct, forall_parts_object]

-- ---------------------------------------------------------------------------
-- Another order of fields
-- ---------------------------------------------------------------------------

/-- The same value but for the order of the fields of objects, at any depth. -/
inductive Reordered : Value → Value → Prop
  | refl (value : Value) : Reordered value value
  | trans {a b c : Value} : Reordered a b → Reordered b c → Reordered a c
  | fields {xs ys : List (String × Value)} : xs.Perm ys → Reordered (object xs) (object ys)
  | item {x y : Value} (before after : List Value) : Reordered x y →
      Reordered (array (before ++ x :: after)) (array (before ++ y :: after))
  | field {x y : Value} (before : List (String × Value)) (key : String)
      (after : List (String × Value)) : Reordered x y →
      Reordered (object (before ++ (key, x) :: after)) (object (before ++ (key, y) :: after))

theorem Reordered.keysDistinct {a b : Value} (h : Reordered a b) (ha : a.KeysDistinct) :
    b.KeysDistinct := by
  induction h with
  | refl => exact ha
  | trans _ _ ih ih' => exact ih' (ih ha)
  | fields hperm =>
    rw [keysDistinct_object] at ha ⊢
    exact ⟨Dict.nodup_keys_perm hperm ha.1,
      fun field hfield => ha.2 field (hperm.mem_iff.mpr hfield)⟩
  | item before after _ ih =>
    simp only [keysDistinct_array, List.forall_mem_append, List.forall_mem_cons] at ha ⊢
    exact ⟨ha.1, ih ha.2.1, ha.2.2⟩
  | field before key after _ ih =>
    simp only [keysDistinct_object, Dict.keys, List.map_append, List.map_cons,
      List.forall_mem_append, List.forall_mem_cons] at ha ⊢
    exact ⟨ha.1, ha.2.1, ih ha.2.2.1, ha.2.2.2⟩

/-! ## Equal values -/

/-- No number inside the value is NaN. -/
def NanFree (value : Value) : Prop :=
  ∀ part ∈ value.parts, ∀ x, part = number x → x.isNaN = false

@[simp] theorem nanFree_array {items : List Value} :
    (array items).NanFree ↔ ∀ item ∈ items, item.NanFree := by
  simp [NanFree, forall_parts_array]

@[simp] theorem nanFree_object {fields : List (String × Value)} :
    (object fields).NanFree ↔ ∀ field ∈ fields, field.2.NanFree := by
  simp [NanFree, forall_parts_object]

-- ---------------------------------------------------------------------------
-- Equality of containers
-- ---------------------------------------------------------------------------

section
variable {xs ys : List Value} {fields others : List (String × Value)}

/-- Equal arrays have as many items, equal at each place. -/
theorem strictEq_array : (array xs).strictEq (array ys) ↔ xs.length = ys.length ∧
    ∀ (i : Nat) (x y : Value), xs[i]? = some x → ys[i]? = some y → x.strictEq y := by
  rw [strictEq]
  induction xs generalizing ys with
  | nil => cases ys <;> simp [itemsEq]
  | cons x xs ih =>
    cases ys with
    | nil => simp [itemsEq]
    | cons y ys =>
      rw [itemsEq, Bool.and_eq_true, ih, List.length_cons, List.length_cons, Nat.succ_inj]
      constructor
      · rintro ⟨hfirst, hlength, hrest⟩
        refine ⟨hlength, fun i u v hu hv => ?_⟩
        cases i with
        | zero =>
          cases hu
          cases hv
          exact hfirst
        | succ i => exact hrest i u v hu hv
      · rintro ⟨hlength, heach⟩
        exact ⟨heach 0 x y rfl rfl, hlength, fun i => heach (i + 1)⟩

theorem fieldsIn_iff : fieldsIn fields others ↔
    ∀ field ∈ fields, ∃ y, Dict.get? others field.1 = some y ∧ field.2.strictEq y := by
  induction fields with
  | nil => simp [fieldsIn]
  | cons field rest ih =>
    rw [fieldsIn, Bool.and_eq_true, ih, List.forall_mem_cons]
    cases Dict.get? others field.1 <;> simp

/-- Equal objects have as many fields, each of the first with an equal one in the second. -/
theorem strictEq_object : (object fields).strictEq (object others) ↔
    fields.length = others.length ∧
      ∀ field ∈ fields, ∃ y, Dict.get? others field.1 = some y ∧ field.2.strictEq y := by
  rw [strictEq, Bool.and_eq_true, beq_iff_eq, fieldsIn_iff]

/-- As many distinct keys, all among the others, are the others. -/
theorem keys_subset_of_strictEq (hfields : (Dict.keys fields).Nodup)
    (h : (object fields).strictEq (object others)) : Dict.keys others ⊆ Dict.keys fields := by
  obtain ⟨hlength, heach⟩ := strictEq_object.mp h
  have hsubset : Dict.keys fields ⊆ Dict.keys others := fun key hkey => by
    obtain ⟨field, hfield, rfl⟩ := List.mem_map.mp hkey
    obtain ⟨y, hy, -⟩ := heach field hfield
    exact Dict.mem_keys_of_mem (Dict.mem_of_get? hy)
  have hperm := (hfields.subperm hsubset).perm_of_length_le (by simp [Dict.keys, hlength])
  exact fun key hkey => hperm.mem_iff.mpr hkey

end

-- ---------------------------------------------------------------------------
-- Symmetry, transitivity and reflexivity
-- ---------------------------------------------------------------------------

variable {a b c : Value}

theorem typeName_eq_of_strictEq (h : a.strictEq b) : a.typeName = b.typeName := by
  cases a <;> cases b <;> first | rfl | exact nomatch (show false = true from h)

theorem strictEq_symm (ha : a.KeysDistinct) (hb : b.KeysDistinct) (h : a.strictEq b) :
    b.strictEq a := by
  induction a using induct generalizing b with
  | array xs ih =>
    cases b with
    | array ys =>
      obtain ⟨hlength, heach⟩ := strictEq_array.mp h
      rw [keysDistinct_array] at ha hb
      refine strictEq_array.mpr ⟨hlength.symm, fun i y x hy hx => ?_⟩
      have hx' := List.mem_of_getElem? hx
      exact ih x hx' (ha x hx') (hb y (List.mem_of_getElem? hy)) (heach i x y hx hy)
    | _ => exact nomatch (show false = true from h)
  | object fields ih =>
    cases b with
    | object others =>
      have ⟨hfields, hx⟩ := keysDistinct_object.mp ha
      have ⟨hothers, hy⟩ := keysDistinct_object.mp hb
      obtain ⟨hlength, heach⟩ := strictEq_object.mp h
      refine strictEq_object.mpr ⟨hlength.symm, fun other hother => ?_⟩
      have hkey := keys_subset_of_strictEq hfields h (List.mem_map_of_mem hother)
      obtain ⟨field, hfield, hname⟩ := List.mem_map.mp hkey
      refine ⟨field.2, hname ▸ Dict.get?_of_mem hfields hfield, ?_⟩
      obtain ⟨y, hget, hequal⟩ := heach field hfield
      rw [hname, Dict.get?_of_mem hothers hother, Option.some_inj] at hget
      subst hget
      exact ih field hfield (hx field hfield) (hy other hother) hequal
    | _ => exact nomatch (show false = true from h)
  | _ => cases b <;> simp_all [strictEq, Number.beq_comm]

theorem strictEq_comm (ha : a.KeysDistinct) (hb : b.KeysDistinct) :
    a.strictEq b = b.strictEq a :=
  Bool.eq_iff_iff.mpr ⟨strictEq_symm ha hb, strictEq_symm hb ha⟩

theorem strictEq_trans (h : a.strictEq b) (h' : b.strictEq c) : a.strictEq c := by
  induction a using induct generalizing b c with
  | array xs ih =>
    cases b with
    | array ys =>
      cases c with
      | array zs =>
        obtain ⟨hlength, heach⟩ := strictEq_array.mp h
        obtain ⟨hlength', heach'⟩ := strictEq_array.mp h'
        refine strictEq_array.mpr ⟨hlength.trans hlength', fun i x z hx hz => ?_⟩
        have hi : i < ys.length := hlength ▸ (List.getElem?_eq_some_iff.mp hx).1
        have hy := List.getElem?_eq_getElem hi
        exact ih x (List.mem_of_getElem? hx) (heach i x ys[i] hx hy) (heach' i ys[i] z hy hz)
      | _ => exact nomatch (show false = true from h')
    | _ => exact nomatch (show false = true from h)
  | object fields ih =>
    cases b with
    | object others =>
      cases c with
      | object more =>
        obtain ⟨hlength, heach⟩ := strictEq_object.mp h
        obtain ⟨hlength', heach'⟩ := strictEq_object.mp h'
        refine strictEq_object.mpr ⟨hlength.trans hlength', fun field hfield => ?_⟩
        obtain ⟨y, hy, hxy⟩ := heach field hfield
        obtain ⟨z, hz, hyz⟩ := heach' _ (Dict.mem_of_get? hy)
        exact ⟨z, hz, ih field hfield hxy hyz⟩
      | _ => exact nomatch (show false = true from h')
    | _ => exact nomatch (show false = true from h)
  | number x =>
    cases b <;> cases c <;> simp_all [strictEq]
    exact Number.beq_trans h h'
  | _ => cases b <;> cases c <;> simp_all [strictEq]

/-- Equal to itself is what has no NaN inside. -/
theorem strictEq_self (ha : a.KeysDistinct) : a.strictEq a ↔ a.NanFree := by
  induction a using induct with
  | array xs ih =>
    rw [keysDistinct_array] at ha
    rw [strictEq_array, nanFree_array]
    constructor
    · rintro ⟨-, heach⟩ item hitem
      obtain ⟨i, hi⟩ := List.mem_iff_getElem?.mp hitem
      exact (ih item hitem (ha item hitem)).mp (heach i item item hi hi)
    · refine fun h => ⟨rfl, fun i x y hx hy => ?_⟩
      cases hx.symm.trans hy
      have hitem := List.mem_of_getElem? hx
      exact (ih x hitem (ha x hitem)).mpr (h x hitem)
  | object fields ih =>
    obtain ⟨hfields, hx⟩ := keysDistinct_object.mp ha
    rw [strictEq_object, nanFree_object]
    constructor
    · rintro ⟨-, heach⟩ field hfield
      obtain ⟨y, hy, hequal⟩ := heach field hfield
      cases (Dict.get?_of_mem hfields hfield).symm.trans hy
      exact (ih field hfield (hx field hfield)).mp hequal
    · refine fun h => ⟨rfl, fun field hfield => ⟨field.2, Dict.get?_of_mem hfields hfield, ?_⟩⟩
      exact (ih field hfield (hx field hfield)).mpr (h field hfield)
  | number x => simp [strictEq, NanFree, parts]
  | _ => simp [strictEq, NanFree, parts]

-- ---------------------------------------------------------------------------
-- The order of fields
-- ---------------------------------------------------------------------------

theorem itemsEq_congr {x y : Value} (h : ∀ z, x.strictEq z = y.strictEq z)
    (before after zs : List Value) :
    itemsEq (before ++ x :: after) zs = itemsEq (before ++ y :: after) zs := by
  induction before generalizing zs with
  | nil => cases zs <;> simp [itemsEq, h]
  | cons first rest ih => cases zs <;> simp [itemsEq, ih]

theorem fieldsIn_congr {x y : Value} (h : ∀ z, x.strictEq z = y.strictEq z)
    (before : List (String × Value)) (key : String) (after others : List (String × Value)) :
    fieldsIn (before ++ (key, x) :: after) others =
      fieldsIn (before ++ (key, y) :: after) others := by
  induction before with
  | nil => simp [fieldsIn, h]
  | cons first rest ih => simp [fieldsIn, ih]

/-- On the left the order of fields makes no difference, whatever the keys are. -/
theorem Reordered.strictEq_left {a' : Value} (h : Reordered a a') (b : Value) :
    a.strictEq b = a'.strictEq b := by
  induction h generalizing b with
  | refl => rfl
  | trans _ _ ih ih' => exact (ih b).trans (ih' b)
  | fields hperm =>
    cases b with
    | object others =>
      rw [Bool.eq_iff_iff, strictEq_object, strictEq_object, hperm.length_eq]
      simp only [hperm.mem_iff]
    | _ => rfl
  | item before after _ ih =>
    cases b with
    | array => exact itemsEq_congr ih before after _
    | _ => rfl
  | field before key after _ ih =>
    cases b with
    | object => simp only [strictEq, fieldsIn_congr ih, List.length_append, List.length_cons]
    | _ => rfl

theorem Reordered.strictEq {a' b' : Value} (ha : a.KeysDistinct) (hb : b.KeysDistinct)
    (h : Reordered a a') (h' : Reordered b b') : a.strictEq b = a'.strictEq b' := by
  calc a.strictEq b = b.strictEq a := strictEq_comm ha hb
    _ = b'.strictEq a := h'.strictEq_left a
    _ = a.strictEq b' := strictEq_comm (h'.keysDistinct hb) ha
    _ = a'.strictEq b' := h.strictEq_left b'

-- ---------------------------------------------------------------------------
-- Loose equality
-- ---------------------------------------------------------------------------

theorem looseEq_comm (ha : a.KeysDistinct) (hb : b.KeysDistinct) :
    a.looseEq b = b.looseEq a := by
  have hnumeric : (a.isNumeric && (b.isNumeric || b.isString) || a.isString && b.isNumeric) =
      (b.isNumeric && (a.isNumeric || a.isString) || b.isString && a.isNumeric) := by
    cases a.isNumeric <;> cases b.isNumeric <;> simp
  rw [looseEq, looseEq, Bool.and_comm a.isNullish, Bool.or_comm a.isNullish, hnumeric,
    Number.beq_comm, strictEq_comm ha hb]

theorem toNumber_bool_beq (p q : Bool) : ((bool p).toNumber == (bool q).toNumber) = (p == q) := by
  cases p <;> cases q <;> decide

/-- On values of one type the two equalities are the same. -/
theorem looseEq_of_typeName (h : a.typeName = b.typeName) : a.looseEq b = a.strictEq b := by
  cases a <;> cases b
  case bool.bool p q => exact toNumber_bool_beq p q
  all_goals first | (simp [typeName] at h; done) | rfl

-- ---------------------------------------------------------------------------
-- The two together
-- ---------------------------------------------------------------------------

/-- Strict equality is symmetric, transitive, reflexive exactly on the values without a NaN inside,
and blind to the order of the fields of objects at any depth. Loose equality is symmetric, holds
where strict equality does, and is strict equality on two values of one type. Keys are distinct in
every object; transitivity and the last two do not need it. -/
theorem equalities_lawful (ha : a.KeysDistinct) (hb : b.KeysDistinct) :
    a.strictEq b = b.strictEq a ∧
      (∀ c, a.strictEq b → b.strictEq c → a.strictEq c) ∧
      (a.strictEq a ↔ a.NanFree) ∧
      (∀ a' b', Reordered a a' → Reordered b b' → a.strictEq b = a'.strictEq b') ∧
      a.looseEq b = b.looseEq a ∧
      (a.strictEq b → a.looseEq b) ∧
      (a.typeName = b.typeName → a.looseEq b = a.strictEq b) := by
  refine ⟨strictEq_comm ha hb, fun c => strictEq_trans, strictEq_self ha,
    fun a' b' => Reordered.strictEq ha hb, looseEq_comm ha hb, fun h => ?_, looseEq_of_typeName⟩
  rwa [looseEq_of_typeName (typeName_eq_of_strictEq h)]

/-- An object inside an array, with its fields in both orders. -/
theorem equalities_lawful_fields :
    let written : Value := array [object [("a", number 1), ("b", string "1")]]
    let turned : Value := array [object [("b", string "1"), ("a", number 1)]]
    written.KeysDistinct ∧ turned.KeysDistinct ∧ written.NanFree ∧
      written.strictEq turned ∧ turned.strictEq written := by
  intro written turned
  have hwritten : written.KeysDistinct := by
    simp [written, KeysDistinct, parts, itemsParts, fieldsParts, Dict.keys]
  have hturned : turned.KeysDistinct := by
    simp [turned, KeysDistinct, parts, itemsParts, fieldsParts, Dict.keys]
  obtain ⟨hsymm, -, hrefl, -⟩ := equalities_lawful hwritten hturned
  have hequal : written.strictEq turned := by decide
  exact ⟨hwritten, hturned, hrefl.mp (by decide), hequal, hsymm ▸ hequal⟩

end PromptTemplate.Value
