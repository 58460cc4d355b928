/-!
# Dictionaries in insertion order

A dictionary lists its entries in the order in which their keys were first put. Putting a key
again replaces the value and keeps the place. Main statements: what `get?` sees after `put`, and
that `put` keeps the keys distinct.
-/

namespace PromptTemplate

abbrev Dict (α : Type) := List (String × α)

namespace Dict

variable {α : Type}

def get? : Dict α → String → Option α
  | [], _ => none
  | (k, v) :: rest, key => if k = key then some v else get? rest key

def contains (d : Dict α) (key : String) : Bool := (d.get? key).isSome

def put : Dict α → String → α → Dict α
  | [], key, value => [(key, value)]
  | (k, v) :: rest, key, value =>
    if k = key then (k, value) :: rest else (k, v) :: put rest key value

def putAll (d : Dict α) (entries : List (String × α)) : Dict α :=
  entries.foldl (fun d entry => d.put entry.1 entry.2) d

def ofList (entries : List (String × α)) : Dict α := putAll [] entries

def keys (d : Dict α) : List String := d.map Prod.fst

@[simp] theorem get?_nil (key : String) : get? ([] : Dict α) key = none := rfl

theorem get?_put (d : Dict α) (key name : String) (value : α) :
    (d.put key value).get? name = if key = name then some value else d.get? name := by
  induction d with
  | nil => rfl
  | cons entry rest ih =>
    obtain ⟨k, v⟩ := entry
    by_cases hk : k = key
    · subst hk
      by_cases hn : k = name <;> simp [put, get?, hn]
    · by_cases hn : k = name
      · subst hn
        simp [put, get?, hk, Ne.symm hk]
      · simp [put, get?, hk, hn, ih]

theorem get?_isSome_iff_mem_keys (d : Dict α) (key : String) :
    (d.get? key).isSome ↔ key ∈ d.keys := by
  induction d with
  | nil => simp [get?, keys]
  | cons entry rest ih =>
    obtain ⟨k, v⟩ := entry
    by_cases hk : k = key
    · simp [get?, keys, hk]
    · simpa [get?, keys, hk, Ne.symm hk] using ih

theorem keys_put (d : Dict α) (key : String) (value : α) :
    (d.put key value).keys = if key ∈ d.keys then d.keys else d.keys ++ [key] := by
  induction d with
  | nil => simp [put, keys]
  | cons entry rest ih =>
    obtain ⟨k, v⟩ := entry
    by_cases hk : k = key
    · simp [put, keys, hk]
    · have ih' : List.map Prod.fst (put rest key value) =
          if key ∈ List.map Prod.fst rest then List.map Prod.fst rest
          else List.map Prod.fst rest ++ [key] := ih
      simp only [put, hk, if_false, keys, List.map_cons, List.mem_cons, Ne.symm hk, false_or, ih']
      split <;> simp

theorem nodup_keys_put {d : Dict α} (h : d.keys.Nodup) (key : String) (value : α) :
    (d.put key value).keys.Nodup := by
  rw [keys_put]
  split
  · exact h
  · rename_i hk
    refine List.nodup_append.2 ⟨h, by simp, ?_⟩
    intro a ha b hb hab
    rw [List.mem_singleton] at hb
    subst hb
    exact hk (hab ▸ ha)

end Dict

end PromptTemplate
