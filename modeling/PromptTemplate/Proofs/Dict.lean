import PromptTemplate.Dict

/-!
# Dictionaries as lists and as maps

An entry by its place among the others, and what putting many entries makes of
a dictionary. With distinct keys a dictionary is a map: it has an entry exactly
where looking up the key gives the value (`get?_eq_some_iff`), in whatever
order the entries stand (`get?_perm`).
-/

namespace PromptTemplate.Dict

variable {α : Type} {d e before after : Dict α} {key other name : String} {value : α}

-- ---------------------------------------------------------------------------
-- Entries by their places
-- ---------------------------------------------------------------------------

theorem get?_append_of_notMem (h : key ∉ Dict.keys before) :
    Dict.get? (before ++ after) key = Dict.get? after key := by
  induction before with
  | nil => rfl
  | cons entry rest ih =>
    obtain ⟨hne, hrest⟩ := List.ne_and_not_mem_of_not_mem_cons h
    simpa [get?, Ne.symm hne] using ih hrest

theorem put_append_of_notMem (h : key ∉ Dict.keys before) (after : Dict α) (value : α) :
    Dict.put (before ++ after) key value = before ++ Dict.put after key value := by
  induction before with
  | nil => rfl
  | cons entry rest ih =>
    obtain ⟨hne, hrest⟩ := List.ne_and_not_mem_of_not_mem_cons h
    simpa [put, Ne.symm hne] using ih hrest

theorem notMem_keys_iff : key ∉ Dict.keys d ↔ Dict.get? d key = none := by
  rw [← get?_isSome_iff_mem_keys]
  simp

theorem get?_of_split (h : key ∉ Dict.keys before) :
    Dict.get? (before ++ (key, value) :: after) key = some value := by
  rw [get?_append_of_notMem h, get?, if_pos rfl]

theorem put_of_split (h : key ∉ Dict.keys before) (new : α) :
    Dict.put (before ++ (key, value) :: after) key new = before ++ (key, new) :: after := by
  rw [put_append_of_notMem h, put, if_pos rfl]

theorem put_of_notMem (h : key ∉ Dict.keys d) (new : α) :
    Dict.put d key new = d ++ [(key, new)] := by
  simpa [put] using put_append_of_notMem h [] new

theorem split_of_get? (h : Dict.get? d key = some value) :
    ∃ before after, key ∉ Dict.keys before ∧ d = before ++ (key, value) :: after := by
  induction d with
  | nil => cases h
  | cons entry rest ih =>
    obtain ⟨k, v⟩ := entry
    by_cases hk : k = key
    · subst hk
      simp only [get?, if_true] at h
      cases h
      exact ⟨[], rest, List.not_mem_nil, rfl⟩
    · simp only [get?, hk, if_false] at h
      obtain ⟨before, after, hnot, rfl⟩ := ih h
      refine ⟨(k, v) :: before, after, ?_, rfl⟩
      simpa [keys, Ne.symm hk] using hnot

-- ---------------------------------------------------------------------------
-- Distinct keys
-- ---------------------------------------------------------------------------

theorem mem_of_get? (h : Dict.get? d key = some value) : (key, value) ∈ d := by
  obtain ⟨before, after, -, rfl⟩ := split_of_get? h
  simp

theorem mem_keys_of_mem (h : (key, value) ∈ d) : key ∈ Dict.keys d := List.mem_map_of_mem h

theorem get?_of_mem (hd : d.keys.Nodup) (h : (key, value) ∈ d) : Dict.get? d key = some value := by
  obtain ⟨before, after, rfl⟩ := List.append_of_mem h
  refine get?_of_split fun hbefore => ?_
  rw [keys, List.map_append, List.map_cons, List.nodup_append] at hd
  exact hd.2.2 key hbefore key List.mem_cons_self rfl

/-- With distinct keys looking up finds all entries there are. -/
theorem get?_eq_some_iff (hd : d.keys.Nodup) :
    Dict.get? d key = some value ↔ (key, value) ∈ d :=
  ⟨mem_of_get?, get?_of_mem hd⟩

@[simp] theorem keys_map {β : Type} (d : Dict α) (f : α → β) :
    Dict.keys (d.map fun entry => (entry.1, f entry.2)) = d.keys := by
  simp [keys]

theorem nodup_keys_perm (h : d.Perm e) (hd : d.keys.Nodup) : e.keys.Nodup :=
  (h.map Prod.fst).nodup_iff.mp hd

-- ---------------------------------------------------------------------------
-- Putting many entries
-- ---------------------------------------------------------------------------

theorem putAll_cons (d : Dict α) (key : String) (value : α) (entries : List (String × α)) :
    putAll d ((key, value) :: entries) = putAll (d.put key value) entries := rfl

/-- The other keys keep their values. -/
theorem get?_putAll_of_notMem (d : Dict α) {entries : List (String × α)} {name : String}
    (h : name ∉ keys entries) : (putAll d entries).get? name = d.get? name := by
  induction entries generalizing d with
  | nil => rfl
  | cons entry rest ih =>
    obtain ⟨key, value⟩ := entry
    obtain ⟨hkey, hrest⟩ : name ≠ key ∧ name ∉ keys rest := by
      simpa [keys] using h
    rw [putAll_cons, ih _ hrest, get?_put, if_neg (Ne.symm hkey)]

/-- A key that is put has the value that is put last, whatever it had. -/
theorem get?_putAll_of_mem (d e : Dict α) {entries : List (String × α)} {name : String}
    (h : name ∈ keys entries) : (putAll d entries).get? name = (putAll e entries).get? name := by
  induction entries generalizing d e with
  | nil => cases h
  | cons entry rest ih =>
    obtain ⟨key, value⟩ := entry
    rw [putAll_cons, putAll_cons]
    by_cases hrest : name ∈ keys rest
    · exact ih _ _ hrest
    · obtain rfl : name = key := by
        have hhead : name = key ∨ name ∈ keys rest := by simpa [keys] using h
        exact hhead.resolve_right hrest
      rw [get?_putAll_of_notMem _ hrest, get?_putAll_of_notMem _ hrest, get?_put, get?_put,
        if_pos rfl, if_pos rfl]

/-- The same entries put into two dictionaries leave a difference between them only where no
entry covers it. -/
theorem get?_putAll_eq_iff (d e : Dict α) (entries : List (String × α)) :
    (∀ name, (putAll d entries).get? name = (putAll e entries).get? name) ↔
      ∀ name, name ∉ keys entries → d.get? name = e.get? name := by
  constructor
  · intro h name hname
    have := h name
    rwa [get?_putAll_of_notMem d hname, get?_putAll_of_notMem e hname] at this
  · intro h name
    by_cases hname : name ∈ keys entries
    · exact get?_putAll_of_mem d e hname
    · rw [get?_putAll_of_notMem d hname, get?_putAll_of_notMem e hname, h name hname]

theorem nodup_keys_putAll (hd : d.keys.Nodup) (entries : List (String × α)) :
    (putAll d entries).keys.Nodup := by
  induction entries generalizing d with
  | nil => exact hd
  | cons entry rest ih => exact ih (nodup_keys_put hd entry.1 entry.2)

theorem mem_keys_put : name ∈ (d.put key value).keys ↔ name = key ∨ name ∈ d.keys := by
  rw [keys_put]
  split <;> grind

/-- Entries with distinct keys that are put stand in front of what was there. -/
theorem get?_putAll (d : Dict α) (he : e.keys.Nodup) (name : String) :
    (putAll d e).get? name = (e.get? name).or (d.get? name) := by
  induction e generalizing d with
  | nil => rfl
  | cons entry rest ih =>
    obtain ⟨key, value⟩ := entry
    obtain ⟨hkey, hrest⟩ := List.nodup_cons.mp he
    rw [putAll_cons, ih _ hrest, get?_put, get?]
    by_cases hname : key = name
    · subst hname
      rw [if_pos rfl, if_pos rfl, notMem_keys_iff.mp hkey]
      rfl
    · rw [if_neg hname, if_neg hname]

theorem put_put_of_mem (hne : key ≠ other) (h : key ∈ d.keys) (value value' : α) :
    (d.put other value').put key value = (d.put key value).put other value' := by
  induction d with
  | nil => cases h
  | cons entry rest ih => grind [put, keys]

theorem put_put (d : Dict α) (key : String) (value value' : α) :
    (d.put key value').put key value = d.put key value := by
  induction d with
  | nil => simp [put]
  | cons entry rest ih => grind [put]

/-- A key that is there already may as well get its value before other entries are put. -/
theorem putAll_put_of_notMem (h : key ∈ d.keys) (he : key ∉ e.keys) (value : α) :
    putAll (d.put key value) e = (putAll d e).put key value := by
  induction e generalizing d with
  | nil => rfl
  | cons entry rest ih =>
    obtain ⟨other, value'⟩ := entry
    obtain ⟨hne, hrest⟩ : key ≠ other ∧ key ∉ keys rest := by simpa [keys] using he
    rw [putAll_cons, putAll_cons, ← put_put_of_mem hne h,
      ih (mem_keys_put.mpr (.inr h)) hrest]

/-- An entry put into entries that are put is put last. -/
theorem putAll_put (d : Dict α) (he : e.keys.Nodup) (key : String) (value : α) :
    putAll d (e.put key value) = (putAll d e).put key value := by
  induction e generalizing d with
  | nil => rfl
  | cons entry rest ih =>
    obtain ⟨other, value'⟩ := entry
    obtain ⟨hother, hrest⟩ := List.nodup_cons.mp he
    by_cases hkey : other = key
    · subst hkey
      rw [put, if_pos rfl, putAll_cons, putAll_cons,
        ← putAll_put_of_notMem (mem_keys_put.mpr (.inl rfl)) hother, put_put]
    · rw [put, if_neg hkey, putAll_cons, putAll_cons, ih _ hrest]

/-- Entries with distinct keys that are put one after the other are what they were. -/
theorem putAll_nil (hd : d.keys.Nodup) : putAll [] d = d := by
  have happend : ∀ {d before : Dict α}, (keys (before ++ d)).Nodup →
      putAll before d = before ++ d := by
    intro d
    induction d with
    | nil => simp [putAll]
    | cons entry rest ih =>
      intro before h
      obtain ⟨key, value⟩ := entry
      have hkey : key ∉ keys before := fun hmem => by
        rw [keys, List.map_append, List.nodup_append] at h
        exact h.2.2 key hmem key List.mem_cons_self rfl
      rw [putAll_cons, put_of_notMem hkey, ih (by simpa using h), List.append_assoc]
      rfl
  exact happend hd

end PromptTemplate.Dict
