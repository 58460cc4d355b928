import PromptTemplate.Proofs.Eval.Effects
import PromptTemplate.Proofs.Scope.Names
import PromptTemplate.Proofs.Value.Slot

/-!
# Writes to variables

A write changes one slot below one variable of one frame, or it fails and
changes nothing (`write_changes_one_slot`). The variable is the one that the
name stands for; plain assignment to a name that stands for none makes one.
-/

namespace PromptTemplate

namespace ScopeTree

variable {t u : ScopeTree} {scope : ScopeId} {name : String} {path : List Value}
  {declares : Bool} {change : Value.Change} {old : Option Value} {new result : Value}

-- ---------------------------------------------------------------------------
-- The frames around one
-- ---------------------------------------------------------------------------

theorem frames_split {frames : List Frame} {id : ScopeId} {frame : Frame}
    (h : frameIn? frames id = some frame) :
    ∃ newer older, frames = newer ++ frame :: older ∧ id = older.length := by
  induction frames with
  | nil => cases h
  | cons first older ih =>
    by_cases hid : id = older.length
    · subst hid
      rw [frameIn?_newest] at h
      cases h
      exact ⟨[], older, rfl, rfl⟩
    · rw [frameIn?_older hid] at h
      obtain ⟨newer, rest, rfl, hlength⟩ := ih h
      exact ⟨first :: newer, rest, rfl, hlength⟩

theorem changeIn_split (change : Dict Value → Dict Value) (newer older : List Frame)
    (frame : Frame) :
    changeIn change (newer ++ frame :: older) older.length =
      newer ++ { frame with bindings := change frame.bindings } :: older := by
  induction newer with
  | nil => exact changeIn_newest
  | cons first newer ih =>
    rw [List.cons_append, changeIn_older, ih, List.cons_append]
    rw [List.length_append, List.length_cons]
    exact Nat.ne_of_lt (by omega)

theorem ownerIn?_split (name : String) (newer older : List Frame) (frame : Frame) :
    ownerIn? name (newer ++ frame :: older) older.length =
      ownerIn? name (frame :: older) older.length := by
  induction newer with
  | nil => rfl
  | cons first newer ih =>
    rw [List.cons_append, ownerIn?_older, ih]
    rw [List.length_append, List.length_cons]
    exact Nat.ne_of_lt (by omega)

/-- A name that a frame holds stands there for what the frame binds it to. -/
theorem owner?_of_frame {newer older : List Frame} {frame : Frame} {value : Value}
    (hframes : t.frames = newer ++ frame :: older)
    (hget : Dict.get? frame.bindings name = some value) :
    t.owner? older.length name = some (older.length, value) := by
  rw [owner?, hframes, ownerIn?_split, ownerIn?_newest, hget]

-- ---------------------------------------------------------------------------
-- The change of one slot of one variable
-- ---------------------------------------------------------------------------

/-- What a name and the keys behind it read as. -/
def readAt? (t : ScopeTree) (scope : ScopeId) (name : String) (path : List Value) :
    Option Value :=
  (t.lookup? scope name).bind (Value.readAt? path)

/-- The object property or array element, or the variable if there are no
keys, that a name and keys lead to. -/
def slotAt? (t : ScopeTree) (scope : ScopeId) (name : String) (path : List Value) :
    Option Value :=
  (t.lookup? scope name).bind (Value.slotAt? path)

/-- One frame differs between two trees, and in it one variable: the one that
`name` stands for in `scope` and of it the slot at `path`, or else a new one at
the end of `scope` itself. -/
inductive SlotChange (t : ScopeTree) (scope : ScopeId) (name : String) (declares : Bool)
    (old : Option Value) (new : Value) : List Value → ScopeTree → Prop where
  | visible {path : List Value} {newer older : List Frame} {parent : Option ScopeId}
      {before after : Dict Value} {value changed : Value}
      (howner : t.owner? scope name = some (older.length, value))
      (hframes : t.frames = newer ++ ⟨before ++ (name, value) :: after, parent⟩ :: older)
      (hname : name ∉ Dict.keys before) (hslot : Value.SlotChange old new path value changed) :
      SlotChange t scope name declares old new path
        ⟨newer ++ ⟨before ++ (name, changed) :: after, parent⟩ :: older⟩
  | added {newer older : List Frame} {parent : Option ScopeId} {bindings : Dict Value}
      (hdeclares : declares = true) (hold : old = none) (howner : t.owner? scope name = none)
      (hscope : scope = older.length) (hframes : t.frames = newer ++ ⟨bindings, parent⟩ :: older)
      (hname : name ∉ Dict.keys bindings) :
      SlotChange t scope name declares old new []
        ⟨newer ++ ⟨bindings ++ [(name, new)], parent⟩ :: older⟩

theorem bind_split {newer older : List Frame} {parent : Option ScopeId}
    {before after : Dict Value} {value : Value}
    (hframes : t.frames = newer ++ ⟨before ++ (name, value) :: after, parent⟩ :: older)
    (hname : name ∉ Dict.keys before) (changed : Value) :
    t.bind older.length name changed =
      ⟨newer ++ ⟨before ++ (name, changed) :: after, parent⟩ :: older⟩ := by
  rw [bind, changeBindings, hframes, changeIn_split, Dict.put_of_split hname]

theorem bind_added {newer older : List Frame} {parent : Option ScopeId} {bindings : Dict Value}
    (hframes : t.frames = newer ++ ⟨bindings, parent⟩ :: older)
    (hname : name ∉ Dict.keys bindings) (value : Value) :
    t.bind older.length name value =
      ⟨newer ++ ⟨bindings ++ [(name, value)], parent⟩ :: older⟩ := by
  rw [bind, changeBindings, hframes, changeIn_split, Dict.put_of_notMem hname]

theorem owner?_bind_owner {owner : ScopeId} {value : Value}
    (h : t.owner? scope name = some (owner, value)) (changed : Value) :
    (t.bind owner name changed).owner? scope name = some (owner, changed) :=
  ownerIn?_bind_owner h changed

/-- The variable that a name stands for, in its frame among the others. -/
theorem owner?_split {owner : ScopeId} {value : Value}
    (h : t.owner? scope name = some (owner, value)) :
    ∃ newer older before after parent, owner = older.length ∧
      t.frames = newer ++ ⟨before ++ (name, value) :: after, parent⟩ :: older ∧
      name ∉ Dict.keys before := by
  obtain ⟨-, ⟨bindings, parent⟩, hframe, hget⟩ := ownerIn?_spec h
  obtain ⟨newer, older, hframes, howner⟩ := frames_split hframe
  obtain ⟨before, after, hname, rfl⟩ := Dict.split_of_get? hget
  exact ⟨newer, older, before, after, parent, howner, hframes, hname⟩

/-- The frame of a scope, to which a name that is not visible is new. -/
theorem scope_split {frame : Frame} (hscope : t.frame? scope = some frame)
    (h : t.owner? scope name = none) :
    ∃ newer older bindings parent, scope = older.length ∧
      t.frames = newer ++ ⟨bindings, parent⟩ :: older ∧ name ∉ Dict.keys bindings := by
  obtain ⟨newer, older, hframes, hlength⟩ := frames_split hscope
  refine ⟨newer, older, frame.bindings, frame.parent, hlength, hframes, ?_⟩
  rw [Dict.notMem_keys_iff, Option.eq_none_iff_forall_not_mem]
  intro value hget
  rw [hlength, owner?_of_frame hframes hget] at h
  cases h

theorem SlotChange.readAt?_before (h : SlotChange t scope name declares old new path u) :
    t.readAt? scope name path = old := by
  cases h with
  | visible howner _ _ hslot =>
    rw [readAt?, lookup?, howner]
    exact hslot.readAt?_before
  | added _ hold howner => rw [readAt?, lookup?, howner, hold]; rfl

theorem SlotChange.readAt?_after (h : SlotChange t scope name declares old new path u) :
    u.readAt? scope name path = some new := by
  cases h with
  | visible howner hframes hname hslot =>
    rw [← bind_split hframes hname, readAt?, lookup?, owner?_bind_owner howner]
    exact hslot.readAt?_after
  | added hdeclares hold howner hscope hframes hname =>
    rw [readAt?, lookup?, hscope, owner?_of_frame rfl (Dict.get?_of_split hname)]
    rfl

/-- A slot that gets the value that it has changes nothing. -/
theorem SlotChange.eq_of_same (h : SlotChange t scope name declares (some new) new path u) :
    u = t := by
  obtain ⟨frames⟩ := t
  cases h with
  | visible howner hframes hname hslot =>
    rw [hslot.eq_of_same]
    exact congrArg ScopeTree.mk (Eq.symm hframes)
  | added _ hold => cases hold

theorem readAt?_of_slotAt? {found : Value} (h : t.slotAt? scope name path = some found) :
    t.readAt? scope name path = some found := by
  obtain ⟨value, hlookup, hslot⟩ := Option.bind_eq_some_iff.mp h
  rw [readAt?, hlookup]
  exact Value.readAt?_of_slotAt? hslot

/-- Every slot that exists can be given another value. -/
theorem exists_slotChange {found : Value} (h : t.slotAt? scope name path = some found)
    (declares : Bool) (new : Value) :
    ∃ u, SlotChange t scope name declares (some found) new path u := by
  obtain ⟨value, hlookup, hslot⟩ := Option.bind_eq_some_iff.mp h
  obtain ⟨⟨owner, _⟩, howner, rfl⟩ := Option.map_eq_some_iff.mp hlookup
  obtain ⟨newer, older, before, after, parent, rfl, hframes, hname⟩ := owner?_split howner
  obtain ⟨changed, hchanged⟩ := Value.exists_slotChange hslot new
  exact ⟨_, .visible howner hframes hname hchanged⟩

/-- A write that succeeds changes one slot, and it succeeds whenever there is
such a slot and the change of its value succeeds. -/
theorem write_ok_iff {frame : Frame} (hscope : t.frame? scope = some frame) :
    t.write scope name path declares change = .ok (result, u) ↔
      ∃ old new, change old = .ok (new, result) ∧
        SlotChange t scope name declares old new path u := by
  constructor
  · intro h
    rcases write_cases h with ⟨owner, value, changed, howner, hchange, rfl⟩ |
      ⟨new, hdeclares, rfl, hnone, hchange, rfl⟩
    · obtain ⟨old, new, hold, hslot⟩ := Value.changeAt_ok_iff.mp hchange
      obtain ⟨newer, older, before, after, parent, rfl, hframes, hname⟩ := owner?_split howner
      rw [bind_split hframes hname]
      exact ⟨old, new, hold, .visible howner hframes hname hslot⟩
    · obtain ⟨newer, older, bindings, parent, rfl, hframes, hname⟩ := scope_split hscope hnone
      rw [bind_added hframes hname]
      exact ⟨none, new, hchange, .added hdeclares rfl hnone rfl hframes hname⟩
  · rintro ⟨old, new, hchange, hslot⟩
    cases hslot with
    | visible howner hframes hname hslot =>
      rw [write, howner, ← bind_split hframes hname]
      simp only [hslot.changeAt hchange]
      rfl
    | added hdeclares hold howner hlength hframes hname =>
      rw [write, howner, ← bind_added hframes hname]
      simp only [hdeclares, List.isEmpty_nil, Bool.and_self, if_true, ← hold, hchange, hlength]
      rfl

end ScopeTree

-- ---------------------------------------------------------------------------
-- Writes as actions
-- ---------------------------------------------------------------------------

namespace Eval

variable {span : Span} {change : ScopeTree → Except Cause (Value × ScopeTree)} {s s' : Store}

theorem store_of_changeScopes_error {error : CompileError}
    (h : changeScopes span change s = (.error error, s')) : s' = s := by
  rw [run_changeScopes] at h
  split at h <;> cases h
  rfl

theorem changeScopes_ok_iff {result : Value} :
    changeScopes span change s = (.ok result, s') ↔
      change s.scopes = .ok (result, s'.scopes) ∧ s'.history = s.history := by
  rw [run_changeScopes]
  cases change s.scopes with
  | error cause => simp
  | ok outcome =>
    obtain ⟨given, written⟩ := outcome
    obtain ⟨scopes, history⟩ := s'
    simp [and_assoc, eq_comm]

/-- A write as the evaluation of assignments and updates makes it. -/
abbrev write (span : Span) (scope : ScopeId) (name : String) (path : List Value)
    (declares : Bool) (change : Value.Change) : Eval Value :=
  changeScopes span (·.write scope name path declares change)

end Eval

/-- Whatever the change (`AssignOp.change` for plain and compound assignment,
`UpdateOp.change` for steps up and down), a write that fails leaves the store
as it was. It succeeds exactly if there is a slot that the change can be made
of; what is read at the same name and keys is then the new value, and nothing
but the slot is another. Assigning to a slot what is read there changes
nothing. -/
theorem write_changes_one_slot (span : Span) (s : Store) (scope : ScopeId) (name : String)
    (path : List Value) (hscope : (s.scopes.frame? scope).isSome) :
    (∀ (declares : Bool) (change : Value.Change),
      (∀ error s', Eval.write span scope name path declares change s = (.error error, s') →
        s' = s) ∧
      ∀ result s', Eval.write span scope name path declares change s = (.ok result, s') ↔
        ∃ old new, change old = .ok (new, result) ∧
          s.scopes.readAt? scope name path = old ∧
          s'.scopes.readAt? scope name path = some new ∧
          s.scopes.SlotChange scope name declares old new path s'.scopes ∧
          s'.history = s.history) ∧
    ∀ value, s.scopes.readAt? scope name path = some value →
      (s.scopes.slotAt? scope name path).isSome →
      Eval.write span scope name path true (AssignOp.assign.change value) s = (.ok value, s) := by
  obtain ⟨frame, hframe⟩ := Option.isSome_iff_exists.mp hscope
  refine ⟨fun declares change => ⟨fun _ _ => Eval.store_of_changeScopes_error, ?_⟩, ?_⟩
  · intro result s'
    rw [Eval.changeScopes_ok_iff, ScopeTree.write_ok_iff hframe]
    constructor
    · rintro ⟨⟨old, new, hchange, hslot⟩, hhistory⟩
      exact ⟨old, new, hchange, hslot.readAt?_before, hslot.readAt?_after, hslot, hhistory⟩
    · rintro ⟨old, new, hchange, -, -, hslot, hhistory⟩
      exact ⟨⟨old, new, hchange, hslot⟩, hhistory⟩
  · intro value hread hslot
    obtain ⟨found, hfound⟩ := Option.isSome_iff_exists.mp hslot
    obtain rfl : found = value :=
      Option.some.inj ((ScopeTree.readAt?_of_slotAt? hfound).symm.trans hread)
    obtain ⟨u, hu⟩ := ScopeTree.exists_slotChange hfound true found
    obtain rfl := hu.eq_of_same
    exact Eval.changeScopes_ok_iff.mpr
      ⟨(ScopeTree.write_ok_iff hframe).mpr ⟨_, found, rfl, hu⟩, rfl⟩

/-- An item is put behind the only one of a list in the root frame, from a
frame inside it. -/
theorem write_changes_one_slot_append :
    let user : List Value → Value := fun tags =>
      .object [("name", .string "Ada"), ("tags", .array tags)]
    let store : List Value → Store := fun tags =>
      ⟨⟨[⟨[], some 0⟩, ⟨[("user", user tags), ("count", .null)], none⟩]⟩, []⟩
    let path : List Value := [.string "tags", .string "1"]
    ((store [.string "a"]).scopes.frame? 1).isSome ∧
      ∃ s', Eval.write (.empty .start) 1 "user" path true
          (AssignOp.assign.change (.string "b")) (store [.string "a"]) =
            (.ok (.string "b"), s') ∧
        s'.scopes.readAt? 1 "user" path = some (.string "b") ∧
        s' = store [.string "a", .string "b"] := by
  intro user store path
  have hrun : Eval.write (.empty .start) 1 "user" path true
      (AssignOp.assign.change (.string "b")) (store [.string "a"]) =
        (.ok (.string "b"), store [.string "a", .string "b"]) := by
    rfl
  obtain ⟨old, new, hchange, -, hread, -⟩ :=
    (((write_changes_one_slot (.empty .start) (store [.string "a"]) 1 "user" path rfl).1 true
      (AssignOp.assign.change (.string "b"))).2 _ _).mp hrun
  cases hchange
  exact ⟨rfl, _, hrun, hread, rfl⟩

end PromptTemplate
