import PromptTemplate.Proofs.Dict
import PromptTemplate.Proofs.Scope.Alike
import PromptTemplate.Proofs.Walk.Paired

/-!
# A chain of frames as one

A snapshot gives every name the value that looking it up gives
(`get?_snapshotIn`). So a tree whose root is the snapshot taken at a frame of
another tree stands for that frame and all that is outside it, and programs do
the same in both (`flattened_alike`): a walk that starts with the snapshot as
its only frame does what it does in the frame (`snapshot_stands_for_chain`).

A write to a visible name is a write to the snapshot, whichever frame holds the
name: inner frames do not have it, so it stays what they see
(`snapshotIn_bind_owner`).
-/

namespace PromptTemplate.ScopeTree

-- ---------------------------------------------------------------------------
-- Snapshots
-- ---------------------------------------------------------------------------

/-- No frame has two bindings of one name. -/
def KeysDistinct (frames : List Frame) : Prop :=
  ∀ frame ∈ frames, (Dict.keys frame.bindings).Nodup

theorem nodup_keys_snapshotIn (frames : List Frame) (scope : Nat) :
    (Dict.keys (snapshotIn frames scope)).Nodup := by
  induction frames generalizing scope with
  | nil => exact .nil
  | cons frame older ih =>
    by_cases hscope : scope = older.length
    · subst hscope
      rw [snapshotIn_newest]
      cases frame.parent with
      | none => exact Dict.nodup_keys_putAll (d := []) List.nodup_nil _
      | some parent => exact Dict.nodup_keys_putAll (ih parent) _
    · rw [snapshotIn_older hscope]
      exact ih scope

/-- In a snapshot a name has the value that looking it up gives. -/
theorem get?_snapshotIn {frames : List Frame} (h : KeysDistinct frames) (scope : Nat)
    (name : String) :
    Dict.get? (snapshotIn frames scope) name = (ownerIn? name frames scope).map Prod.snd := by
  induction frames generalizing scope with
  | nil => rfl
  | cons frame older ih =>
    obtain ⟨hframe, holder⟩ := List.forall_mem_cons.mp h
    by_cases hscope : scope = older.length
    · subst hscope
      rw [snapshotIn_newest, ownerIn?_newest, Dict.get?_putAll _ hframe]
      cases Dict.get? frame.bindings name with
      | some value => rfl
      | none =>
        cases frame.parent with
        | none => rfl
        | some parent => exact ih holder parent
    · rw [snapshotIn_older hscope, ownerIn?_older hscope]
      exact ih holder scope

variable {below : List Frame} {name : String}

theorem KeysDistinct.bind (h : KeysDistinct below) (scope : Nat) (value : Value) :
    KeysDistinct (changeIn (Dict.put · name value) below scope) := by
  induction below with
  | nil => exact h
  | cons frame older ih =>
    obtain ⟨hframe, holder⟩ := List.forall_mem_cons.mp h
    by_cases hscope : scope = older.length
    · subst hscope
      rw [changeIn_newest]
      exact List.forall_mem_cons.mpr ⟨Dict.nodup_keys_put hframe name value, holder⟩
    · rw [changeIn_older hscope]
      exact List.forall_mem_cons.mpr ⟨hframe, ih holder⟩

/-- Binding a name in the frame of a snapshot is putting it into the snapshot. -/
theorem snapshotIn_bind (h : KeysDistinct below) {scope : Nat} (hscope : scope < below.length)
    (value : Value) :
    snapshotIn (changeIn (Dict.put · name value) below scope) scope =
      Dict.put (snapshotIn below scope) name value := by
  induction below with
  | nil => cases hscope
  | cons frame older ih =>
    obtain ⟨hframe, holder⟩ := List.forall_mem_cons.mp h
    by_cases hnewest : scope = older.length
    · subst hnewest
      rw [changeIn_newest, snapshotIn_newest, snapshotIn_newest, Dict.putAll_put _ hframe]
    · have hlt : scope < older.length := by
        rw [List.length_cons] at hscope
        omega
      rw [changeIn_older hnewest, snapshotIn_older (by rwa [length_changeIn]),
        snapshotIn_older hnewest, ih holder hlt]

/-- Binding a visible name where it is held is putting it into the snapshot. -/
theorem snapshotIn_bind_owner (h : KeysDistinct below) {scope owner : Nat} {old : Value}
    (howner : ownerIn? name below scope = some (owner, old)) (value : Value) :
    snapshotIn (changeIn (Dict.put · name value) below owner) scope =
      Dict.put (snapshotIn below scope) name value := by
  induction below generalizing scope with
  | nil => cases howner
  | cons frame older ih =>
    obtain ⟨hframe, holder⟩ := List.forall_mem_cons.mp h
    by_cases hscope : scope = older.length
    · subst hscope
      cases hget : Dict.get? frame.bindings name with
      | some found =>
        rw [ownerIn?_newest, hget] at howner
        cases howner
        exact snapshotIn_bind h (Nat.lt_succ_self _) value
      | none =>
        rw [ownerIn?_newest, hget] at howner
        obtain ⟨parent, hparent, howner⟩ := Option.bind_eq_some_iff.mp howner
        have hlt := (ownerIn?_spec howner).1
        have hvisible : name ∈ Dict.keys (snapshotIn older parent) := by
          rw [← Dict.get?_isSome_iff_mem_keys, get?_snapshotIn holder, howner]
          rfl
        rw [changeIn_older (Nat.ne_of_lt hlt), snapshotIn_newest,
          ← length_changeIn (Dict.put · name value) older owner, snapshotIn_newest, hparent]
        dsimp only
        rw [ih holder howner, Dict.putAll_put_of_notMem hvisible (Dict.notMem_keys_iff.mpr hget)]
    · rw [ownerIn?_older hscope] at howner
      have hlt := (ownerIn?_spec howner).1
      rw [changeIn_older (Nat.ne_of_lt hlt), snapshotIn_older (by rwa [length_changeIn]),
        snapshotIn_older hscope, ih holder howner]

-- ---------------------------------------------------------------------------
-- Trees that are built
-- ---------------------------------------------------------------------------

/-- A tree that comes about by the operations, whatever frames these are given. They may be given a
number that no frame has, or a parent that is no older frame. To go there is a fault: an array of
frames has no answer, and the way outward need not end. Here no name is visible there, the snapshot
is empty, and what is bound there is lost. So these are more trees than faultless operations build; a
compilation commits no such fault (`Checked.compile`). -/
inductive Built : ScopeTree → Prop
  | new {bindings : Dict Value} : (Dict.keys bindings).Nodup → Built (ofBindings bindings)
  | enter {t : ScopeTree} (parent : ScopeId) : Built t → Built (t.enter parent).2
  | exit {t : ScopeTree} (scope : ScopeId) : Built t → Built (t.exit scope)
  | declare {t u : ScopeTree} {scope : ScopeId} {name : String} {value : Value} : Built t →
      t.declare? scope name value = some u → Built u
  | bind {t : ScopeTree} (scope : ScopeId) (name : String) (value : Value) : Built t →
      Built (t.bind scope name value)
  | write {t u : ScopeTree} {scope : ScopeId} {name : String} {path : List Value}
      {declares : Bool} {change : Value.Change} {result : Value} : Built t →
      t.write scope name path declares change = .ok (result, u) → Built u

theorem Built.keysDistinct {t : ScopeTree} (h : Built t) : KeysDistinct t.frames := by
  induction h with
  | new hdistinct => simpa [KeysDistinct, ofBindings] using hdistinct
  | enter parent _ ih => exact List.forall_mem_cons.mpr ⟨.nil, ih⟩
  | @exit t scope _ ih =>
    unfold ScopeTree.exit
    split
    · exact ih
    · exact fun frame hframe => ih frame (List.mem_of_mem_drop hframe)
  | @declare t u scope name value _ hdeclare ih =>
    unfold declare? at hdeclare
    split at hdeclare
    · cases hdeclare
    · cases hdeclare
      exact ih.bind scope value
  | bind scope name value _ ih => exact ih.bind scope value
  | write _ hwrite ih =>
    obtain ⟨owner, old, changed, -, -, rfl⟩ | ⟨stored, -, -, -, -, rfl⟩ := write_cases hwrite
    · exact ih.bind owner changed
    · exact ih.bind _ stored

-- ---------------------------------------------------------------------------
-- The snapshot as a root
-- ---------------------------------------------------------------------------

/-- Which frames belong to each other if the root stands for the frame `taken` of `n` frames and
what is outside it: newer frames count the same above either. -/
inductive Places (n : Nat) (taken : ScopeId) : ScopeId → ScopeId → Prop
  | base : Places n taken 0 taken
  | newer (i : Nat) : Places n taken (i + 1) (n + i)

/-- The first list has the snapshot taken of `below` as its root, where the second one has the
frames `below`, and the same newer frames. -/
inductive Flattened (below : List Frame) (taken : ScopeId) : List Frame → List Frame → Prop
  | base : Flattened below taken [⟨snapshotIn below taken, none⟩] below
  | newer {frames frames' : List Frame} (bindings : Dict Value) {parent parent' : ScopeId} :
    Places below.length taken parent parent' → Flattened below taken frames frames' →
      Flattened below taken (⟨bindings, some parent⟩ :: frames)
        (⟨bindings, some parent'⟩ :: frames')

/-- What the owners of a name in the two lists are to each other. -/
inductive OwnersAlike (below : List Frame) (taken : ScopeId) (name : String) :
    Option (ScopeId × Value) → Option (ScopeId × Value) → Prop
  | none : OwnersAlike below taken name none none
  | base {owner : ScopeId} {value : Value} : ownerIn? name below taken = some (owner, value) →
      OwnersAlike below taken name (some (0, value)) (some (owner, value))
  | newer (i : Nat) (value : Value) :
      OwnersAlike below taken name (some (i + 1, value)) (some (below.length + i, value))

namespace Flattened

variable {taken : Nat} {frames frames' : List Frame}

theorem length (h : Flattened below taken frames frames') :
    0 < frames.length ∧ frames'.length + 1 = below.length + frames.length := by
  induction h with
  | base => exact ⟨Nat.one_pos, rfl⟩
  | newer _ _ _ ih =>
    simp only [List.length_cons]
    omega

theorem ownerIn? (h : Flattened below taken frames frames') (hdistinct : KeysDistinct below)
    (htaken : taken < below.length) (name : String) {scope scope' : Nat}
    (hscope : Places below.length taken scope scope') :
    OwnersAlike below taken name (ScopeTree.ownerIn? name frames scope)
      (ScopeTree.ownerIn? name frames' scope') := by
  induction h generalizing scope scope' with
  | base =>
    cases hscope with
    | base =>
      have hget := get?_snapshotIn hdistinct taken name
      rw [show (0 : Nat) = ([] : List Frame).length from rfl, ownerIn?_newest, hget]
      cases howner : ScopeTree.ownerIn? name below taken with
      | none => exact .none
      | some found => exact .base howner
    | newer i =>
      rw [ownerIn?_eq_none (by simp), ownerIn?_eq_none (Nat.le_add_right ..)]
      exact .none
  | @newer frames frames' bindings parent parent' hparent h ih =>
    obtain ⟨hpos, hlength⟩ := h.length
    cases hscope with
    | base =>
      rw [ownerIn?_older (by omega), ownerIn?_older (by omega)]
      exact ih .base
    | newer i =>
      by_cases hnewest : i + 1 = frames.length
      · have hnewest' : below.length + i = frames'.length := by omega
        have hnewer := @OwnersAlike.newer below taken name i
        rw [hnewest, hnewest'] at hnewer
        rw [hnewest, hnewest', ownerIn?_newest, ownerIn?_newest]
        dsimp only
        cases Dict.get? bindings name with
        | some value => exact hnewer value
        | none => exact ih hparent
      · rw [ownerIn?_older hnewest, ownerIn?_older (by omega)]
        exact ih (.newer i)

theorem snapshotIn (h : Flattened below taken frames frames') (htaken : taken < below.length)
    {scope scope' : Nat} (hscope : Places below.length taken scope scope') :
    ScopeTree.snapshotIn frames' scope' = ScopeTree.snapshotIn frames scope := by
  induction h generalizing scope scope' with
  | base =>
    cases hscope with
    | base =>
      rw [show (0 : Nat) = ([] : List Frame).length from rfl, snapshotIn_newest]
      exact (Dict.putAll_nil (nodup_keys_snapshotIn below taken)).symm
    | newer i => rw [snapshotIn_eq_nil (Nat.le_add_right ..), snapshotIn_eq_nil (by simp)]
  | @newer frames frames' bindings parent parent' hparent h ih =>
    obtain ⟨hpos, hlength⟩ := h.length
    cases hscope with
    | base => rw [snapshotIn_older (by omega), snapshotIn_older (by omega), ih .base]
    | newer i =>
      by_cases hnewest : i + 1 = frames.length
      · have hnewest' : below.length + i = frames'.length := by omega
        rw [hnewest, hnewest', snapshotIn_newest, snapshotIn_newest]
        dsimp only
        rw [ih hparent]
      · rw [snapshotIn_older (by omega), snapshotIn_older hnewest, ih (.newer i)]

-- ---------------------------------------------------------------------------
-- What the operations do
-- ---------------------------------------------------------------------------

/-- A name is bound in the root and in one of the frames that the root stands for. -/
theorem bindBelow (h : Flattened below taken frames frames') {owner : Nat}
    (howner : owner < below.length) (name : String) (value : Value)
    (hsnapshot : ScopeTree.snapshotIn (ScopeTree.changeIn (Dict.put · name value) below owner)
      taken = Dict.put (ScopeTree.snapshotIn below taken) name value) :
    Flattened (ScopeTree.changeIn (Dict.put · name value) below owner) taken
      (ScopeTree.changeIn (Dict.put · name value) frames 0)
      (ScopeTree.changeIn (Dict.put · name value) frames' owner) := by
  induction h with
  | base =>
    rw [show (0 : Nat) = ([] : List Frame).length from rfl, changeIn_newest]
    dsimp only
    rw [← hsnapshot]
    exact .base
  | @newer frames frames' bindings parent parent' hparent h ih =>
    obtain ⟨hpos, hlength⟩ := h.length
    rw [changeIn_older (by omega), changeIn_older (by omega)]
    exact .newer bindings (by rwa [length_changeIn]) ih

theorem changeNewer (h : Flattened below taken frames frames') (change : Dict Value → Dict Value)
    (i : Nat) :
    Flattened below taken (ScopeTree.changeIn change frames (i + 1))
      (ScopeTree.changeIn change frames' (below.length + i)) := by
  induction h with
  | base =>
    rw [changeIn_eq_self (by simp), changeIn_eq_self (Nat.le_add_right ..)]
    exact .base
  | @newer frames frames' bindings parent parent' hparent h ih =>
    obtain ⟨hpos, hlength⟩ := h.length
    by_cases hnewest : i + 1 = frames.length
    · have hnewest' : below.length + i = frames'.length := by omega
      rw [hnewest, hnewest', changeIn_newest, changeIn_newest]
      exact .newer _ hparent h
    · rw [changeIn_older hnewest, changeIn_older (by omega)]
      exact .newer bindings hparent ih

theorem frameIn? (h : Flattened below taken frames frames') (i : Nat) :
    (ScopeTree.frameIn? frames' (below.length + i)).map Frame.bindings =
      (ScopeTree.frameIn? frames (i + 1)).map Frame.bindings := by
  induction h with
  | base => rw [frameIn?_eq_none (Nat.le_add_right ..), frameIn?_eq_none (by simp)]
  | @newer frames frames' bindings parent parent' hparent h ih =>
    obtain ⟨hpos, hlength⟩ := h.length
    by_cases hnewest : i + 1 = frames.length
    · have hnewest' : below.length + i = frames'.length := by omega
      rw [hnewest, hnewest', frameIn?_newest, frameIn?_newest]
      rfl
    · rw [frameIn?_older (by omega), frameIn?_older hnewest, ih]

theorem drop (h : Flattened below taken frames frames') {count : Nat}
    (hcount : count < frames.length) :
    Flattened below taken (frames.drop count) (frames'.drop count) := by
  induction h generalizing count with
  | base =>
    obtain rfl : count = 0 := by simpa using hcount
    exact .base
  | newer bindings hparent h ih =>
    cases count with
    | zero => exact .newer bindings hparent h
    | succ count =>
      rw [List.length_cons] at hcount
      exact ih (by omega)

end Flattened

/-- The first tree has as its root the snapshot taken at a frame of `n`, where the second one has
these frames. -/
def StandsFor (n : Nat) (taken : ScopeId) (t t' : ScopeTree) : Prop :=
  ∃ below : List Frame, below.length = n ∧ KeysDistinct below ∧
    Flattened below taken t.frames t'.frames

variable {n taken : Nat} {t t' : ScopeTree}

theorem standsFor_snapshot (h : KeysDistinct t.frames) (scope : ScopeId) :
    StandsFor t.frames.length scope (ofBindings (t.snapshot scope)) t :=
  ⟨t.frames, rfl, h, .base⟩

namespace StandsFor

theorem snapshot (h : StandsFor n taken t t') (htaken : taken < n) {scope scope' : ScopeId}
    (hscope : Places n taken scope scope') : t'.snapshot scope' = t.snapshot scope := by
  obtain ⟨below, rfl, -, h⟩ := h
  exact h.snapshotIn htaken hscope

/-- A name is bound in the root and where one of the frames holds it that the root stands for. -/
theorem bindBelow {below : List Frame} (h : Flattened below taken t.frames t'.frames)
    (hdistinct : KeysDistinct below) {owner : Nat} (howner : owner < below.length) {name : String}
    {value : Value} (hsnapshot : snapshotIn (changeIn (Dict.put · name value) below owner) taken =
      Dict.put (snapshotIn below taken) name value) :
    StandsFor below.length taken (t.bind 0 name value) (t'.bind owner name value) :=
  ⟨changeIn (Dict.put · name value) below owner, length_changeIn .., hdistinct.bind owner value,
    h.bindBelow howner name value hsnapshot⟩

theorem bindNewer (h : StandsFor n taken t t') (i : Nat) (name : String) (value : Value) :
    StandsFor n taken (t.bind (i + 1) name value) (t'.bind (n + i) name value) := by
  obtain ⟨below, rfl, hdistinct, h⟩ := h
  exact ⟨below, rfl, hdistinct, h.changeNewer _ i⟩

/-- A name that is not visible is bound in frames that belong to each other. -/
theorem bind (h : StandsFor n taken t t') (htaken : taken < n) {scope scope' : ScopeId}
    (hscope : Places n taken scope scope') (name : String) (value : Value) :
    StandsFor n taken (t.bind scope name value) (t'.bind scope' name value) := by
  cases hscope with
  | base =>
    obtain ⟨below, rfl, hdistinct, h⟩ := h
    exact bindBelow h hdistinct htaken (snapshotIn_bind hdistinct htaken value)
  | newer i => exact h.bindNewer i name value

/-- A name is bound anew where it is held. -/
theorem write (h : StandsFor n taken t t') (htaken : taken < n) {scope scope' : ScopeId}
    (hscope : Places n taken scope scope') (name : String) (path : List Value) (declares : Bool)
    (change : Value.Change) :
    WritesAlike (StandsFor n taken) (t.write scope name path declares change)
      (t'.write scope' name path declares change) := by
  have hbind := h.bind htaken hscope name
  have hnewer := h.bindNewer
  obtain ⟨below, rfl, hdistinct, h⟩ := h
  have howners : OwnersAlike below taken name (t.owner? scope name) (t'.owner? scope' name) :=
    h.ownerIn? hdistinct htaken name hscope
  unfold ScopeTree.write
  generalize t.owner? scope name = found at howners
  generalize t'.owner? scope' name = found' at howners
  cases howners with
  | none =>
    dsimp only
    split
    · cases hchange : change none with
      | error cause => exact .error cause
      | ok outcome => exact .ok outcome.2 (hbind outcome.1)
    · exact .error _
  | @base owner value howner =>
    dsimp only
    cases hchange : Value.changeAt change path value with
    | error cause => exact .error cause
    | ok outcome =>
      exact .ok outcome.2 (bindBelow h hdistinct (ownerIn?_spec howner).1
        (snapshotIn_bind_owner hdistinct howner outcome.1))
  | newer i value =>
    dsimp only
    cases hchange : Value.changeAt change path value with
    | error cause => exact .error cause
    | ok outcome => exact .ok outcome.2 (hnewer i name outcome.1)

end StandsFor

/-- Programs do the same at the root that stands for a frame as in the frame. -/
theorem flattened_alike (N : String → Prop) (htaken : taken < n) :
    Alike N (Places n taken) (StandsFor n taken) where
  lookup := by
    rintro t t' ⟨below, rfl, hdistinct, h⟩ name - scope scope' hscope
    have howners : OwnersAlike below taken name (t.owner? scope name) (t'.owner? scope' name) :=
      h.ownerIn? hdistinct htaken name hscope
    unfold lookup?
    generalize t.owner? scope name = found at howners
    generalize t'.owner? scope' name = found' at howners
    cases howners <;> rfl
  write h _ _ _ _ hscope := h.write htaken hscope _
  declare := by
    intro t t' h scope scope' hscope hroot name value
    cases hscope with
    | base => exact absurd rfl hroot
    | newer i =>
      have hframe : (t'.frame? (n + i)).any (Dict.contains ·.bindings name) =
          (t.frame? (i + 1)).any (Dict.contains ·.bindings name) := by
        obtain ⟨below, rfl, -, h⟩ := h
        have hbindings := congrArg (Option.any (Dict.contains · name)) (h.frameIn? i)
        rwa [Option.any_map, Option.any_map] at hbindings
      unfold declare?
      rw [hframe]
      split
      · exact .none
      · exact .some (h.bindNewer i name value)
  enter := by
    rintro t t' ⟨below, rfl, hdistinct, h⟩ parent parent' hparent
    obtain ⟨hpos, hlength⟩ := h.length
    refine ⟨Nat.ne_of_gt hpos, ?_, below, rfl, hdistinct, .newer [] hparent h⟩
    obtain ⟨i, hi⟩ := Nat.exists_eq_add_of_le' hpos
    have hi' : t'.frames.length = below.length + i := by omega
    show Places below.length taken t.frames.length t'.frames.length
    rw [hi, hi']
    exact .newer i
  exit := by
    rintro t t' ⟨below, rfl, hdistinct, h⟩ scope scope' hscope hroot
    cases hscope with
    | base => exact absurd rfl hroot
    | newer i =>
      obtain ⟨hpos, hlength⟩ := h.length
      have hroot' : below.length + i ≠ root :=
        Nat.ne_of_gt (Nat.lt_of_lt_of_le (Nat.zero_lt_of_lt htaken) (Nat.le_add_right ..))
      have hcount : t'.frames.length - (below.length + i) = t.frames.length - (i + 1) := by omega
      unfold exit
      rw [if_neg hroot, if_neg hroot', hcount]
      exact ⟨below, rfl, hdistinct, h.drop (by omega)⟩

end PromptTemplate.ScopeTree

/-! ## Walking against a snapshot -/

namespace PromptTemplate

open PromptTemplate.Action (Paired)
open ScopeTree (Built Places StandsFor)

variable {n taken : Nat}

/-- A walk at the root that stands for a frame does what it does in the frame. -/
theorem walkAll_flattened (site : Site Compiler) (p : Placement) (htaken : taken < n)
    (nodes : List Node) :
    Paired (.moving id) (WalkState.Alike (StandsFor n taken))
      (walkAll site p ScopeTree.root nodes) (walkAll site p taken nodes) := by
  have hsite : site.Alike (fun _ => True) (Places n taken) (StandsFor n taken) (.moving id) site :=
    ⟨ScopeTree.flattened_alike _ htaken, rfl, fun _ _ _ => rfl⟩
  have hrefers : site.RefersAlike (Places n taken) (StandsFor n taken) site :=
    ⟨rfl, rfl, fun h _ _ hscope => h.snapshot htaken hscope⟩
  have h := walkAll_paired hsite p .base nodes (fun _ _ => trivial) fun _ => hrefers
  rwa [Action.Pairing.moving_span, Node.mapSpansAll_id] at h

/-- In a tree that comes about by the operations, the snapshot of a frame binds a name exactly if
looking the name up from the frame finds it, and to what this finds. As the only frame of a tree it
answers every look-up as the frame does, and walking any nodes there has the outcome, builds the
messages, asks the host and leaves the variables that walking them in the frame does. -/
theorem snapshot_stands_for_chain {t : ScopeTree} (h : Built t) {scope : ScopeId}
    (hscope : scope < t.frames.length) :
    (Dict.keys (t.snapshot scope)).Nodup ∧
      (∀ name value, (name, value) ∈ t.snapshot scope ↔ t.lookup? scope name = some value) ∧
      (∀ name, (ScopeTree.ofBindings (t.snapshot scope)).lookup? ScopeTree.root name =
        t.lookup? scope name) ∧
      ∀ (site : Site Compiler) (p : Placement) (nodes : List Node) (history : History)
        (builder : Builder),
        let flat := walkAll site p ScopeTree.root nodes
          ⟨⟨.ofBindings (t.snapshot scope), history⟩, builder⟩
        let chain := walkAll site p scope nodes ⟨⟨t, history⟩, builder⟩
        flat.1 = chain.1 ∧ flat.2.builder = chain.2.builder ∧
          flat.2.store.history = chain.2.store.history ∧
          ∀ name, flat.2.store.scopes.lookup? ScopeTree.root name =
            chain.2.store.scopes.lookup? scope name := by
  have hdistinct := h.keysDistinct
  have hnodup : (Dict.keys (t.snapshot scope)).Nodup :=
    ScopeTree.nodup_keys_snapshotIn t.frames scope
  have hget (name : String) : Dict.get? (t.snapshot scope) name = t.lookup? scope name :=
    ScopeTree.get?_snapshotIn hdistinct scope name
  have hstands := ScopeTree.standsFor_snapshot hdistinct scope
  have halike := ScopeTree.flattened_alike (fun _ => True) hscope
  refine ⟨hnodup, fun name value => ?_, fun name => ?_, fun site p nodes history builder => ?_⟩
  · rw [← Dict.get?_eq_some_iff hnodup, hget]
  · exact (halike.lookup hstands trivial .base).symm
  · obtain ⟨houtcome, hafter⟩ := walkAll_flattened site p hscope nodes
      ⟨⟨.ofBindings (t.snapshot scope), history⟩, builder⟩ ⟨⟨t, history⟩, builder⟩
      ⟨⟨hstands, rfl⟩, rfl⟩
    exact ⟨houtcome.eq_of_id.symm, hafter.builder.symm, hafter.store.history.symm,
      fun name => (halike.lookup hafter.store.scopes trivial .base).symm⟩

/-- A variable of the root, hidden by one of the same name in a frame that is made inside it. -/
theorem snapshot_stands_for_chain_shadowed :
    let t : ScopeTree := ((ScopeTree.ofBindings [("name", .string "root"), ("old", .null)]).enter
      ScopeTree.root).2.bind 1 "name" (.string "inner")
    Built t ∧ 1 < t.frames.length ∧ t.lookup? 1 "name" = some (.string "inner") ∧
      ("name", .string "inner") ∈ t.snapshot 1 ∧
      (ScopeTree.ofBindings (t.snapshot 1)).lookup? ScopeTree.root "old" = some .null := by
  intro t
  have hbuilt : Built t := .bind 1 _ _ (.enter _ (.new (by decide)))
  have hscope : 1 < t.frames.length := by decide
  obtain ⟨-, hmem, hlookup, -⟩ := snapshot_stands_for_chain hbuilt hscope
  have hname : t.lookup? 1 "name" = some (.string "inner") := by rfl
  exact ⟨hbuilt, hscope, hname, (hmem _ _).mpr hname, (hlookup "old").trans rfl⟩

end PromptTemplate
