import PromptTemplate.Value.Property

/-!
# Scopes

Variables live in frames. Every frame but the root has a parent, made before it; looking up a name
walks from a frame to the root, while declaring touches one frame only. Frames end in the order
opposite to the one in which they began, so ending a frame ends all that began after it.
-/

namespace PromptTemplate

/-- Frames are numbered from the root, which is zero. -/
abbrev ScopeId := Nat

structure Frame where
  bindings : Dict Value
  parent : Option ScopeId

/-- The frames, newest first: the number of a frame is the count of frames older than it. -/
structure ScopeTree where
  frames : List Frame

namespace ScopeTree

def root : ScopeId := 0

def ofBindings (bindings : Dict Value) : ScopeTree := ⟨[⟨bindings, none⟩]⟩

def enter (t : ScopeTree) (parent : ScopeId) : ScopeId × ScopeTree :=
  (t.frames.length, ⟨⟨[], some parent⟩ :: t.frames⟩)

/-- Ends a frame and all newer ones. The root never ends. -/
def exit (t : ScopeTree) (scope : ScopeId) : ScopeTree :=
  if scope = root then t else ⟨t.frames.drop (t.frames.length - scope)⟩

/-- The newest frame ends alone. -/
theorem exit_newest {older : List Frame} (frame : Frame) (h : older ≠ []) :
    (ScopeTree.mk (frame :: older)).exit older.length = ⟨older⟩ := by
  have hne : (older.length : ScopeId) ≠ root := Nat.ne_of_gt (List.length_pos_iff.2 h)
  simp [exit, hne]

/-- The frame of a number, among the newest-first frames of a tree. -/
def frameIn? : List Frame → ScopeId → Option Frame
  | [], _ => none
  | frame :: older, scope => if scope = older.length then some frame else frameIn? older scope

def frame? (t : ScopeTree) (scope : ScopeId) : Option Frame := frameIn? t.frames scope

def changeIn (change : Dict Value → Dict Value) : List Frame → ScopeId → List Frame
  | [], _ => []
  | frame :: older, scope =>
    if scope = older.length then { frame with bindings := change frame.bindings } :: older
    else frame :: changeIn change older scope

def changeBindings (t : ScopeTree) (scope : ScopeId) (change : Dict Value → Dict Value) :
    ScopeTree :=
  ⟨changeIn change t.frames scope⟩

/-- Binds a name in one frame, in place of an earlier binding there. -/
def bind (t : ScopeTree) (scope : ScopeId) (name : String) (value : Value) : ScopeTree :=
  t.changeBindings scope (Dict.put · name value)

theorem length_changeIn (change : Dict Value → Dict Value) (frames : List Frame)
    (scope : ScopeId) : (changeIn change frames scope).length = frames.length := by
  induction frames with
  | nil => rfl
  | cons frame older ih => unfold changeIn; split <;> simp [ih]

theorem length_frames_bind (t : ScopeTree) (scope : ScopeId) (name : String) (value : Value) :
    (t.bind scope name value).frames.length = t.frames.length :=
  length_changeIn ..

/-- Binds a name in one frame, unless it is bound there already. -/
def declare? (t : ScopeTree) (scope : ScopeId) (name : String) (value : Value) :
    Option ScopeTree :=
  if (t.frame? scope).any (Dict.contains ·.bindings name) then none
  else some (t.bind scope name value)

/-- The frame that holds a name, and what it is bound to there. -/
def ownerIn? (name : String) : List Frame → ScopeId → Option (ScopeId × Value)
  | [], _ => none
  | frame :: older, scope =>
    if scope = older.length then
      match Dict.get? frame.bindings name with
      | some value => some (scope, value)
      | none => frame.parent.bind (ownerIn? name older)
    else ownerIn? name older scope

def owner? (t : ScopeTree) (scope : ScopeId) (name : String) : Option (ScopeId × Value) :=
  ownerIn? name t.frames scope

def lookup? (t : ScopeTree) (scope : ScopeId) (name : String) : Option Value :=
  (t.owner? scope name).map Prod.snd

def snapshotIn : List Frame → ScopeId → Dict Value
  | [], _ => []
  | frame :: older, scope =>
    if scope = older.length then
      let outer := match frame.parent with
        | some parent => snapshotIn older parent
        | none => []
      Dict.putAll outer frame.bindings
    else snapshotIn older scope

/-- Everything visible from a frame as one dictionary; inner frames win over outer ones. -/
def snapshot (t : ScopeTree) (scope : ScopeId) : Dict Value := snapshotIn t.frames scope

/-- Changes the slot at a path of keys below a visible variable. A name that is not visible is bound
in the frame itself if `declares` and there is no path. -/
def write (t : ScopeTree) (scope : ScopeId) (name : String) (path : List Value) (declares : Bool)
    (change : Value.Change) : Except Cause (Value × ScopeTree) :=
  match t.owner? scope name with
  | some (owner, value) => do
    let (changed, result) ← Value.changeAt change path value
    return (result, t.bind owner name changed)
  | none =>
    if declares && path.isEmpty then do
      let (stored, result) ← change none
      return (result, t.bind scope name stored)
    else .error (.notDeclared name)

end ScopeTree

end PromptTemplate
