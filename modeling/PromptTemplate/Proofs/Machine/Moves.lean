import PromptTemplate.Proofs.Machine
import PromptTemplate.Proofs.Walk.History
import PromptTemplate.Proofs.Walk.Tags

/-!
# What a task can do

The moves that a task can make (`perform_moves`): it ends, is replaced by
parts of itself, opens a tag or closes one, or refers to a prompt that may
be entered.
-/

namespace PromptTemplate

open Walk

/-- Whether tags of a kind may stand at a place. Unknown tags have no place
of their own. -/
def Placement.admits (p : Placement) : TagKind → Except Cause Unit
  | .message _ => p.admitsMessage
  | .content _ => p.admitsContent
  | .toolCall => p.admitsToolCall
  | .reference => p.admitsReference
  | .generic => .ok ()

/-- What a tag may be open as: a message with the role that was read off its
name or its attribute, and content of the kind that was. -/
inductive OpenKind.Opens (tag : Tag) : OpenKind → Prop
  | message {site : Site String} {scope : ScopeId} {given : Option Role} {role : Role}
      {s t : WalkState} (h : tag.kind = .message given)
      (hrole : messageRole site scope tag given s = (.ok role, t)) : Opens tag (.message role)
  | content {given : Option ContentKind} {kind : ContentKind} {s t : WalkState}
      (h : tag.kind = .content given) (hkind : contentKind tag given s = (.ok kind, t)) :
      Opens tag (.content kind)
  | toolCall {id name : String} (h : tag.kind = .toolCall) : Opens tag (.toolCall id name)

def Alternate.body : Alternate → List Node
  | .elseIf _ body => body
  | .otherwise body => body

def Task.isClose : Task → Bool
  | .close .. => true
  | _ => false

inductive Moves (site : Site String) (p : Placement) : Task → Move → Prop
  | done (h : task.isClose = false) : Moves site p task (.go [] p)
  | consequent : Moves site p (.node scope (.ifBlock span condition body alternates))
      (.go [.block scope body] p)
  | alternates : Moves site p (.node scope (.ifBlock span condition body alternates))
      (.go [.alternates scope alternates] p)
  | items : Moves site p (.node scope (.eachBlock span iterable item index body fallback))
      (.go [.items scope item index body 0 values] p)
  | fallback : Moves site p (.node scope (.eachBlock span iterable item index body fallback))
      (.go (fallback.toList.map (.block scope)) p)
  | opened (hp : p.admits tag.kind = .ok ()) (hkind : OpenKind.Opens tag kind) :
      Moves site p (.node scope (.tag tag children))
        (.go (Task.nodes scope children ++ [.close ⟨tag, kind⟩ p]) (kind.inside p))
  | refer (henter : site.enter prompt = .ok referral.entered) :
      Moves site p (.node scope (.tag tag children)) (.refer tag.span referral)
  | block {inner : ScopeId} : Moves site p (.block scope body)
      (.go (Task.nodes inner body ++ [.leave inner]) p)
  | alternate : Moves site p (.alternates scope (first :: rest)) (.go [.block scope first.body] p)
  | next : Moves site p (.alternates scope (first :: rest)) (.go [.alternates scope rest] p)
  | item {inner : ScopeId} : Moves site p (.items scope pattern index body count (value :: rest))
      (.go (Task.nodes inner body ++
        [.leave inner, .items scope pattern index body (count + 1) rest]) p)
  | close : Moves site p (.close opened outside) (.go [] outside)

/-- What comes of a tag that passes its checks. -/
inductive Opening (site : Site String) (p : Placement) (scope : ScopeId) (tag : Tag)
    (children : List Node) (s : WalkState) : Move → WalkState → Prop
  | message {given : Option Role} {role : Role} {t : WalkState} (hkind : tag.kind = .message given)
      (hopen : openMessage site p scope tag given s = (.ok role, t)) :
      Opening site p scope tag children s
        (.go (Task.nodes scope children ++ [.close ⟨tag, .message role⟩ p])
          ((OpenKind.message role).inside p)) t
  | content {given : Option ContentKind} {kind : ContentKind} {t : WalkState}
      (hkind : tag.kind = .content given) (hopen : openContent p tag given s = (.ok kind, t)) :
      Opening site p scope tag children s
        (.go (Task.nodes scope children ++ [.close ⟨tag, .content kind⟩ p])
          ((OpenKind.content kind).inside p)) t
  | toolCall {call : ToolCall} {t : WalkState} (hkind : tag.kind = .toolCall)
      (hopen : openToolCall site p scope tag (children.all Node.isBlankText) s = (.ok call, t))
      (hcall : call.arguments = none) :
      Opening site p scope tag children s
        (.go (Task.nodes scope children ++ [.close ⟨tag, .toolCall call.id call.name⟩ p])
          ((OpenKind.toolCall call.id call.name).inside p)) t
  | wholeToolCall {call : ToolCall} {arguments : Json} {t : WalkState} (hkind : tag.kind = .toolCall)
      (hopen : openToolCall site p scope tag (children.all Node.isBlankText) s = (.ok call, t))
      (hcall : call.arguments = some arguments) :
      Opening site p scope tag children s (.go [] p)
        { t with builder := t.builder.pushBlock (.toolCall call.id call.name arguments) }
  | reference {referral : Referral String} {t : WalkState} (hkind : tag.kind = .reference)
      (hopen : openReference site p scope tag (children.all Node.isBlankText) s =
        (.ok referral, t)) :
      Opening site p scope tag children s (.refer tag.span referral) t

theorem performTag_opening {site : Site String} {p : Placement} {scope : ScopeId} {tag : Tag}
    {children : List Node} {s t : WalkState} {move : Move}
    (h : performTag site p scope tag children s = (.ok move, t)) :
    Opening site p scope tag children s move t := by
  unfold performTag at h
  cases hkind : tag.kind with
  | message given =>
    simp only [hkind, Action.bind_ok, Action.pure_ok] at h
    obtain ⟨role, _, hopen, rfl, rfl⟩ := h
    exact .message hkind hopen
  | content given =>
    simp only [hkind, Action.bind_ok, Action.pure_ok] at h
    obtain ⟨kind, _, hopen, rfl, rfl⟩ := h
    exact .content hkind hopen
  | toolCall =>
    simp only [hkind, Action.bind_ok] at h
    obtain ⟨call, _, hopen, h⟩ := h
    cases hcall : call.arguments with
    | some arguments =>
      simp only [hcall, Action.bind_ok, build_ok, Action.pure_ok] at h
      obtain ⟨_, _, rfl, rfl, rfl⟩ := h
      exact .wholeToolCall hkind hopen hcall
    | none =>
      simp only [hcall, Action.pure_ok] at h
      obtain ⟨rfl, rfl⟩ := h
      exact .toolCall hkind hopen hcall
  | reference =>
    simp only [hkind, Action.bind_ok, Action.pure_ok] at h
    obtain ⟨referral, _, hopen, rfl, rfl⟩ := h
    exact .reference hkind hopen
  | generic => simp only [hkind, fail_ok] at h

theorem performTag_moves {site : Site String} {p : Placement} {scope : ScopeId} {tag : Tag}
    {children : List Node} {s t : WalkState} {move : Move}
    (h : performTag site p scope tag children s = (.ok move, t)) :
    Moves site p (.node scope (.tag tag children)) move := by
  cases performTag_opening h with
  | message hkind hopen =>
    have hp : p.admits tag.kind = .ok () := by
      rw [hkind]
      exact (openMessage_ok hopen).1
    obtain ⟨_, hrole⟩ := openMessage_role hopen
    exact .opened hp (.message hkind hrole)
  | content hkind hopen =>
    have hp : p.admits tag.kind = .ok () := by
      rw [hkind]
      exact (openContent_ok hopen).1
    obtain ⟨_, hread⟩ := openContent_kind hopen
    exact .opened hp (.content hkind hread)
  | toolCall hkind hopen =>
    have hp : p.admits tag.kind = .ok () := by
      rw [hkind]
      exact (openToolCall_ok hopen).1
    exact .opened hp (.toolCall hkind)
  | wholeToolCall => exact .done rfl
  | reference _ hopen =>
    obtain ⟨-, -, prompt, _, _, _, -, -, henter, -⟩ := openReference_ok.mp hopen
    exact .refer henter

theorem performNode_moves {site : Site String} {p : Placement} {scope : ScopeId} {node : Node}
    {s t : WalkState} {move : Move} (h : performNode site p scope node s = (.ok move, t)) :
    Moves site p (.node scope node) move := by
  cases node with
  | config => simp only [performNode, fail_ok] at h
  | text =>
    simp only [performNode, Action.bind_ok, Action.pure_ok] at h
    obtain ⟨_, _, -, rfl, -⟩ := h
    exact .done rfl
  | mustache _ e =>
    simp only [performNode, Action.bind_ok] at h
    obtain ⟨value, _, -, h⟩ := h
    cases hside : e.isSideEffect with
    | true =>
      simp only [hside, Bool.not_true, Bool.false_eq_true, if_false, Action.pure_ok] at h
      obtain ⟨rfl, -⟩ := h
      exact .done rfl
    | false =>
      simp only [hside, Bool.not_false, if_true, Action.bind_ok, Action.pure_ok] at h
      obtain ⟨_, _, -, rfl, -⟩ := h
      exact .done rfl
  | ifBlock _ condition consequent alternates =>
    simp only [performNode, Action.bind_ok] at h
    obtain ⟨value, _, -, h⟩ := h
    cases htruthy : value.isTruthy with
    | true =>
      simp only [htruthy, if_true, Action.pure_ok] at h
      obtain ⟨rfl, -⟩ := h
      exact .consequent
    | false =>
      simp only [htruthy, Bool.false_eq_true, if_false, Action.pure_ok] at h
      obtain ⟨rfl, -⟩ := h
      exact .alternates
  | eachBlock _ iterable item index body fallback =>
    simp only [performNode, Action.bind_ok] at h
    obtain ⟨value, _, -, h⟩ := h
    cases hitems : value.loopItems with
    | nil =>
      simp only [hitems, Action.pure_ok] at h
      obtain ⟨rfl, -⟩ := h
      exact .fallback
    | cons first rest =>
      simp only [hitems, Action.pure_ok] at h
      obtain ⟨rfl, -⟩ := h
      exact .items
  | tag tag children => exact performTag_moves h

theorem perform_moves {site : Site String} {p : Placement} {task : Task} {s t : WalkState}
    {move : Move} (h : task.perform site p s = (.ok move, t)) : Moves site p task move := by
  cases task with
  | node scope n => exact performNode_moves h
  | block scope body =>
    simp only [Task.perform, Action.bind_ok, Action.pure_ok] at h
    obtain ⟨inner, _, -, rfl, -⟩ := h
    exact .block
  | alternates scope alternates =>
    cases alternates with
    | nil =>
      simp only [Task.perform, Action.pure_ok] at h
      obtain ⟨rfl, -⟩ := h
      exact .done rfl
    | cons first rest =>
      cases first with
      | elseIf condition body =>
        simp only [Task.perform, Action.bind_ok] at h
        obtain ⟨value, _, -, h⟩ := h
        cases htruthy : value.isTruthy with
        | true =>
          simp only [htruthy, if_true, Action.pure_ok] at h
          obtain ⟨rfl, -⟩ := h
          exact .alternate
        | false =>
          simp only [htruthy, Bool.false_eq_true, if_false, Action.pure_ok] at h
          obtain ⟨rfl, -⟩ := h
          exact .next
      | otherwise body =>
        simp only [Task.perform, Action.pure_ok] at h
        obtain ⟨rfl, -⟩ := h
        exact .alternate
  | items scope item index body count values =>
    cases values with
    | nil =>
      simp only [Task.perform, Action.pure_ok] at h
      obtain ⟨rfl, -⟩ := h
      exact .done rfl
    | cons value rest =>
      simp only [Task.perform, Action.bind_ok, Action.pure_ok] at h
      obtain ⟨inner, _, -, _, _, -, rfl, -⟩ := h
      exact .item
  | leave scope =>
    simp only [Task.perform, Action.bind_ok, Action.pure_ok] at h
    obtain ⟨_, _, -, rfl, -⟩ := h
    exact .done rfl
  | close opened outside =>
    simp only [Task.perform, Action.bind_ok, Action.pure_ok] at h
    obtain ⟨_, _, -, rfl, -⟩ := h
    exact .close

theorem perform_refer {site : Site String} {p : Placement} {task : Task} {s t : WalkState}
    {span : Span} {referral : Referral String}
    (h : task.perform site p s = (.ok (.refer span referral), t)) :
    ∃ prompt, site.enter prompt = .ok referral.entered := by
  cases perform_moves h with
  | refer henter => exact ⟨_, henter⟩

end PromptTemplate
