import PromptTemplate.Eval
import PromptTemplate.Host.Standard
import PromptTemplate.Proofs.Action

/-!
# Chains of members and calls

A chain is an expression with links behind it. An optional link on null ends
the chain there, with null; if there is none, the links are followed one after
the other (`eval_chain`).
-/

namespace PromptTemplate

/-- What a chain has behind its first expression. -/
inductive Link where
  | member (span : Span) (property : Property) (optional : Bool)
  | call (span : Span) (arguments : List Element)

namespace Link

def on (base : Expr) : Link → Expr
  | member span property optional => .member span base property optional
  | call span arguments => .call span base arguments

def isOptional : Link → Bool
  | member _ _ optional => optional
  | call .. => false

/-- What a link makes of a value that is there. -/
def follow (scene : Scene) (target : Value) : Link → Eval Value
  | member span property optional => do
    let key ← evalKey scene property
    match target.property? key with
    | some value => return value
    | none => if optional then return .null else Eval.fail (.noSuchProperty key.render) span
  | call span arguments => do
    let arguments ← evalElements scene arguments
    match target with
    | .function function => Eval.call scene.host span function arguments
    | other => Eval.fail (.notAFunction other.typeName) span

/-- What a link makes of a chain; none is what an optional link makes of null, and all others make
of none. -/
def step (scene : Scene) (link : Link) : Option Value → Eval (Option Value)
  | none => return none
  | some target =>
    if link.isOptional && target.isNullish then return none
    else some <$> link.follow scene target

end Link

namespace Expr

def chain (base : Expr) (links : List Link) : Expr := links.foldl Link.on base

/-- The expressions in front of the optional links of a chain, the longest one first. -/
def optionalFronts : Expr → List Expr
  | .member _ base _ optional =>
    if optional then base :: base.optionalFronts else base.optionalFronts
  | .call _ callee _ => callee.optionalFronts
  | .literal .. | .identifier .. | .array .. | .object .. | .unary .. | .binary .. | .conditional ..
  | .assignment .. | .update .. => []

theorem chain_append (base : Expr) (front rest : List Link) :
    base.chain (front ++ rest) = (base.chain front).chain rest :=
  List.foldl_append

end Expr

variable {scene : Scene} {s t : Store} {e : Expr} {link : Link}

-- ---------------------------------------------------------------------------
-- One link
-- ---------------------------------------------------------------------------

theorem Eval.map_fail (f : α → β) (cause : Cause) (span : Span) :
    f <$> (Eval.fail cause span : Eval α) = Eval.fail cause span :=
  rfl

theorem evalChain_on (link : Link) (e : Expr) :
    evalChain scene (link.on e) = evalChain scene e >>= link.step scene := by
  cases link with
  | member span property optional =>
    simp only [Link.on, evalChain]
    refine bind_congr fun found => ?_
    cases found with
    | none => rfl
    | some target =>
      simp only [Link.step, Link.isOptional, Link.follow, map_bind]
      split
      · rfl
      · refine bind_congr fun key => ?_
        cases target.property? key with
        | some value => rw [map_pure]
        | none => cases optional <;> rfl
  | call span arguments =>
    simp only [Link.on, evalChain]
    refine bind_congr fun found => ?_
    cases found with
    | none => rfl
    | some target =>
      simp only [Link.step, Link.isOptional, Link.follow, Bool.false_and, Bool.false_eq_true,
        if_false, map_bind]
      refine bind_congr fun arguments => ?_
      cases target with
      | function function => rw [map_eq_pure_bind]
      | _ => rw [Eval.map_fail]

theorem Link.step_eq_none {found : Option Value} (h : link.step scene found s = (.ok none, t)) :
    s = t ∧ (found = none ∨ found = some .null ∧ link.isOptional = true) := by
  cases found with
  | none => exact ⟨(Action.pure_ok.mp h).2, .inl rfl⟩
  | some target =>
    simp only [Link.step] at h
    split at h
    next hskips =>
      obtain ⟨hoptional, hnullish⟩ := Bool.and_eq_true_iff.mp hskips
      cases target with
      | null => exact ⟨(Action.pure_ok.mp h).2, .inr ⟨rfl, hoptional⟩⟩
      | _ => cases hnullish
    next =>
      rw [map_eq_pure_bind] at h
      obtain ⟨value, u, -, hvalue⟩ := Action.bind_ok.mp h
      cases (Action.pure_ok.mp hvalue).1

-- ---------------------------------------------------------------------------
-- Where a chain ends
-- ---------------------------------------------------------------------------

theorem eval_eq_ok {value : Value} : eval scene e s = (.ok value, t) ↔
    ∃ found, evalChain scene e s = (.ok found, t) ∧ found.getD .null = value := by
  simp only [eval, orNull, Action.bind_ok, Action.pure_ok]
  constructor
  · rintro ⟨found, _, hrun, rfl, rfl⟩
    exact ⟨found, hrun, rfl⟩
  · rintro ⟨found, hrun, rfl⟩
    exact ⟨found, t, hrun, rfl, rfl⟩

theorem eval_of_none (h : evalChain scene e s = (.ok none, t)) : eval scene e s = (.ok .null, t) :=
  eval_eq_ok.mpr ⟨none, h, rfl⟩

/-- A chain that has ended stays as it is. -/
theorem evalChain_chain_none (links : List Link) (h : evalChain scene e s = (.ok none, t)) :
    evalChain scene (e.chain links) s = (.ok none, t) := by
  induction links generalizing e with
  | nil => exact h
  | cons link rest ih =>
    refine ih (e := link.on e) ?_
    rw [evalChain_on, Action.run_bind, h]
    rfl

/-- An optional link ends a chain that comes to null. -/
theorem evalChain_on_null (hoptional : link.isOptional = true)
    (h : eval scene e s = (.ok .null, t)) : evalChain scene (link.on e) s = (.ok none, t) := by
  obtain ⟨found, hrun, hfound⟩ := eval_eq_ok.mp h
  rw [evalChain_on, Action.run_bind, hrun]
  cases found with
  | none => rfl
  | some target =>
    obtain rfl : target = .null := hfound
    simp only [Link.step, hoptional]
    rfl

theorem bind_some_ne {m : Eval α} {f : α → Value} :
    (do return some (f (← m)) : Eval (Option Value)) s ≠ (.ok none, t) := by
  intro h
  obtain ⟨a, u, -, h⟩ := Action.bind_ok.mp h
  cases (Action.pure_ok.mp h).1

/-- Nothing but an optional link on null ends a chain. -/
theorem evalChain_eq_none : {e : Expr} → {t : Store} → evalChain scene e s = (.ok none, t) →
    ∃ front ∈ e.optionalFronts, eval scene front s = (.ok .null, t)
  | .member span base property optional, t, h => by
    rw [show Expr.member span base property optional =
      (Link.member span property optional).on base from rfl, evalChain_on] at h
    obtain ⟨found, u, hbase, hstep⟩ := Action.bind_ok.mp h
    obtain ⟨rfl, rfl | ⟨rfl, hoptional⟩⟩ := Link.step_eq_none hstep
    · obtain ⟨front, hfront, hnull⟩ := evalChain_eq_none hbase
      refine ⟨front, ?_, hnull⟩
      simp only [Expr.optionalFronts]
      split
      · exact List.mem_cons_of_mem _ hfront
      · exact hfront
    · obtain rfl : optional = true := hoptional
      exact ⟨base, by simp [Expr.optionalFronts], eval_eq_ok.mpr ⟨_, hbase, rfl⟩⟩
  | .call span callee arguments, t, h => by
    rw [show Expr.call span callee arguments = (Link.call span arguments).on callee from rfl,
      evalChain_on] at h
    obtain ⟨found, u, hcallee, hstep⟩ := Action.bind_ok.mp h
    obtain ⟨rfl, rfl | ⟨-, hoptional⟩⟩ := Link.step_eq_none hstep
    · obtain ⟨front, hfront, hnull⟩ := evalChain_eq_none hcallee
      exact ⟨front, by simpa only [Expr.optionalFronts] using hfront, hnull⟩
    · cases hoptional
  | .unary span op operand, t, h => by
    simp only [evalChain] at h
    split at h
    · exact absurd h bind_some_ne
    · cases h
  | .binary span op left right, t, h => by
    cases hmeaning : op.meaning with
    | plain apply =>
      simp only [evalChain, hmeaning] at h
      obtain ⟨a, u, -, h⟩ := Action.bind_ok.mp h
      exact absurd h bind_some_ne
    | stopsAt condition =>
      simp only [evalChain, hmeaning] at h
      obtain ⟨a, u, -, h⟩ := Action.bind_ok.mp h
      split at h
      · cases (Action.pure_ok.mp h).1
      · exact absurd h bind_some_ne
    | unsupported =>
      simp only [evalChain, hmeaning] at h
      cases h
  | .conditional span test consequent alternate, t, h => by
    simp only [evalChain] at h
    obtain ⟨a, u, -, h⟩ := Action.bind_ok.mp h
    split at h <;> exact absurd h bind_some_ne
  | .literal _ value, t, h => by
    simp only [evalChain] at h
    cases (Action.pure_ok.mp h).1
  | .identifier .., t, h | .array .., t, h | .object .., t, h => by
    simp only [evalChain] at h
    exact absurd h bind_some_ne
  | .assignment .., t, h => by
    simp only [evalChain] at h
    obtain ⟨path, u, -, h⟩ := Action.bind_ok.mp h
    obtain ⟨given, v, -, h⟩ := Action.bind_ok.mp h
    exact absurd h bind_some_ne
  | .update .., t, h => by
    simp only [evalChain] at h
    obtain ⟨path, u, -, h⟩ := Action.bind_ok.mp h
    exact absurd h bind_some_ne

-- ---------------------------------------------------------------------------
-- Chains
-- ---------------------------------------------------------------------------

theorem Expr.optionalFronts_on {front : Expr} (h : front ∈ e.optionalFronts) (link : Link) :
    front ∈ (link.on e).optionalFronts := by
  cases link with
  | member span property optional => cases optional <;> simp [Link.on, optionalFronts, h]
  | call => simpa only [Link.on, optionalFronts] using h

theorem Expr.optionalFronts_chain {front : Expr} (h : front ∈ e.optionalFronts)
    (links : List Link) : front ∈ (e.chain links).optionalFronts := by
  induction links generalizing e with
  | nil => exact h
  | cons link rest ih => exact ih (optionalFronts_on h link)

theorem Expr.mem_optionalFronts (hoptional : link.isOptional = true) :
    e ∈ (link.on e).optionalFronts := by
  cases link with
  | member span property optional =>
    obtain rfl : optional = true := hoptional
    simp [Link.on, optionalFronts]
  | call => cases hoptional

theorem eval_link (link : Link) (e : Expr) :
    eval scene (link.on e) = (do orNull (link.step scene (← evalChain scene e))) := by
  simp [eval, orNull, evalChain_on]

theorem orNull_map_some (m : Eval Value) : orNull (some <$> m) = m := by
  simp [orNull]

/-- A link is followed if no optional link up to it stands behind null. -/
theorem eval_on
    (h : ∀ front ∈ (link.on e).optionalFronts, ∀ t, eval scene front s ≠ (.ok .null, t)) :
    eval scene (link.on e) s = (do link.follow scene (← eval scene e)) s := by
  rw [eval_link, Action.run_bind, Action.run_bind]
  cases hrun : evalChain scene e s with
  | mk result t =>
    cases result with
    | error error =>
      have heval : eval scene e s = (.error error, t) := by
        rw [eval, orNull, Action.run_bind, hrun]
      rw [heval]
    | ok found =>
      cases found with
      | none =>
        obtain ⟨front, hfront, hnull⟩ := evalChain_eq_none hrun
        exact absurd hnull (h front (Expr.optionalFronts_on hfront link) t)
      | some target =>
        have heval : eval scene e s = (.ok target, t) := eval_eq_ok.mpr ⟨_, hrun, rfl⟩
        have hfollows : (link.isOptional && target.isNullish) = false := by
          cases hoptional : link.isOptional with
          | false => rfl
          | true =>
            cases target with
            | null => exact absurd heval (h e (Expr.mem_optionalFronts hoptional) t)
            | _ => rfl
        rw [heval]
        simp only [Link.step, hfollows, Bool.false_eq_true, if_false, orNull_map_some]

/-- An optional link on null makes the whole chain null, with the store as the
links in front of it left it, whatever stands behind it. If none of the optional
links of a chain stands behind null, the chain comes to what its links come to
when they are followed one after the other. -/
theorem eval_chain (scene : Scene) (base : Expr) (links : List Link) (s : Store) :
    (∀ front link rest t, links = front ++ link :: rest → Link.isOptional link = true →
      eval scene (base.chain front) s = (.ok .null, t) →
      eval scene (base.chain links) s = (.ok .null, t)) ∧
    ((∀ front ∈ (base.chain links).optionalFronts, ∀ t,
        eval scene front s ≠ (.ok .null, t)) →
      eval scene (base.chain links) s =
        (do links.foldlM (Link.follow scene) (← eval scene base)) s) := by
  constructor
  · rintro front link rest t rfl hoptional hnull
    have hends := evalChain_on_null hoptional hnull
    rw [Expr.chain_append]
    exact eval_of_none (evalChain_chain_none rest hends)
  · intro h
    induction links generalizing base with
    | nil => simp [Expr.chain]
    | cons link rest ih =>
      have hlink : eval scene (link.on base) s = (do link.follow scene (← eval scene base)) s :=
        eval_on fun front hfront => h front (Expr.optionalFronts_chain hfront rest)
      show eval scene ((link.on base).chain rest) s = _
      rw [ih (link.on base) h]
      simp only [List.foldlM_cons]
      rw [← bind_assoc, Action.run_bind, hlink, ← Action.run_bind]

/-- `user?.name(x = 1)` on null assigns nothing and calls nothing; `user?.name` on a user is the
name. -/
theorem eval_chain_user :
    let place : Span := .empty .start
    let user : Expr := .identifier place "user"
    let name : Link := .member place (.named "name") true
    let called : Link := .call place [.single (.assignment place .assign
      (.identifier place "x") (.literal place (.bool true)))]
    let scene : Scene := ⟨"", standardHost none, 0⟩
    let store : Value → Store := fun value => ⟨⟨[⟨[("user", value)], none⟩]⟩, []⟩
    let ada : Value := .object [("name", .string "Ada")]
    eval scene user (store .null) = (.ok .null, store .null) ∧
      eval scene (user.chain [name, called]) (store .null) = (.ok .null, store .null) ∧
      (user.chain [name]).optionalFronts = [user] ∧
      eval scene user (store ada) = (.ok ada, store ada) ∧
      eval scene (user.chain [name]) (store ada) = (.ok (.string "Ada"), store ada) := by
  intro place user name called scene store ada
  have hnull : eval scene user (store .null) = (.ok .null, store .null) := by rfl
  have hada : eval scene user (store ada) = (.ok ada, store ada) := by rfl
  have hfronts : (user.chain [name]).optionalFronts = [user] := by rfl
  have hends := (eval_chain scene user [name, called] (store .null)).1 [] name [called] _ rfl rfl
    hnull
  have hfollows := (eval_chain scene user [name] (store ada)).2 fun front hfront t hrun => by
    rw [hfronts, List.mem_singleton] at hfront
    rw [hfront, hada] at hrun
    exact absurd (Outcome.ok_eq_ok.mp hrun).1 (by simp [ada])
  exact ⟨hnull, hends, hfronts, hada, hfollows.trans rfl⟩

end PromptTemplate
