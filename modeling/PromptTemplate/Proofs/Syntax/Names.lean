import PromptTemplate.Node

/-!
# The variables that a document names

The names of the identifiers in an expression, those that its assignments and
updates start from among them, in the order in which they are written; and the
same of documents. What a loop declares is a name only where it is used.

The targets of the assignments and updates in an expression are found however
deep they are in it: in arguments, keys, spreads, and in the keys of other
targets. A target writes to the variable at its root.
-/

namespace PromptTemplate

mutual

def Expr.names : Expr → List String
  | .literal .. => []
  | .identifier _ name => [name]
  | .member _ object property _ => object.names ++ property.names
  | .array _ elements => Element.namesAll elements
  | .object _ entries => Entry.namesAll entries
  | .call _ callee arguments => callee.names ++ Element.namesAll arguments
  | .unary _ _ operand => operand.names
  | .binary _ _ left right => left.names ++ right.names
  | .conditional _ test consequent alternate =>
    test.names ++ consequent.names ++ alternate.names
  | .assignment _ _ target value => target.names ++ value.names
  | .update _ _ _ target => target.names

def Property.names : Property → List String
  | .named _ => []
  | .computed key => key.names

def Element.namesAll : List Element → List String
  | [] => []
  | .single value :: rest | .spread value :: rest => value.names ++ Element.namesAll rest

def Entry.namesAll : List Entry → List String
  | [] => []
  | .named _ value :: rest | .spread value :: rest => value.names ++ Entry.namesAll rest
  | .computed key value :: rest => key.names ++ value.names ++ Entry.namesAll rest

end

def AttributeValue.names : AttributeValue → List String
  | .flag | .literal _ => []
  | .expression value => value.names

def Tag.names (tag : Tag) : List String := tag.attributes.flatMap (·.value.names)

mutual

def Node.names : Node → List String
  | .config .. | .text .. => []
  | .mustache _ value => value.names
  | .ifBlock _ condition consequent alternates =>
    condition.names ++ Node.namesAll consequent ++ Alternate.namesAll alternates
  | .eachBlock _ iterable _ _ body fallback =>
    iterable.names ++ Node.namesAll body ++ Node.namesFallback fallback
  | .tag head children => head.names ++ Node.namesAll children

def Node.namesAll : List Node → List String
  | [] => []
  | node :: rest => node.names ++ Node.namesAll rest

def Alternate.namesAll : List Alternate → List String
  | [] => []
  | .elseIf condition body :: rest =>
    condition.names ++ Node.namesAll body ++ Alternate.namesAll rest
  | .otherwise body :: rest => Node.namesAll body ++ Alternate.namesAll rest

def Node.namesFallback : Option (List Node) → List String
  | none => []
  | some body => Node.namesAll body

end

mutual

/-- The node is or contains a reference. -/
def Node.refers : Node → Bool
  | .config .. | .text .. | .mustache .. => false
  | .ifBlock _ _ consequent alternates =>
    Node.anyRefers consequent || Alternate.anyRefers alternates
  | .eachBlock _ _ _ _ body fallback => Node.anyRefers body || Node.fallbackRefers fallback
  | .tag head children => head.kind = .reference || Node.anyRefers children

def Node.anyRefers : List Node → Bool
  | [] => false
  | node :: rest => node.refers || Node.anyRefers rest

def Alternate.anyRefers : List Alternate → Bool
  | [] => false
  | .elseIf _ body :: rest | .otherwise body :: rest =>
    Node.anyRefers body || Alternate.anyRefers rest

def Node.fallbackRefers : Option (List Node) → Bool
  | none => false
  | some body => Node.anyRefers body

end

def Document.names (document : Document) : List String := Node.namesAll document.nodes

def Document.refers (document : Document) : Bool := Node.anyRefers document.nodes

-- ---------------------------------------------------------------------------
-- Targets
-- ---------------------------------------------------------------------------

/-- The variable that a target starts from. Only variables and members of targets are targets. -/
def Expr.root? : Expr → Option String
  | .identifier _ name => some name
  | .member _ base _ _ => base.root?
  | .literal .. | .array .. | .object .. | .call .. | .unary .. | .binary .. | .conditional ..
  | .assignment .. | .update .. => none

/-- Where an expression writes, and whether it is by plain assignment. -/
structure Target where
  place : Expr
  isPlain : Bool

/-- The variable that writing to the target may make. -/
def Target.declares? : Target → Option String
  | ⟨.identifier _ name, true⟩ => some name
  | _ => none

mutual

def Expr.targets : Expr → List Target
  | .literal .. | .identifier .. => []
  | .member _ object property _ => object.targets ++ property.targets
  | .array _ elements => Element.targetsAll elements
  | .object _ entries => Entry.targetsAll entries
  | .call _ callee arguments => callee.targets ++ Element.targetsAll arguments
  | .unary _ _ operand => operand.targets
  | .binary _ _ left right => left.targets ++ right.targets
  | .conditional _ test consequent alternate =>
    test.targets ++ consequent.targets ++ alternate.targets
  | .assignment _ op place value =>
    ⟨place, op = .assign⟩ :: place.targets ++ value.targets
  | .update _ _ _ place => ⟨place, false⟩ :: place.targets

def Property.targets : Property → List Target
  | .named _ => []
  | .computed key => key.targets

def Element.targetsAll : List Element → List Target
  | [] => []
  | .single value :: rest | .spread value :: rest => value.targets ++ Element.targetsAll rest

def Entry.targetsAll : List Entry → List Target
  | [] => []
  | .named _ value :: rest | .spread value :: rest => value.targets ++ Entry.targetsAll rest
  | .computed key value :: rest => key.targets ++ value.targets ++ Entry.targetsAll rest

end

namespace Expr

/-- The variables that the expression may give another value. -/
def assigned (e : Expr) : List String := e.targets.filterMap (·.place.root?)

/-- The variables that the expression may make. -/
def declared (e : Expr) : List String := e.targets.filterMap Target.declares?

/-- The variable that a target starts from is one of the names in it. -/
theorem mem_names_of_root? : {e : Expr} → {name : String} → e.root? = some name → name ∈ e.names
  | .identifier _ _, name, h => by
    simp only [root?, Option.some.injEq] at h
    exact List.mem_singleton.mpr h.symm
  | .member _ base _ _, name, h => by
    simp only [root?] at h
    exact List.mem_append_left _ (mem_names_of_root? h)

end Expr

end PromptTemplate
