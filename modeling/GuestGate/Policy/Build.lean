import GuestGate.Policy.Rule
import GuestGate.Policy.Tree

/-!
# Building a policy

Rules are merged into a tree one by one.  Every rule is checked against the
surface and against the rules before it, and the first that fails is reported.
-/

namespace GuestGate

/-- Why a list of rules is not a policy. -/
inductive BuildError
  /-- A rule names a type that the surface does not export. -/
  | unknownType (path : String)
  /-- A rule names a member that the type does not have. -/
  | unknownMember (path : String) (member : String)
  /-- Two rules for one node disagree. -/
  | conflictingAccess (path : String)
  /-- A denied node has a child that is not denied. -/
  | widenedDenial (path : String)
  /-- A rewriter stands at a member that is not allowed. -/
  | rewriterOnDenied (path : String)
deriving DecidableEq, Repr

def BuildError.message : BuildError → String
  | unknownType path => "policy names unknown type `" ++ path ++ "`"
  | unknownMember path member =>
      "policy names unknown member `" ++ path ++ "::" ++ member ++ "`"
  | conflictingAccess path => "conflicting access for `" ++ path ++ "`"
  | widenedDenial path => "`" ++ path ++ "` is denied but declares allowed children"
  | rewriterOnDenied path => "rewriter attached to non-allowed member `" ++ path ++ "`"

namespace PolicyTree

def require (condition : Prop) [Decidable condition] (error : BuildError) :
    Except BuildError Unit :=
  if condition then .ok () else .error error

/-- The rewriter of a member after another rule for it.  The later one stays,
but only in place of one of its own kind. -/
def mergeRewriter (path : String) (before after : Option Rewriter) :
    Except BuildError (Option Rewriter) :=
  match before, after with
  | before, none => .ok before
  | none, some r => .ok (some r)
  | some old, some r =>
      if old.name = r.name then .ok (some r) else .error (.conflictingAccess path)

/-- The node of a name after another rule for it: the one that is there, or a new
one with the access of the rule. -/
def merge (map : NodeMap PolicyNode) (name : String) (access : AccessLevel)
    (rewriter : Option Rewriter) (path : String) : Except BuildError PolicyNode := do
  let old := (map.find? name).getD { access }
  require (old.access = access) (.conflictingAccess path)
  let rewriter ← mergeRewriter path old.rewriter rewriter
  return { old with rewriter }

def addMember (s : Surface) (path : String) (row : Option Nat) (rule : TypeRule)
    (node : PolicyNode) (member : MemberRule) : Except BuildError PolicyNode := do
  let memberPath := path ++ "::" ++ member.name
  require (rule.generated ∨ row.any (s.hasMember · member.name))
    (.unknownMember path member.name)
  require (rule.access = .denied → member.access = .denied) (.widenedDenial path)
  require (member.rewriter.isSome → member.access = .allowed) (.rewriterOnDenied memberPath)
  let new ← merge node.children member.name member.access member.rewriter memberPath
  return { node with children := node.children.insert member.name new }

def addType (s : Surface) (rule : NamespaceRule) (node : PolicyNode) (type : TypeRule) :
    Except BuildError PolicyNode := do
  let path := joinTypePath rule.name type.name
  let row := s.find? rule.name type.name
  require (type.generated ∨ row.isSome) (.unknownType path)
  require (rule.access = .denied → type.access = .denied) (.widenedDenial rule.name)
  let old ← merge node.children type.name type.access none path
  let new ← type.members.foldlM (addMember s path row type) old
  return { node with children := node.children.insert type.name new }

def addNamespace (s : Surface) (namespaces : NodeMap PolicyNode) (rule : NamespaceRule) :
    Except BuildError (NodeMap PolicyNode) := do
  let old ← merge namespaces rule.name rule.access none rule.name
  let new ← rule.types.foldlM (addType s rule) old
  return namespaces.insert rule.name new

def ofRules (s : Surface) (rules : List NamespaceRule) : Except BuildError PolicyTree := do
  let namespaces ← rules.foldlM (addNamespace s) .nil
  return ⟨namespaces, s.version⟩

def build (s : Surface) (rules : List PolicyRule) : Except BuildError PolicyTree :=
  ofRules s (rules.map (PolicyRule.toNamespaceRule s))

end PolicyTree

end GuestGate
