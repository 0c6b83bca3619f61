import GuestGate.Member
import GuestGate.Policy.Access
import GuestGate.Policy.Rewriter

/-!
# The policy tree

A policy is a tree of named nodes: namespaces, the types in them, and their
members.  A member is looked up by walking down, and a denial anywhere on the
way is final.
-/

namespace GuestGate

/-! ## Nodes by name -/

/-- Values by name, in name order. -/
inductive NodeMap (α : Type)
  | nil
  | cons (name : String) (value : α) (rest : NodeMap α)

namespace NodeMap

variable {α : Type}

def isEmpty : NodeMap α → Bool
  | nil => true
  | cons .. => false

def toList : NodeMap α → List (String × α)
  | nil => []
  | cons name value rest => (name, value) :: rest.toList

def find? (key : String) : NodeMap α → Option α
  | nil => none
  | cons name value rest => if key = name then some value else rest.find? key

/-- Put a value under a name, in place of the one that is there. -/
def insert (key : String) (new : α) : NodeMap α → NodeMap α
  | nil => cons key new nil
  | cons name value rest =>
      match compare key name with
      | .lt => cons key new (cons name value rest)
      | .eq => cons key new rest
      | .gt => cons name value (rest.insert key new)

@[simp]
theorem find?_nil (key : String) : (nil : NodeMap α).find? key = none := rfl

theorem find?_insert (map : NodeMap α) (key other : String) (new : α) :
    (map.insert key new).find? other = if key = other then some new else map.find? other := by
  induction map with
  | nil => simp [insert, find?, eq_comm]
  | cons name value rest ih =>
      rw [insert]
      split
      · simp [find?, eq_comm]
      · next heq =>
        obtain rfl := Std.LawfulEqOrd.eq_of_compare heq
        by_cases h : key = other <;> simp [find?, h, eq_comm]
      · next hgt =>
        have hne : key ≠ name := by
          rintro rfl
          simp at hgt
        rw [find?, find?, ih]
        by_cases h : key = other
        · subst h
          simp [hne]
        · simp [h]

end NodeMap

/-! ## Nodes -/

/-- A namespace, a type or a member.  Rules attach a rewriter to members only. -/
structure PolicyNode where
  access : AccessLevel
  rewriter : Option Rewriter := none
  children : NodeMap PolicyNode := .nil

structure PolicyTree where
  namespaces : NodeMap PolicyNode
  surfaceVersion : String

mutual

/-- The nodes below a node by their names, each before those below it. -/
def PolicyNode.descendants : PolicyNode → List (String × PolicyNode)
  | ⟨_, _, children⟩ => children.nodes
termination_by structural node => node

def NodeMap.nodes : NodeMap PolicyNode → List (String × PolicyNode)
  | .nil => []
  | .cons name node rest => (name, node) :: (node.descendants ++ rest.nodes)
termination_by structural map => map

end

/-! ## Answers -/

inductive DenyReason
  /-- The namespace is not in the tree, or it has no rules at all. -/
  | notListed
  /-- A node on the way is denied. -/
  | explicit
  /-- An undecided node has no rule for the name below. -/
  | neutralWithoutRule
deriving DecidableEq, Repr

inductive Decision
  | allowed (rewriter : Option Rewriter)
  | denied (reason : DenyReason)

namespace Decision

def isAllowed : Decision → Bool
  | allowed _ => true
  | denied _ => false

def access : Decision → AccessLevel
  | allowed _ => .allowed
  | denied _ => .denied

def rewriter? : Decision → Option Rewriter
  | allowed rewriter => rewriter
  | denied _ => none

def reason? : Decision → Option DenyReason
  | allowed _ => none
  | denied reason => some reason

end Decision

namespace PolicyNode

/-- The answer of a node for the names below it.  One that is undecided and has no
node for the next name denies it for the reason that is given. -/
def decide (node : PolicyNode) (unlisted : DenyReason) : List String → Decision
  | [] =>
      match node.access with
      | .denied => .denied .explicit
      | .neutral => .denied .neutralWithoutRule
      | .allowed => .allowed node.rewriter
  | name :: rest =>
      match node.access, node.children.find? name with
      | .denied, _ => .denied .explicit
      | _, some child => child.decide .neutralWithoutRule rest
      | .neutral, none => .denied unlisted
      | .allowed, none => .allowed none

def unlistedReason (node : PolicyNode) : DenyReason :=
  if node.children.isEmpty then .notListed else .neutralWithoutRule

/-- The node at the end of a path that starts at this one. -/
def at? (node : PolicyNode) : List String → Option PolicyNode
  | [] => some node
  | name :: rest => (node.children.find? name).bind (·.at? rest)

end PolicyNode

def NodeMap.at? (map : NodeMap PolicyNode) : List String → Option PolicyNode
  | [] => none
  | name :: rest => (map.find? name).bind (·.at? rest)

/-- What a listing shows of a node: its access, its rewriter and the names and
access levels right below it. -/
structure NodeSummary where
  access : AccessLevel
  rewriter : Option Rewriter
  children : List (String × AccessLevel)

def PolicyNode.summary (node : PolicyNode) : NodeSummary where
  access := node.access
  rewriter := node.rewriter
  children := node.children.toList.map fun child ↦ (child.1, child.2.access)

namespace PolicyTree

def resolve (tree : PolicyTree) (member : MemberRef) : Decision :=
  match tree.namespaces.find? member.namespaceName with
  | none => .denied .notListed
  | some node => node.decide node.unlistedReason [member.typeName, member.name]

def nodeNames (tree : PolicyTree) : List String :=
  tree.namespaces.nodes.map Prod.fst

def nodeCount (tree : PolicyTree) : Nat :=
  tree.namespaces.nodes.length

def nodeAt? (tree : PolicyTree) (path : List String) : Option PolicyNode :=
  tree.namespaces.at? path

def node? (tree : PolicyTree) (path : List String) : Option NodeSummary :=
  (tree.nodeAt? path).map PolicyNode.summary

end PolicyTree

/-! ## Listings -/

namespace PolicyTree

/-- One line of a listing: the name and access of a node, indented by its
depth, and its rewriter in brackets. -/
def line (depth : Nat) (name : String) (access : AccessLevel) (rewriter : Option Rewriter) :
    String :=
  String.ofList (List.replicate (2 * depth) ' ') ++ name ++ ": " ++ access.name ++
    (match rewriter with
      | some r => " [" ++ r.name ++ "]"
      | none => "") ++ "\n"

def listedName (name : String) : String :=
  if name = "" then "<global>" else name

end PolicyTree

mutual

def PolicyNode.lines (depth : Nat) (name : String) : PolicyNode → List String
  | ⟨access, rewriter, children⟩ =>
      PolicyTree.line depth name access rewriter :: children.lines (depth + 1)
termination_by structural node => node

def NodeMap.lines (depth : Nat) : NodeMap PolicyNode → List String
  | .nil => []
  | .cons name node rest => node.lines depth name ++ rest.lines depth
termination_by structural map => map

end

/-- All nodes in name order, one line for each. -/
def PolicyTree.describe (tree : PolicyTree) : String :=
  String.join (tree.namespaces.toList.flatMap fun entry ↦
    entry.2.lines 0 (PolicyTree.listedName entry.1))

/-! ## Comparison -/

mutual

/-- Nodes are the same when their access, the names of their rewriters and the
nodes below them are. -/
def PolicyNode.same : PolicyNode → PolicyNode → Bool
  | ⟨access, rewriter, children⟩, other =>
      access == other.access && rewriter.map Rewriter.name == other.rewriter.map Rewriter.name &&
        children.same other.children
termination_by structural node => node

def NodeMap.same : NodeMap PolicyNode → NodeMap PolicyNode → Bool
  | .nil, .nil => true
  | .cons name node rest, .cons name' node' rest' =>
      name == name' && node.same node' && rest.same rest'
  | _, _ => false
termination_by structural map => map

end

/-- Policies are compared node by node and by the version of their surface. -/
instance : BEq PolicyTree where
  beq a b := a.namespaces.same b.namespaces && a.surfaceVersion == b.surfaceVersion

end GuestGate
