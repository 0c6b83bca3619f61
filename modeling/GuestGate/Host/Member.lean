import GuestGate.CallSite
import GuestGate.Guest.Module

/-!
# Host members

The nine library members that the host itself offers to guests, the shapes of
their parameters, and their types as a guest imports them.
-/

namespace GuestGate

inductive HostMember
  | write
  | writeLine
  | reportLineStart
  | reportValue
  | reportException
  | sum
  | count
  | createSet
  | sleep
deriving DecidableEq, Repr

namespace HostMember

def all : List HostMember :=
  [write, writeLine, reportLineStart, reportValue, reportException, sum, count, createSet, sleep]

def typePath : HostMember → String
  | write | writeLine => "System.Console"
  | reportLineStart | reportValue | reportException => "CodeLab.Runtime.Internal.Flow"
  | sum | count => "System.Linq.Enumerable"
  | createSet => "Microsoft.FSharp.Core.ExtraTopLevelOperators"
  | sleep => "System.Threading.Thread"

def name : HostMember → String
  | write => "Write"
  | writeLine => "WriteLine"
  | reportLineStart => "ReportLineStart"
  | reportValue => "ReportValue"
  | reportException => "ReportException"
  | sum => "Sum"
  | count => "Count"
  | createSet => "CreateSet"
  | sleep => "Sleep"

def shapes : HostMember → List ParamShape
  | write | writeLine | reportLineStart => [.value]
  | reportException => [.value, .value]
  | reportValue => [.value, .value, .value]
  | sum | count | createSet => [.sequence]
  | sleep => [.count]

/-- The type of a member as a guest imports it.  Text is passed as an address
and a length, a sequence by its number. -/
def externType : HostMember → ExternType
  | write | writeLine => .func [.i32, .i32] none
  | reportLineStart | sleep => .func [.i32] none
  | reportValue => .func [.i32, .i32, .i32, .i32, .i32] none
  | reportException => .func [.i32, .i32, .i32] none
  | sum => .func [.i32] (some .i64)
  | count | createSet => .func [.i32] (some .i32)

def ofMember? (m : MemberRef) : Option HostMember :=
  all.find? fun host ↦ host.typePath == m.typePath && host.name == m.name

def toImport (host : HostMember) : Import :=
  ⟨host.typePath, host.name, host.externType⟩

end HostMember

/-- The call site that an import stands for: the shapes of a host member, or
one plain value for each parameter. -/
def Import.callSite (i : Import) : CallSite where
  member := i.member
  parameters :=
    match HostMember.ofMember? i.member with
    | some host => host.shapes
    | none => List.replicate i.type.parameterCount .value

end GuestGate
