import GuestGate.Policy.Build
import GuestGate.Surface.Bundled

/-!
# The bundled policy

The rules that apply to all guest programs: core types, console output, the
runtime of the lab, the language support libraries, and two families.
-/

namespace GuestGate

namespace PolicyRule

/-- The longest sleep a guest may ask for, in milliseconds. -/
def maxSleepMillis : Int := 1000

def typeRule (name : String) (access : AccessLevel)
    (members : List MemberRule := []) : TypeRule :=
  { name, access, members }

def permit (name : String) : MemberRule := ⟨name, .allowed, none⟩

def forbid (name : String) : MemberRule := ⟨name, .denied, none⟩

def permitBy (rewriter : ProvidedRewriter) (name : String) : MemberRule :=
  ⟨name, .allowed, some rewriter.toRewriter⟩

def neutralNamespace (name : String) (types : List TypeRule) : PolicyRule :=
  .explicit { name, access := .neutral, types }

def collect : String → MemberRule := permitBy (.collected Rewriter.defaultMaxItems)

def reflectionFamily : FamilyRule where
  namespaceName := "System.Reflection"
  root := "System.Reflection.MemberInfo"
  mode := .introspection

def expressionFamily : FamilyRule where
  namespaceName := "System.Linq.Expressions"
  root := "System.Linq.Expressions.Expression"
  mode := .denyDynamicCompilation

def safeDefaults : List PolicyRule :=
  [neutralNamespace "System"
    [typeRule "Object" .neutral (["ToString", "Equals", "GetHashCode"].map permit),
     typeRule "Int32" .allowed,
     typeRule "Int64" .allowed,
     typeRule "Boolean" .allowed,
     typeRule "Double" .allowed,
     typeRule "Char" .allowed,
     typeRule "Math" .allowed,
     typeRule "String" .allowed [forbid "Intern"]],
   neutralNamespace "System.Linq"
    [typeRule "Enumerable" .neutral
      [collect "Sum", collect "Count", permit "Select", permit "Where"]],
   neutralNamespace "System.Threading"
    [typeRule "Thread" .neutral [permitBy (.count maxSleepMillis) "Sleep"]]]

def functionalCore : List TypeRule :=
  [typeRule "CompilationArgumentCountsAttribute" .allowed,
   typeRule "CompilationMappingAttribute" .allowed,
   typeRule "EntryPointAttribute" .allowed,
   typeRule "ExtraTopLevelOperators" .neutral
    ([collect "CreateDictionary", collect "CreateSet"] ++
      ["LazyPattern", "PrintFormat", "PrintFormatLine", "PrintFormatToTextWriter",
       "PrintFormatLineToTextWriter", "PrintFormatToString", "SpliceExpression",
       "SpliceUntypedExpression", "ToByte", "ToDouble", "ToSByte", "ToSingle"].map permit),
   typeRule "ExtraTopLevelOperators+Checked" .allowed,
   typeRule "FSharpChoice`2" .allowed,
   typeRule "FSharpFunc`2" .allowed,
   typeRule "FSharpOption`1" .allowed,
   typeRule "OptimizedClosures+FSharpFunc`3" .allowed,
   typeRule "OptimizedClosures+FSharpFunc`4" .allowed,
   typeRule "OptimizedClosures+FSharpFunc`5" .allowed,
   typeRule "Operators" .allowed
    (["ConsoleError", "ConsoleIn", "ConsoleOut", "Lock"].map forbid),
   typeRule "PrintfFormat`4" .allowed,
   typeRule "PrintfFormat`5" .allowed,
   typeRule "PrintfModule" .neutral
    (["PrintFormat", "PrintFormatLine", "PrintFormatToTextWriter",
      "PrintFormatLineToTextWriter"].map permit),
   typeRule "Unit" .allowed]

def explicitRules : List PolicyRule :=
  [neutralNamespace "System"
    [typeRule "Console" .neutral
      [permit "Write", permit "WriteLine", permit (getterName "Out")],
     typeRule "STAThreadAttribute" .allowed],
   neutralNamespace "System.IO" [typeRule "TextWriter" .neutral],
   neutralNamespace "CodeLab.Runtime.Internal"
    [typeRule "Flow" .neutral
      (["ReportException", "ReportLineStart", "ReportValue"].map (permitBy .noGuard))],
   neutralNamespace "" [typeRule "CodeLabObjectExtensions" .allowed],
   neutralNamespace "Microsoft.FSharp.Core" functionalCore,
   neutralNamespace "Microsoft.FSharp.Collections" [typeRule "FSharpList`1" .allowed],
   neutralNamespace "Microsoft.VisualBasic.CompilerServices"
    [typeRule "StandardModuleAttribute" .allowed]]

def bundled : List PolicyRule :=
  [.family reflectionFamily, .family expressionFamily] ++ safeDefaults ++ explicitRules

end PolicyRule

namespace PolicyTree

def bundledOver (s : Surface) : Except BuildError PolicyTree :=
  build s PolicyRule.bundled

/-- The policy of the service.  The bundled rules fit the bundled surface, so
the empty policy that would stand in for them is never taken. -/
def global : PolicyTree :=
  match bundledOver Surface.bundled with
  | .ok tree => tree
  | .error _ => ⟨.nil, Surface.bundledVersion⟩

end PolicyTree

end GuestGate
