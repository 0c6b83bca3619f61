import GuestGate.Surface.Basic

/-!
# The bundled surface

The types of the standard library, of the runtime of the lab and of the
language support libraries that come with the service.
-/

namespace GuestGate.Surface

open TypeEntry

private def propertyEntry (p : String × String) : PropertyEntry := ⟨p.1, p.2⟩

private def methodEntry (m : String × String) : MethodEntry := ⟨m.1, m.2⟩

private def root (namespaceName name : String) (properties methods : List (String × String)) :
    TypeEntry :=
  { namespaceName, name
    properties := properties.map propertyEntry
    methods := methods.map methodEntry }

private def derived (namespaceName name base : String)
    (properties methods : List (String × String)) : TypeEntry :=
  { root namespaceName name properties methods with base := some base }

private def value (namespaceName name : String) (methods : List (String × String)) : TypeEntry :=
  { root namespaceName name [] methods with kind := .structType }

private def interface (namespaceName name : String) (methods : List (String × String)) :
    TypeEntry :=
  { root namespaceName name [] methods with kind := .interfaceType }

private def enumeration (namespaceName name : String) : TypeEntry :=
  { root namespaceName name [] [] with kind := .enumType }

def systemTypes : List TypeEntry :=
  [
    root "System" "Object" []
      [("ToString", "System.String"), ("Equals", "System.Boolean"),
       ("GetHashCode", "System.Int32"), ("GetType", "System.Type")],
    derived "System" "Console" "System.Object"
      [("Out", "System.IO.TextWriter"), ("Error", "System.IO.TextWriter"),
       ("In", "System.IO.TextReader")]
      [("Write", "System.Void"), ("WriteLine", "System.Void"),
       ("ReadLine", "System.String"), ("Beep", "System.Void"), ("SetOut", "System.Void")],
    derived "System" "STAThreadAttribute" "System.Object" [] [],
    derived "System" "String" "System.Object"
      [("Length", "System.Int32")]
      [("Concat", "System.String"), ("Format", "System.String"),
       ("Join", "System.String"), ("Substring", "System.String"),
       ("Contains", "System.Boolean"), ("Replace", "System.String"),
       ("ToUpperInvariant", "System.String"), ("ToLowerInvariant", "System.String"),
       ("PadLeft", "System.String"), ("Intern", "System.String")],
    value "System" "Int32" [("ToString", "System.String"), ("Parse", "System.Int32")],
    value "System" "Int64" [("ToString", "System.String"), ("Parse", "System.Int64")],
    value "System" "Boolean" [("ToString", "System.String")],
    value "System" "Double" [("ToString", "System.String")],
    value "System" "Char" [("IsDigit", "System.Boolean")],
    derived "System" "Math" "System.Object" []
      [("Abs", "System.Int32"), ("Max", "System.Int32"), ("Min", "System.Int32"),
       ("Sqrt", "System.Double")],
    derived "System" "Environment" "System.Object"
      [("MachineName", "System.String")]
      [("Exit", "System.Void"), ("GetEnvironmentVariable", "System.String")],
    derived "System" "Type" "System.Reflection.MemberInfo"
      [("FullName", "System.String"), ("TypeHandle", "System.RuntimeTypeHandle"),
       ("BaseType", "System.Type")]
      [("GetMethod", "System.Reflection.MethodInfo"),
       ("GetMethods", "System.Reflection.MethodInfo[]"),
       ("GetProperty", "System.Reflection.PropertyInfo"),
       ("GetField", "System.Reflection.FieldInfo"), ("MakeGenericType", "System.Type"),
       ("InvokeMember", "System.Object")]
  ]

def ioTypes : List TypeEntry :=
  [
    derived "System.IO" "TextWriter" "System.Object" []
      [("Write", "System.Void"), ("WriteLine", "System.Void"), ("Flush", "System.Void")],
    derived "System.IO" "File" "System.Object" []
      [("ReadAllText", "System.String"), ("WriteAllText", "System.Void"),
       ("Delete", "System.Void")]
  ]

def threadingTypes : List TypeEntry :=
  [
    derived "System.Threading" "Thread" "System.Object"
      [("CurrentThread", "System.Threading.Thread")]
      [("Sleep", "System.Void"), ("Start", "System.Void"), ("Abort", "System.Void")]
  ]

def linqTypes : List TypeEntry :=
  [
    derived "System.Linq" "Enumerable" "System.Object" []
      [("Sum", "System.Int64"), ("Count", "System.Int32"),
       ("Select", "System.Collections.Generic.IEnumerable`1"),
       ("Where", "System.Collections.Generic.IEnumerable`1"),
       ("Range", "System.Collections.Generic.IEnumerable`1"),
       ("Repeat", "System.Collections.Generic.IEnumerable`1")]
  ]

def reflectionTypes : List TypeEntry :=
  [
    derived "System.Reflection" "MemberInfo" "System.Object"
      [("Name", "System.String"), ("DeclaringType", "System.Type"),
       ("MemberType", "System.Reflection.MemberTypes"),
       ("Module", "System.Reflection.Module"), ("MetadataToken", "System.Int32")]
      [("GetCustomAttributes", "System.Object[]"), ("IsDefined", "System.Boolean")],
    derived "System.Reflection" "MethodBase" "System.Reflection.MemberInfo"
      [("Attributes", "System.Reflection.MethodAttributes"),
       ("IsStatic", "System.Boolean"), ("IsPublic", "System.Boolean"),
       ("MethodHandle", "System.RuntimeMethodHandle"),
       ("CallingConvention", "System.Reflection.CallingConventions")]
      [("GetParameters", "System.Reflection.ParameterInfo[]"),
       ("Invoke", "System.Object"), ("GetMethodBody", "System.Reflection.MethodBody")],
    derived "System.Reflection" "MethodInfo" "System.Reflection.MethodBase"
      [("ReturnType", "System.Type"),
       ("ReturnParameter", "System.Reflection.ParameterInfo")]
      [("GetBaseDefinition", "System.Reflection.MethodInfo"),
       ("GetGenericMethodDefinition", "System.Reflection.MethodInfo"),
       ("MakeGenericMethod", "System.Reflection.MethodInfo"),
       ("CreateDelegate", "System.Delegate")],
    derived "System.Reflection" "ConstructorInfo" "System.Reflection.MethodBase" [] [],
    derived "System.Reflection" "FieldInfo" "System.Reflection.MemberInfo"
      [("FieldType", "System.Type"), ("IsStatic", "System.Boolean"),
       ("FieldHandle", "System.RuntimeFieldHandle")]
      [("GetValue", "System.Object"), ("SetValue", "System.Void")],
    derived "System.Reflection" "PropertyInfo" "System.Reflection.MemberInfo"
      [("PropertyType", "System.Type"), ("CanRead", "System.Boolean"),
       ("CanWrite", "System.Boolean")]
      [("GetGetMethod", "System.Reflection.MethodInfo"),
       ("GetSetMethod", "System.Reflection.MethodInfo"), ("GetValue", "System.Object"),
       ("SetValue", "System.Void")],
    derived "System.Reflection" "EventInfo" "System.Reflection.MemberInfo"
      [("EventHandlerType", "System.Type")]
      [("GetAddMethod", "System.Reflection.MethodInfo"),
       ("AddEventHandler", "System.Void")],
    derived "System.Reflection" "TypeInfo" "System.Type"
      [("DeclaredMethods", "System.Collections.Generic.IEnumerable`1")]
      [("GetDeclaredMethod", "System.Reflection.MethodInfo"),
       ("GetDeclaredField", "System.Reflection.FieldInfo"), ("AsType", "System.Type")],
    derived "System.Reflection" "Assembly" "System.Object"
      [("FullName", "System.String")]
      [("GetType", "System.Type"), ("Load", "System.Reflection.Assembly"),
       ("CreateInstance", "System.Object")],
    derived "System.Reflection" "ParameterInfo" "System.Object"
      [("Name", "System.String"), ("ParameterType", "System.Type")] [],
    enumeration "System.Reflection" "BindingFlags",
    enumeration "System.Reflection" "MemberTypes",
    enumeration "System.Reflection" "MethodAttributes",
    enumeration "System.Reflection" "FieldAttributes",
    enumeration "System.Reflection" "CallingConventions",
    interface "System.Reflection" "ICustomAttributeProvider" [("GetCustomAttributes", "System.Object[]")]
  ]

def expressionTypes : List TypeEntry :=
  [
    derived "System.Linq.Expressions" "Expression" "System.Object"
      [("NodeType", "System.Linq.Expressions.ExpressionType"), ("Type", "System.Type")]
      [("Constant", "System.Linq.Expressions.ConstantExpression"),
       ("Parameter", "System.Linq.Expressions.ParameterExpression"),
       ("Add", "System.Linq.Expressions.BinaryExpression"),
       ("Call", "System.Linq.Expressions.MethodCallExpression"),
       ("Lambda", "System.Linq.Expressions.LambdaExpression"),
       ("Reduce", "System.Linq.Expressions.Expression")],
    derived "System.Linq.Expressions" "LambdaExpression" "System.Linq.Expressions.Expression"
      [("Body", "System.Linq.Expressions.Expression"),
       ("Parameters", "System.Collections.ObjectModel.ReadOnlyCollection`1")]
      [("Compile", "System.Delegate"), ("CompileToMethod", "System.Void")],
    derived "System.Linq.Expressions" "Expression`1" "System.Linq.Expressions.LambdaExpression" []
      [("Compile", "System.Delegate"), ("Update", "System.Linq.Expressions.Expression`1")],
    derived "System.Linq.Expressions" "BinaryExpression" "System.Linq.Expressions.Expression"
      [("Left", "System.Linq.Expressions.Expression"),
       ("Right", "System.Linq.Expressions.Expression")] [],
    derived "System.Linq.Expressions" "ConstantExpression" "System.Linq.Expressions.Expression"
      [("Value", "System.Object")] [],
    derived "System.Linq.Expressions" "ParameterExpression" "System.Linq.Expressions.Expression"
      [("Name", "System.String")] [],
    derived "System.Linq.Expressions" "MethodCallExpression" "System.Linq.Expressions.Expression"
      [("Method", "System.Reflection.MethodInfo")] [],
    derived "System.Linq.Expressions" "UnaryExpression" "System.Linq.Expressions.Expression"
      [("Operand", "System.Linq.Expressions.Expression")] [],
    derived "System.Linq.Expressions" "ExpressionVisitor" "System.Object" []
      [("Visit", "System.Linq.Expressions.Expression")],
    enumeration "System.Linq.Expressions" "ExpressionType"
  ]

def labTypes : List TypeEntry :=
  [
    derived "CodeLab.Runtime.Internal" "Flow" "System.Object" []
      [("ReportLineStart", "System.Void"), ("ReportValue", "System.Void"),
       ("ReportException", "System.Void")]
  ]

def globalTypes : List TypeEntry :=
  [
    derived "" "CodeLabObjectExtensions" "System.Object" []
      [("Inspect", "System.Void"), ("Dump", "System.Object")]
  ]

def fsharpCoreTypes : List TypeEntry :=
  [
    derived "Microsoft.FSharp.Core" "CompilationArgumentCountsAttribute" "System.Object" [] [],
    derived "Microsoft.FSharp.Core" "CompilationMappingAttribute" "System.Object" [] [],
    derived "Microsoft.FSharp.Core" "EntryPointAttribute" "System.Object" [] [],
    derived "Microsoft.FSharp.Core" "ExtraTopLevelOperators" "System.Object" []
      [("CreateDictionary", "System.Collections.Generic.IDictionary`2"),
       ("CreateSet", "Microsoft.FSharp.Collections.FSharpSet`1"),
       ("LazyPattern", "System.Object"), ("PrintFormat", "System.Object"),
       ("PrintFormatLine", "System.Object"), ("PrintFormatToTextWriter", "System.Object"),
       ("PrintFormatLineToTextWriter", "System.Object"),
       ("PrintFormatToString", "System.Object"), ("SpliceExpression", "System.Object"),
       ("SpliceUntypedExpression", "System.Object"), ("ToByte", "System.Byte"),
       ("ToDouble", "System.Double"), ("ToSByte", "System.SByte"),
       ("ToSingle", "System.Single"), ("DefaultAsyncBuilder", "System.Object")],
    derived "Microsoft.FSharp.Core" "ExtraTopLevelOperators+Checked" "System.Object" [] [],
    derived "Microsoft.FSharp.Core" "FSharpChoice`2" "System.Object" [] [],
    derived "Microsoft.FSharp.Core" "FSharpFunc`2" "System.Object" []
      [("Invoke", "System.Object")],
    derived "Microsoft.FSharp.Core" "FSharpOption`1" "System.Object"
      [("Value", "System.Object")] [],
    derived "Microsoft.FSharp.Core" "OptimizedClosures+FSharpFunc`3" "System.Object" [] [],
    derived "Microsoft.FSharp.Core" "OptimizedClosures+FSharpFunc`4" "System.Object" [] [],
    derived "Microsoft.FSharp.Core" "OptimizedClosures+FSharpFunc`5" "System.Object" [] [],
    derived "Microsoft.FSharp.Core" "Operators" "System.Object" []
      [("ConsoleError", "System.IO.TextWriter"), ("ConsoleIn", "System.IO.TextReader"),
       ("ConsoleOut", "System.IO.TextWriter"), ("Lock", "System.Object"),
       ("Raise", "System.Object"), ("Ignore", "System.Void"),
       ("op_Addition", "System.Object")],
    derived "Microsoft.FSharp.Core" "PrintfFormat`4" "System.Object" [] [],
    derived "Microsoft.FSharp.Core" "PrintfFormat`5" "System.Object" [] [],
    derived "Microsoft.FSharp.Core" "PrintfModule" "System.Object" []
      [("PrintFormat", "System.Object"), ("PrintFormatLine", "System.Object"),
       ("PrintFormatToTextWriter", "System.Object"),
       ("PrintFormatLineToTextWriter", "System.Object"),
       ("PrintFormatToStringThen", "System.Object")],
    derived "Microsoft.FSharp.Core" "Unit" "System.Object" [] []
  ]

def fsharpCollectionTypes : List TypeEntry :=
  [
    derived "Microsoft.FSharp.Collections" "FSharpList`1" "System.Object"
      [("Head", "System.Object"), ("Tail", "Microsoft.FSharp.Collections.FSharpList`1")]
      [("Cons", "Microsoft.FSharp.Collections.FSharpList`1")]
  ]

def visualBasicTypes : List TypeEntry :=
  [
    derived "Microsoft.VisualBasic.CompilerServices" "StandardModuleAttribute" "System.Object" [] []
  ]

def bundledVersion : String := "netstandard2.0+fsharp4.5+codelab1"

/-- The surface that comes with the service. -/
def bundled : Surface where
  version := bundledVersion
  types :=
    systemTypes ++ ioTypes ++ threadingTypes ++ linqTypes ++
      reflectionTypes ++ expressionTypes ++ labTypes ++ globalTypes ++
      fsharpCoreTypes ++ fsharpCollectionTypes ++ visualBasicTypes

end GuestGate.Surface
