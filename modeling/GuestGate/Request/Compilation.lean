import GuestGate.Host.Basic
import GuestGate.Session.Basic

/-!
# Compilations

A compiler turns the text of a session into a program and diagnostics.  The
one for module text leaves the text as it is and describes its imports.
-/

namespace GuestGate

/-- What a compiler makes of a session. -/
structure Compilation where
  assembly : Option (Assembly Streams) := none
  diagnostics : List Diagnostic := []
  /-- Whether the session was cancelled while it was compiled. -/
  cancelled : Bool := false

/-- A compiler.  It may compile modules on the host, if there is one, which it
gives back. -/
abbrev Compiler : Type := Session → Option Host → Option Host × Compilation

namespace Compiler

def fixed (compilation : Compilation) : Compiler :=
  fun _ host ↦ (host, compilation)

def invalidModuleId : String := "WASM0001"

/-- The two names of an import as they are written next to each other, without
any escapes. -/
def importNames (member : MemberRef) : String :=
  "\"" ++ member.typePath ++ "\" \"" ++ member.name ++ "\""

/-- The first line of a text, counted from one, that contains a piece of
text. -/
def lineOf? (text piece : String) : Option Nat :=
  ((Text.lines text.toList).findIdx? fun line ↦ Text.occurs piece.toList line).map (· + 1)

def locate (text : String) (site : CallSite) : CallSite :=
  match lineOf? text (importNames site.member) with
  | some line => { site with line := some line }
  | none => site

/-- The compiler of module text. -/
def moduleText : Compiler := fun session host ↦
  let described := (host.getD (.new {})).describe (.ofText session.text)
  (host.map fun _ ↦ described.1,
    match described.2 with
    | .ok sites =>
        { assembly := some
            { streams := { binary := .ofText session.text }
              references := sites.map (locate session.text) } }
    | .error failure =>
        { diagnostics :=
            [{ severity := .error, id := invalidModuleId, message := failure.message }] })

end Compiler

end GuestGate
