import GuestGate.Guest.Script
import GuestGate.Wat.Module

/-!
# Images

What a host can be given to run: bytes, or a guest that is still a script.
-/

namespace GuestGate

/-- A guest before it is compiled. -/
inductive Image
  | bytes (content : List UInt8)
  | script (guest : Guest)
deriving DecidableEq

def emptyBinary : List UInt8 :=
  [0x00, 0x61, 0x73, 0x6d, 0x01, 0x00, 0x00, 0x00]

namespace Image

def ofText (text : String) : Image :=
  .bytes (Text.encode text.toList)

def size : Image → Nat
  | bytes content => content.length
  | script _ => 0

/-- A compiler of images, and the one that a host has unless it is given another.  It reads
no more than the part of the text format that `GuestModule.ofText?` knows, and of the binary
form only the empty module. -/
def compile? : Image → Option GuestModule
  | bytes content =>
      if content = emptyBinary then some {}
      else (Text.decode? content).bind GuestModule.ofText?
  | script guest => guest.compile?

end Image

/-- What a compiler writes: an image, and symbols for debugging it. -/
structure Streams where
  binary : Image
  symbols : Option (List UInt8) := none
deriving DecidableEq

end GuestGate
