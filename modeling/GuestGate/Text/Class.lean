import GuestGate.Text.Letter
import GuestGate.Text.Numeral

/-!
# Character classes

Blanks, letters and numerals over all of Unicode, version 17.0.  ASCII is decided directly
and every other character by the ranges of its property.
-/

namespace GuestGate.Text

def inRanges (ranges : List (Nat × Nat)) (code : Nat) : Bool :=
  ranges.any fun range ↦ range.1 ≤ code && code ≤ range.2

def blankRanges : List (Nat × Nat) :=
  [(0x9, 0xd), (0x20, 0x20), (0x85, 0x85), (0xa0, 0xa0), (0x1680, 0x1680), (0x2000, 0x200a),
   (0x2028, 0x2029), (0x202f, 0x202f), (0x205f, 0x205f), (0x3000, 0x3000)]

/-- A character with the Unicode property White_Space. -/
def isBlank (c : Char) : Bool :=
  inRanges blankRanges c.toNat

/-- A character with the Unicode property Alphabetic. -/
def isLetter (c : Char) : Bool :=
  if c.toNat < 0x80 then c.isAlpha else inRanges letterRanges c.toNat

/-- A character of one of the Unicode number categories. -/
def isNumeral (c : Char) : Bool :=
  if c.toNat < 0x80 then c.isDigit else inRanges numeralRanges c.toNat

def isLetterOrNumeral (c : Char) : Bool :=
  isLetter c || isNumeral c

/-- What may follow the first character of an identifier. -/
def isWordChar (c : Char) : Bool :=
  isLetterOrNumeral c || c == '_'

/-- A character that changes the direction of the text around it, or the way
its letters are joined. -/
def isDirectional (c : Char) : Bool :=
  ['\u202a', '\u202b', '\u202d', '\u202e', '\u2066', '\u2067', '\u2068', '\u2069',
    '\u206c'].contains c

theorem isBlank_newline : isBlank '\n' = true := by decide

theorem isLetter_of_isAlpha {c : Char} (hc : c.toNat < 0x80) :
    isLetter c = c.isAlpha := by
  simp [isLetter, hc]

end GuestGate.Text
