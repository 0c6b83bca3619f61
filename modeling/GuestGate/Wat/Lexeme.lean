import GuestGate.Text.Class
import GuestGate.Text.Utf8

/-!
# Lexemes of module text

Module text is made of brackets, words and strings, with blanks and comments
between them.  It is read one character at a time.  No character that changes
the direction of text may stand in a comment or a string.
-/

namespace GuestGate.Wat

inductive Lexeme
  | opening
  | closing
  | word (text : String)
  /-- A string, by the bytes it stands for. -/
  | quoted (content : List UInt8)
deriving DecidableEq, Repr

/-- Where the reader stands between two characters. -/
inductive Mode
  /-- Between two lexemes. -/
  | between
  /-- Behind a string, where no word and no string may begin. -/
  | closed
  /-- Behind an opening bracket, which a comment may take as its own. -/
  | opened
  /-- Behind the first semicolon of a comment. -/
  | halfComment
  /-- In a comment that ends with the line. -/
  | lineComment
  /-- In comments inside each other, behind a character that may begin or end
  one of them. -/
  | blockComment (depth : Nat) (last : Option Char)
  /-- In a word, with its characters in reverse. -/
  | word (text : List Char)
  /-- In a string, with its bytes in reverse. -/
  | quoted (content : List UInt8)
  /-- Behind a backslash in a string. -/
  | escape (content : List UInt8)
  /-- Behind the first digit of a byte that is given in hexadecimal. -/
  | halfByte (content : List UInt8) (digit : Nat)
deriving DecidableEq, Repr

def isSpace (c : Char) : Bool :=
  c == ' ' || c == '\t' || c == '\n' || c == '\r'

def isWordChar (c : Char) : Bool :=
  c.isAlphanum || "!#$%&'*+-./:<=>?@\\^_`|~".toList.contains c

def isControl (c : Char) : Bool :=
  c.toNat < 0x20 || c.toNat == 0x7f

def hexValue? (c : Char) : Option Nat :=
  if '0' ≤ c ∧ c ≤ '9' then some (c.toNat - '0'.toNat)
  else if 'a' ≤ c ∧ c ≤ 'f' then some (c.toNat - 'a'.toNat + 10)
  else if 'A' ≤ c ∧ c ≤ 'F' then some (c.toNat - 'A'.toNat + 10)
  else none

def escaped? : Char → Option UInt8
  | 't' => some 0x09
  | 'n' => some 0x0a
  | 'r' => some 0x0d
  | '"' => some 0x22
  | '\'' => some 0x27
  | '\\' => some 0x5c
  | _ => none

namespace Mode

/-- Read a character that begins something new: the mode behind it and the
lexemes it completes. -/
def begin (c : Char) : Option (Mode × List Lexeme) :=
  if isSpace c then some (between, [])
  else if c = '(' then some (opened, [])
  else if c = ')' then some (between, [.closing])
  else if c = '"' then some (quoted [], [])
  else if c = ';' then some (halfComment, [])
  else if isWordChar c then some (word [c], [])
  else none

def beginAfter (done : List Lexeme) (c : Char) : Option (Mode × List Lexeme) :=
  (begin c).map fun next ↦ (next.1, done ++ next.2)

def wordOf (text : List Char) : Lexeme :=
  .word (String.ofList text.reverse)

/-- Read a character inside of comments. -/
def inBlock (depth : Nat) (last : Option Char) (c : Char) : Mode :=
  if last = some '(' ∧ c = ';' then blockComment (depth + 1) none
  else if last = some ';' ∧ c = ')' then
    if depth = 0 then between else blockComment (depth - 1) none
  else blockComment depth (some c)

/-- Read a character: the mode behind it and the lexemes it completes. -/
def step : Mode → Char → Option (Mode × List Lexeme)
  | between, c => begin c
  | closed, c => if c = '"' ∨ isWordChar c then none else begin c
  | opened, c => if c = ';' then some (blockComment 0 none, []) else beginAfter [.opening] c
  | halfComment, c => if c = ';' then some (lineComment, []) else none
  | lineComment, c =>
      if c = '\n' ∨ c = '\r' then some (between, [])
      else if Text.isDirectional c then none
      else some (lineComment, [])
  | blockComment depth last, c =>
      if Text.isDirectional c then none else some (inBlock depth last c, [])
  | word text, c =>
      if isWordChar c then some (word (c :: text), [])
      else if c = '"' then none
      else beginAfter [wordOf text] c
  | quoted content, c =>
      if c = '"' then some (closed, [.quoted content.reverse])
      else if c = '\\' then some (escape content, [])
      else if isControl c || Text.isDirectional c then none
      else some (quoted ((Text.encode [c]).reverse ++ content), [])
  | escape content, c =>
      match escaped? c with
      | some b => some (quoted (b :: content), [])
      | none => (hexValue? c).map fun digit ↦ (halfByte content digit, [])
  | halfByte content high, c =>
      (hexValue? c).map fun low ↦ (quoted (UInt8.ofNat (high * 16 + low) :: content), [])

/-- The lexemes that the end of the text completes. -/
def finish : Mode → Option (List Lexeme)
  | between | closed | lineComment => some []
  | opened => some [.opening]
  | word text => some [wordOf text]
  | halfComment | blockComment .. | quoted _ | escape _ | halfByte .. => none

end Mode

def lexemesFrom? : Mode → List Char → Option (List Lexeme)
  | mode, [] => mode.finish
  | mode, c :: rest => do
      let (mode, lexemes) ← mode.step c
      return lexemes ++ (← lexemesFrom? mode rest)

def lexemes? (text : List Char) : Option (List Lexeme) :=
  lexemesFrom? .between text

@[simp]
theorem lexemes?_nil : lexemes? [] = some [] := rfl

end GuestGate.Wat
