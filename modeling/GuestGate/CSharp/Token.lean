import GuestGate.Source.Position
import GuestGate.Text.Class

/-!
# Tokens of C# sources

A source is cut into pieces that together are the whole text: blanks, comments
and `#` lines on one side, tokens on the other.  Each piece is found from the
text that is left, so positions are a matter of the pieces before it.
-/

namespace GuestGate.CSharp

open Text

inductive TokenKind
  | ident
  | punct
  | literal
deriving DecidableEq, Repr

/-- A token with its text and the position of its first character. -/
structure Token where
  kind : TokenKind
  text : List Char
  position : Position
deriving DecidableEq, Repr

namespace Token

def isPunct (t : Token) (mark : String) : Bool :=
  t.kind == .punct && t.text == mark.toList

def isIdent (t : Token) (word : String) : Bool :=
  t.kind == .ident && t.text == word.toList

def isOneOf (t : Token) (words : List String) : Bool :=
  t.kind == .ident && words.any fun word ↦ t.text == word.toList

end Token

/-- A piece of the text: a token of some kind, or text between tokens. -/
structure Piece where
  kind : Option TokenKind
  text : List Char
deriving DecidableEq, Repr

/-! ### Pieces with an end mark

Each function takes the text after an opening mark to the part that still
belongs to the piece and the rest. -/

def consFirst (c : Char) (parts : List Char × List Char) : List Char × List Char :=
  (c :: parts.1, parts.2)

/-- Up to the end of the line, which stays outside. -/
def restOfLine : List Char → List Char × List Char
  | [] => ([], [])
  | c :: rest => if c = '\n' then ([], c :: rest) else consFirst c (restOfLine rest)

/-- Up to and with the first `*/`. -/
def restOfComment : List Char → List Char × List Char
  | [] => ([], [])
  | '*' :: '/' :: rest => (['*', '/'], rest)
  | c :: rest => consFirst c (restOfComment rest)

/-- Up to and with the closing quote, or the end of the line.  A backslash
takes the next character along. -/
def restOfString : List Char → List Char × List Char
  | [] => ([], [])
  | '\\' :: c :: rest => consFirst '\\' (consFirst c (restOfString rest))
  | c :: rest => if c = '"' ∨ c = '\n' then ([c], rest) else consFirst c (restOfString rest)

/-- Up to and with the closing quote of a verbatim string, where two quotes
stand for one. -/
def restOfVerbatim : List Char → List Char × List Char
  | [] => ([], [])
  | '"' :: '"' :: rest => consFirst '"' (consFirst '"' (restOfVerbatim rest))
  | c :: rest => if c = '"' then ([c], rest) else consFirst c (restOfVerbatim rest)

def restOfCharacter : List Char → List Char × List Char
  | [] => ([], [])
  | '\\' :: c :: rest => consFirst '\\' (consFirst c (restOfCharacter rest))
  | c :: rest => if c = '\'' ∨ c = '\n' then ([c], rest) else consFirst c (restOfCharacter rest)

def restOfRun (inClass : Char → Bool) : List Char → List Char × List Char
  | [] => ([], [])
  | c :: rest => if inClass c then consFirst c (restOfRun inClass rest) else ([], c :: rest)

def doubleMarks : List (List Char) :=
  ["=>", "==", "!=", "<=", ">=", "::", "??"].map String.toList

def isDoubleMark (a b : Char) : Bool :=
  doubleMarks.contains [a, b]

def startsWord (c : Char) : Bool :=
  isLetter c || c == '_' || c == '@'

def inNumber (c : Char) : Bool :=
  isWordChar c || c == '.'

/-- The second character of a mark, if it has one. -/
def markPiece (c : Char) : List Char → List Char × List Char
  | d :: rest => if isDoubleMark c d then ([d], rest) else ([], d :: rest)
  | [] => ([], [])

/-- The token that starts with a character: its kind, what follows the
character in it, and the rest of the text. -/
def tokenPiece (c : Char) (rest : List Char) : TokenKind × List Char × List Char :=
  if c = '"' then (.literal, restOfString rest)
  else
    match c, rest with
    | '@', '"' :: r => (.literal, consFirst '"' (restOfVerbatim r))
    | '$', '"' :: r => (.literal, consFirst '"' (restOfString r))
    | '@', '@' :: '"' :: r => (.literal, consFirst '@' (consFirst '"' (restOfVerbatim r)))
    | '@', '$' :: '"' :: r => (.literal, consFirst '$' (consFirst '"' (restOfVerbatim r)))
    | '$', '@' :: '"' :: r => (.literal, consFirst '@' (consFirst '"' (restOfVerbatim r)))
    | '$', '$' :: '"' :: r => (.literal, consFirst '$' (consFirst '"' (restOfVerbatim r)))
    | '\'', r => (.literal, restOfCharacter r)
    | c, r =>
        if startsWord c then (.ident, restOfRun isWordChar r)
        else if c.isDigit then (.literal, restOfRun inNumber r)
        else (.punct, markPiece c r)

/-- The text between tokens that starts with a character, if it does. -/
def triviaPiece? (c : Char) (rest : List Char) : Option (List Char × List Char) :=
  if isBlank c then some ([], rest)
  else if c = '#' then some (restOfLine rest)
  else
    match c, rest with
    | '/', '/' :: r => some (consFirst '/' (restOfLine r))
    | '/', '*' :: r => some (consFirst '*' (restOfComment r))
    | _, _ => none

def nextPiece (c : Char) (rest : List Char) : Piece × List Char :=
  match triviaPiece? c rest with
  | some (taken, left) => (⟨none, c :: taken⟩, left)
  | none =>
      let (kind, taken, left) := tokenPiece c rest
      (⟨some kind, c :: taken⟩, left)

/-! ### Nothing is lost -/

@[simp]
theorem consFirst_append (c : Char) (parts : List Char × List Char) :
    (consFirst c parts).1 ++ (consFirst c parts).2 = c :: (parts.1 ++ parts.2) := rfl

theorem restOfLine_append (text : List Char) :
    (restOfLine text).1 ++ (restOfLine text).2 = text := by
  fun_induction restOfLine text <;> simp_all

theorem restOfComment_append (text : List Char) :
    (restOfComment text).1 ++ (restOfComment text).2 = text := by
  fun_induction restOfComment text <;> simp_all

theorem restOfString_append (text : List Char) :
    (restOfString text).1 ++ (restOfString text).2 = text := by
  fun_induction restOfString text <;> simp_all

theorem restOfVerbatim_append (text : List Char) :
    (restOfVerbatim text).1 ++ (restOfVerbatim text).2 = text := by
  fun_induction restOfVerbatim text <;> simp_all

theorem restOfCharacter_append (text : List Char) :
    (restOfCharacter text).1 ++ (restOfCharacter text).2 = text := by
  fun_induction restOfCharacter text <;> simp_all

theorem restOfRun_append (inClass : Char → Bool) (text : List Char) :
    (restOfRun inClass text).1 ++ (restOfRun inClass text).2 = text := by
  fun_induction restOfRun inClass text <;> simp_all

theorem markPiece_append (c : Char) (rest : List Char) :
    (markPiece c rest).1 ++ (markPiece c rest).2 = rest := by
  unfold markPiece
  split
  · split <;> rfl
  · rfl

theorem tokenPiece_append (c : Char) (rest : List Char) :
    (tokenPiece c rest).2.1 ++ (tokenPiece c rest).2.2 = rest := by
  fun_cases tokenPiece c rest <;>
    simp [restOfString_append, restOfVerbatim_append, restOfCharacter_append,
      restOfRun_append, markPiece_append]

theorem triviaPiece?_append (c : Char) (rest : List Char) :
    ∀ parts ∈ triviaPiece? c rest, parts.1 ++ parts.2 = rest := by
  fun_cases triviaPiece? c rest <;> simp [restOfLine_append, restOfComment_append]

/-- A piece and what is left after it are the text it was taken from. -/
theorem nextPiece_append (c : Char) (rest : List Char) :
    (nextPiece c rest).1.text ++ (nextPiece c rest).2 = c :: rest := by
  unfold nextPiece
  split
  · next taken left h => simpa using triviaPiece?_append c rest _ h
  · simpa using tokenPiece_append c rest

theorem nextPiece_text_ne_nil (c : Char) (rest : List Char) :
    (nextPiece c rest).1.text ≠ [] := by
  unfold nextPiece
  split <;> simp

theorem length_nextPiece_lt (c : Char) (rest : List Char) :
    (nextPiece c rest).2.length < (c :: rest).length := by
  have happend := congrArg List.length (nextPiece_append c rest)
  have hne := List.length_pos_iff.2 (nextPiece_text_ne_nil c rest)
  simp only [List.length_append] at happend
  omega

def pieces : List Char → List Piece
  | [] => []
  | c :: rest => (nextPiece c rest).1 :: pieces (nextPiece c rest).2
termination_by text => text.length
decreasing_by exact length_nextPiece_lt c rest

/-- The tokens among some pieces, the first of which stands at a position. -/
def tokensOf (p : Position) : List Piece → List Token
  | [] => []
  | ⟨none, text⟩ :: rest => tokensOf (p.after text) rest
  | ⟨some kind, text⟩ :: rest => ⟨kind, text, p⟩ :: tokensOf (p.after text) rest

def tokens (text : List Char) : List Token :=
  tokensOf .start (pieces text)

end GuestGate.CSharp
