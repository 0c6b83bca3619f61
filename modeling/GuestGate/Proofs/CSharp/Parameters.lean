import GuestGate.Proofs.CSharp.Brackets

/-!
# Parameters in a list

The parameters between two parentheses are told apart by the commas outside of their own brackets.
Each counts once, on the line of its first token, and nothing behind the list counts.
-/

namespace GuestGate.CSharp

/-- A parameter: some tokens whose brackets match, angles among them, with commas only inside. -/
structure ListedParameter where
  first : Token
  others : List Token
  matched : Brackets.ofParameters.Matched 0 (first :: others)

namespace ListedParameter

variable (p : ListedParameter)

def tokens : List Token :=
  p.first :: p.others

def line : Nat :=
  p.first.position.line

theorem lines_append (us : List Token) :
    parameterLinesFrom ⟨0, true⟩ (p.tokens ++ us) = p.line :: parameterLinesFrom ⟨0, false⟩ us :=
  parameterLinesFrom_first (Brackets.proper_ofParameters.balanced_iff.mpr p.matched) us

end ListedParameter

/-- Some tokens are those of parameters, with commas between them. -/
inductive Listed : List ListedParameter → List Token → Prop
  | none : Listed [] []
  | last (p : ListedParameter) : Listed [p] p.tokens
  | more (p : ListedParameter) (comma : Mark ",") {q : ListedParameter}
      {parameters : List ListedParameter} {ts : List Token} (rest : Listed (q :: parameters) ts) :
      Listed (p :: q :: parameters) (p.tokens ++ comma.token :: ts)

theorem Listed.parameterLinesFrom_append {parameters : List ListedParameter} {ts : List Token}
    (h : Listed parameters ts) (closing : Mark ")") (rest : List Token) :
    parameterLinesFrom ⟨0, true⟩ (ts ++ closing.token :: rest) =
      parameters.map ListedParameter.line := by
  induction h with
  | none => exact parameterLinesFrom_closing closing true rest
  | last p =>
      rw [p.lines_append, parameterLinesFrom_closing]
      rfl
  | more p comma _ ih =>
      rw [List.append_assoc, p.lines_append, List.cons_append, parameterLinesFrom_comma, ih]
      rfl

/-- A header that has a list of parameters behind a parenthesis: from there on exactly the lines of
the parameters are read, whatever follows the list. -/
theorem parameterLines_of_listed {parameters : List ListedParameter} {ts : List Token}
    (h : Listed parameters ts) (front : List Token) (opening : Mark "(") (closing : Mark ")")
    (rest : List Token) :
    parameterLines ((front ++ opening.token :: (ts ++ closing.token :: rest)).drop
        (front.length + 1)) = parameters.map ListedParameter.line := by
  have hbehind : (front ++ opening.token :: (ts ++ closing.token :: rest)).drop (front.length + 1) =
      ts ++ closing.token :: rest := by simp
  rw [hbehind, parameterLines]
  exact h.parameterLinesFrom_append closing rest

def inputParameter : ListedParameter where
  first := ⟨.punct, "[".toList, ⟨2, 3⟩⟩
  others := [⟨.ident, "In".toList, ⟨2, 4⟩⟩, ⟨.punct, "]".toList, ⟨2, 6⟩⟩,
    ⟨.ident, "int".toList, ⟨2, 8⟩⟩, ⟨.ident, "a".toList, ⟨2, 12⟩⟩]
  matched := Brackets.proper_ofParameters.balanced_iff.mp (by decide)

def mapParameter : ListedParameter where
  first := ⟨.ident, "Map".toList, ⟨3, 3⟩⟩
  others := [⟨.punct, "<".toList, ⟨3, 6⟩⟩, ⟨.ident, "int".toList, ⟨3, 7⟩⟩,
    ⟨.punct, ",".toList, ⟨3, 10⟩⟩, ⟨.ident, "int".toList, ⟨3, 12⟩⟩,
    ⟨.punct, ">".toList, ⟨3, 15⟩⟩, ⟨.ident, "b".toList, ⟨3, 17⟩⟩]
  matched := Brackets.proper_ofParameters.balanced_iff.mp (by decide)

def splitParameters : List Token :=
  inputParameter.tokens ++ ⟨.punct, ",".toList, ⟨2, 13⟩⟩ :: mapParameter.tokens

def splitParametersText : List Char :=
  "M(\n  [In] int a,\n  Map<int, int> b) => (b, a)".toList

theorem parameterLines_splitParameters : Listed [inputParameter, mapParameter] splitParameters ∧
    parameterLines ((tokens splitParametersText).drop 2) = [2, 3] := by
  have hlisted : Listed [inputParameter, mapParameter] splitParameters :=
    .more inputParameter ⟨⟨.punct, ",".toList, ⟨2, 13⟩⟩, by decide⟩ (.last mapParameter)
  have hlines := parameterLines_of_listed hlisted [⟨.ident, "M".toList, ⟨1, 1⟩⟩]
    ⟨⟨.punct, "(".toList, ⟨1, 2⟩⟩, by decide⟩ ⟨⟨.punct, ")".toList, ⟨3, 18⟩⟩, by decide⟩
    ((tokens splitParametersText).drop 16)
  have htokens : tokens splitParametersText = ⟨.ident, "M".toList, ⟨1, 1⟩⟩ ::
      ⟨.punct, "(".toList, ⟨1, 2⟩⟩ :: (splitParameters ++ ⟨.punct, ")".toList, ⟨3, 18⟩⟩ ::
        (tokens splitParametersText).drop 16) := by decide +kernel
  refine ⟨hlisted, ?_⟩
  rw [htokens]
  exact hlines

end GuestGate.CSharp
