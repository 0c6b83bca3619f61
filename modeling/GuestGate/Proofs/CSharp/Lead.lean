import GuestGate.Proofs.CSharp.Header

/-!
# What stands in front of a name

Attributes, modifiers and types can have parentheses outside of all groups, those of tuples.  None
of these has a name in front of it, so the functions that read a header pass over them as well.
-/

namespace GuestGate.CSharp

variable {ts us : List Token} {t : Token}

/-- Whether no parenthesis outside of all groups has a name in front, given the depth and, from
last to first, the tokens before. -/
def callless : Nat → List Token → List Token → Bool
  | _, _, [] => true
  | depth, before, t :: rest =>
      !(depth == 0 && t.isPunct "(" && (nameBefore? before).isSome) &&
        callless (t.depthAfter depth) (t :: before) rest

def Token.beginsValue (t : Token) : Bool :=
  t.isPunct "=" || t.isPunct "=>"

/-- Such tokens are passed over, unless there is a value among them. -/
theorem parameterList?_of_callless {depth : Nat} {before : List Token}
    (h : callless depth before ts = true) (us : List Token) :
    parameterList? depth before (ts ++ us) =
      if (topLevel depth ts).any Token.beginsValue then none
      else parameterList? (depthAfter depth ts) (ts.reverse ++ before) us := by
  induction ts generalizing depth before with
  | nil => rfl
  | cons t ts ih =>
      rw [callless, Bool.and_eq_true, Bool.not_eq_true'] at h
      obtain ⟨hcall, hcalls⟩ := h
      have hnext : parameterList? (t.depthAfter depth) (t :: before) (ts ++ us) =
          if (topLevel (t.depthAfter depth) ts).any Token.beginsValue then none
          else parameterList? (depthAfter depth (t :: ts)) ((t :: ts).reverse ++ before) us := by
        rw [ih hcalls, List.reverse_cons, List.append_assoc]
        rfl
      have hvalue : t.beginsValue = true ↔ t.isPunct "=" = true ∨ t.isPunct "=>" = true := by
        rw [Token.beginsValue, Bool.or_eq_true]
      -- the search ends at a value outside of all brackets, whatever stands behind it
      by_cases hend : depth = 0 ∧ t.beginsValue = true
      · rw [List.cons_append, parameterList?, if_pos ⟨hend.1, hvalue.mp hend.2⟩, topLevel,
          if_pos hend.1, List.any_cons, hend.2]
        rfl
      · have htop : (topLevel depth (t :: ts)).any Token.beginsValue =
            (topLevel (t.depthAfter depth) ts).any Token.beginsValue := by
          rw [topLevel]
          split
          · next hdepth => simp [Bool.eq_false_iff.mpr fun hmark ↦ hend ⟨hdepth, hmark⟩]
          · rfl
        rw [List.cons_append, parameterList?, if_neg fun h ↦ hend ⟨h.1, hvalue.mpr h.2⟩, htop]
        split
        · next hparen =>
            have hname : nameBefore? before = none := by simpa [hparen] using hcall
            rw [hname]
            exact hnext
        · exact hnext

theorem Mark.depthAfter_opening (opening : Mark "(") : opening.token.depthAfter 0 = 1 := by
  rw [opening.token_eq]
  rfl

structure Lead where
  tokens : List Token
  inner : tokens.all Token.isInner = true
  closed : depthAfter 0 tokens = 0
  callless : callless 0 [] tokens = true

namespace Lead

variable (lead : Lead)

def hasValue : Bool :=
  (topLevel 0 lead.tokens).any Token.beginsValue

theorem parameterList?_append (us : List Token) :
    parameterList? 0 [] (lead.tokens ++ us) =
      if lead.hasValue then none else parameterList? 0 lead.tokens.reverse us := by
  rw [parameterList?_of_callless lead.callless, lead.closed, List.append_nil]
  rfl

theorem any_topLevel_append (us : List Token) (p : Token → Bool) :
    (topLevel 0 (lead.tokens ++ us)).any p =
      ((topLevel 0 lead.tokens).any p || (topLevel 0 us).any p) := by
  rw [topLevel_append, lead.closed, List.any_append]

/-- What leads up to a name has no parameters. -/
theorem methodHeader?_tokens : methodHeader? lead.tokens = none := by
  have hparameters := lead.parameterList?_append []
  rw [List.append_nil] at hparameters
  unfold methodHeader?
  split
  · rfl
  · rw [hparameters]
    split <;> rfl

theorem hasInitializer_tokens (h : lead.hasValue = false) : hasInitializer lead.tokens = false :=
  List.any_eq_false.mpr fun t ht ↦ by
    have hvalue := List.any_eq_false.mp h t ht
    rw [Token.beginsValue, Bool.or_eq_true, not_or] at hvalue
    exact hvalue.1

end Lead

/-! ### Names in front of parameters -/

structure TypeArguments where
  opening : Mark "<"
  inside : List Token
  closing : Mark ">"
  angled : Brackets.angles.balanced 0 inside = true

def TypeArguments.tokens (types : TypeArguments) : List Token :=
  types.opening.token :: (types.inside ++ [types.closing.token])

/-- Whether a token is read as a name behind some tokens: a word that is no statement and no
modifier, and behind the word `operator` any word or mark. -/
def isRead (front : List Token) (t : Token) : Bool :=
  (t.kind == .ident && !t.isOneOf statementWords && !t.isOneOf modifiers) ||
    front.getLast?.any (·.isIdent "operator")

/-- What stands right in front of a parameter list. -/
inductive Designator
  /-- The name of a method or of its type, the last token of an operator or of the type that it
  converts to, with its type arguments. -/
  | named (token : Token) (noAngle : token.isPunct ">" = false) (types : Option TypeArguments)
  /-- An operator of closing angles. -/
  | angles (first : Mark ">") (others : List (Mark ">"))

namespace Designator

def tokens : Designator → List Token
  | named token _ types => token :: types.elim [] TypeArguments.tokens
  | angles first others => first.token :: others.map Mark.token

def name? (front : List Token) : Designator → Option Token
  | named token .. => if isRead front token then some token else none
  | angles .. => none

/-- An operator of closing angles has none in front that they could close. -/
def Fits (front : List Token) : Designator → Prop
  | named .. => True
  | angles .. => Brackets.angles.balanced 0 front = true

end Designator

theorem nameBefore?_named (noAngle : t.isPunct ">" = false) (front : List Token) :
    nameBefore? (t :: front.reverse) = if isRead front t then some t else none := by
  have hoperator : (front.reverse.head?.map (·.isIdent "operator")).getD false =
      front.getLast?.any (·.isIdent "operator") := by
    rw [List.head?_reverse]
    cases front.getLast? <;> rfl
  rw [isRead, ← hoperator, nameBefore?]
  simp only [noAngle, Bool.false_eq_true, if_false]

theorem nameBefore?_typeArguments (types : TypeArguments) (noAngle : t.isPunct ">" = false)
    (front : List Token) : nameBefore? (types.tokens.reverse ++ t :: front.reverse) =
      if isRead front t then some t else none := by
  have hreverse : types.tokens.reverse ++ t :: front.reverse = types.closing.token ::
      (types.inside.reverse ++ types.opening.token :: t :: front.reverse) := by
    simp [TypeArguments.tokens]
  have hskip := skipArguments_closing types.opening types.closing types.angled
    (t :: front.reverse)
  rw [← nameBefore?_named noAngle, hreverse, nameBefore?, nameBefore?]
  simp only [types.closing.isMark, hskip, noAngle]
  rfl

/-- Angles that close nothing are skipped to the very beginning. -/
theorem skipArguments_angles {front : List Token} (h : Brackets.angles.balanced 0 front = true)
    (marks : List (Mark ">")) (depth : Nat) :
    skipArguments (depth + 1) (marks.map Mark.token ++ front.reverse) = none := by
  induction marks generalizing depth with
  | nil =>
      have hskip := skipArguments_reverse h depth []
      rw [List.append_nil] at hskip
      exact hskip
  | cons mark marks ih =>
      rw [List.map_cons, List.cons_append, skipArguments, if_pos mark.isMark]
      exact ih (depth + 1)

/-- The name in front of a parameter list. -/
theorem Designator.nameBefore?_reverse {front : List Token} {designator : Designator}
    (h : designator.Fits front) :
    nameBefore? (front ++ designator.tokens).reverse = designator.name? front := by
  rw [List.reverse_append]
  cases designator with
  | named token noAngle types =>
      cases types with
      | none => exact nameBefore?_named noAngle front
      | some types =>
          have hreverse : (named token noAngle (some types)).tokens.reverse ++ front.reverse =
              types.tokens.reverse ++ token :: front.reverse := by simp [tokens]
          rw [hreverse]
          exact nameBefore?_typeArguments types noAngle front
  | angles first others =>
      obtain ⟨last, marks, hlast⟩ : ∃ (last : Mark ">") (marks : List (Mark ">")),
          (first.token :: others.map Mark.token).reverse = last.token :: marks.map Mark.token := by
        obtain ⟨last, marks, hlast⟩ :=
          List.exists_cons_of_ne_nil (List.reverse_ne_nil_iff.mpr (List.cons_ne_nil first others))
        exact ⟨last, marks, by rw [← List.map_cons, ← List.map_reverse, hlast, List.map_cons]⟩
      rw [tokens, hlast, List.cons_append, nameBefore?]
      have hskip :
          skipArguments 0 (last.token :: (marks.map Mark.token ++ front.reverse)) = none := by
        rw [skipArguments, if_pos last.isMark]
        exact skipArguments_angles h marks 0
      simp [last.isMark, hskip, name?]

end GuestGate.CSharp
