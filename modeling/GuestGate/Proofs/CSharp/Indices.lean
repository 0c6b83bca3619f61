import GuestGate.Proofs.CSharp.Header
import GuestGate.Proofs.Text.Slicing

/-!
# Headers by index

What the scan asks about a header, answered with indices of its tokens: tokens are looked up, the
header is cut in two, and depths are counted down.  All indices come from the header itself, so
nothing of this is a fault and the answers are the same.
-/

namespace GuestGate.CSharp.Checked

open GuestGate.Checked

variable {header : List Token} {t name : Token} {depth index opening : Nat}

/-! ### Tokens outside all groups -/

def depthAfter (t : Token) (depth : Nat) : Except Fault Nat :=
  if t.opensGroup then .ok (depth + 1)
  else if t.closesGroup && 0 < depth then minus depth 1
  else .ok depth

/-- The tokens outside all groups with their indices, which are counted on from one. -/
def topLevel : Nat → Nat → List Token → Except Fault (List (Nat × Token))
  | _, _, [] => .ok []
  | depth, index, t :: rest => do
      let next ← depthAfter t depth
      let others ← topLevel next (index + 1) rest
      .ok (if depth = 0 then (index, t) :: others else others)

def topIndices : Nat → Nat → List Token → List (Nat × Token)
  | _, _, [] => []
  | depth, index, t :: rest =>
      let others := topIndices (t.depthAfter depth) (index + 1) rest
      if depth = 0 then (index, t) :: others else others

theorem depthAfter_eq (t : Token) (depth : Nat) :
    depthAfter t depth = .ok (t.depthAfter depth) := by
  unfold depthAfter Token.depthAfter
  split
  · rfl
  · cases t.closesGroup with
    | false => rfl
    | true => cases depth <;> rfl

theorem topLevel_eq (depth index : Nat) (header : List Token) :
    topLevel depth index header = .ok (topIndices depth index header) := by
  induction header generalizing depth index with
  | nil => rfl
  | cons t rest ih =>
      rw [topLevel, depthAfter_eq, ok_bind, ih]
      rfl

theorem map_topIndices (depth index : Nat) (header : List Token) :
    (topIndices depth index header).map Prod.snd = CSharp.topLevel depth header := by
  induction header generalizing depth index with
  | nil => rfl
  | cons t rest ih =>
      rw [topIndices, CSharp.topLevel, ← ih (t.depthAfter depth) (index + 1)]
      split <;> rfl

def anyTop (p : Token → Bool) (header : List Token) : Except Fault Bool := do
  let top ← topLevel 0 0 header
  .ok (top.any fun entry ↦ p entry.2)

theorem anyTop_eq (p : Token → Bool) (header : List Token) :
    anyTop p header = .ok ((CSharp.topLevel 0 header).any p) := by
  rw [anyTop, topLevel_eq, ok_bind, ← map_topIndices 0 0 header, List.any_map]
  rfl

def firstTop (p : Token → Bool) (depth index : Nat) (header : List Token) : Option (Nat × Token) :=
  (topIndices depth index header).find? fun entry ↦ p entry.2

theorem firstTop_cons (p : Token → Bool) (depth index : Nat) (t : Token) (rest : List Token) :
    firstTop p depth index (t :: rest) =
      if depth = 0 ∧ p t = true then some (index, t)
      else firstTop p (t.depthAfter depth) (index + 1) rest := by
  unfold firstTop
  rw [topIndices]
  by_cases hdepth : depth = 0
  · rw [if_pos hdepth, List.find?_cons]
    cases hp : p t <;> simp [hdepth]
  · rw [if_neg hdepth, if_neg fun h ↦ hdepth h.1]

/-! ### Types -/

/-- Where the keyword of a type stands, which is looked for in front of the first parenthesis. -/
def keywordIndex (header : List Token) : Except Fault (Option Nat) := do
  let top ← topLevel 0 0 header
  let parenthesis := top.find? fun entry ↦ entry.2.isPunct "("
  let front ← upTo header ((parenthesis.map Prod.fst).getD header.length)
  let top ← topLevel 0 0 front
  .ok ((top.find? fun entry ↦ entry.2.isOneOf typeKeywords).map Prod.fst)

def declaredType (header : List Token) : Except Fault (Option String) := do
  match ← keywordIndex header with
  | none => .ok none
  | some keyword =>
      let rest ← onward header (keyword + 1)
      let name := rest.find? fun t ↦ t.kind == .ident && !t.isOneOf typeKeywords
      .ok (name.map fun t ↦ String.ofList t.text)

/-- The keyword that stands in a header cut at its first parenthesis is the one that comes before
any parenthesis. -/
theorem exists_front (depth index : Nat) (header : List Token) :
    ∃ front back, header = front ++ back ∧
      ((firstTop (·.isPunct "(") depth index header).map Prod.fst).getD (index + header.length) =
        index + front.length ∧
      ((afterTypeKeyword? depth header = none ∧
          firstTop (·.isOneOf typeKeywords) depth index front = none) ∨
        ∃ passed keyword rest, header = passed ++ keyword :: rest ∧
          afterTypeKeyword? depth header = some rest ∧
          firstTop (·.isOneOf typeKeywords) depth index front =
            some (index + passed.length, keyword)) := by
  induction header generalizing depth index with
  | nil => exact ⟨[], [], rfl, rfl, .inl ⟨rfl, rfl⟩⟩
  | cons t rest ih =>
      obtain ⟨front, back, hsplit, hlimit, hfound⟩ := ih (t.depthAfter depth) (index + 1)
      rw [afterTypeKeyword?, firstTop_cons]
      by_cases hparenthesis : depth = 0 ∧ t.isPunct "(" = true
      · rw [if_pos hparenthesis, if_pos hparenthesis]
        exact ⟨[], t :: rest, rfl, rfl, .inl ⟨rfl, rfl⟩⟩
      · rw [if_neg hparenthesis, if_neg hparenthesis]
        refine ⟨t :: front, back, by rw [hsplit]; rfl, ?_, ?_⟩
        · rw [List.length_cons, List.length_cons, ← Nat.add_assoc, Nat.add_right_comm, hlimit]
          omega
        rw [firstTop_cons]
        by_cases hkeyword : depth = 0 ∧ t.isOneOf typeKeywords = true
        · rw [if_pos hkeyword, if_pos hkeyword]
          exact .inr ⟨[], t, rest, rfl, rfl, rfl⟩
        · rw [if_neg hkeyword, if_neg hkeyword]
          rcases hfound with hnone | ⟨passed, keyword, after, hrest, hafter, hfirst⟩
          · exact .inl hnone
          · refine .inr ⟨t :: passed, keyword, after, by rw [hrest]; rfl, hafter, ?_⟩
            rw [hfirst, List.length_cons, Nat.add_assoc, Nat.add_comm 1]

theorem declaredType_eq (header : List Token) :
    declaredType header = .ok (declaredType? header) := by
  obtain ⟨front, back, hsplit, hlimit, hfound⟩ := exists_front 0 0 header
  rw [Nat.zero_add, Nat.zero_add, firstTop] at hlimit
  have hcut : upTo header front.length = .ok front := by
    rw [hsplit, upTo_of_le (List.length_append ▸ Nat.le_add_right _ _), List.take_left]
  have hindex : keywordIndex header =
      .ok ((firstTop (·.isOneOf typeKeywords) 0 0 front).map Prod.fst) := by
    simp only [keywordIndex, topLevel_eq, ok_bind, hlimit, hcut]
    rfl
  rw [declaredType, hindex, ok_bind]
  rcases hfound with ⟨hafter, hfirst⟩ | ⟨passed, keyword, rest, hheader, hafter, hfirst⟩
  · rw [hfirst, declaredType?, hafter]
    rfl
  · have hrest : onward header (passed.length + 1) = .ok rest := by
      have hlength : passed.length + 1 ≤ (passed ++ keyword :: rest).length := by
        rw [List.length_append, List.length_cons]
        omega
      rw [hheader, onward_of_le hlength, List.append_cons, List.drop_left' (by simp)]
    rw [hfirst, Option.map_some, Nat.zero_add]
    simp only [hrest, ok_bind, declaredType?, hafter, Option.bind_eq_bind, Option.bind_some]
    cases rest.find? fun t ↦ t.kind == .ident && !t.isOneOf typeKeywords <;> rfl

/-! ### Names -/

def depthBefore (t : Token) (depth : Nat) : Except Fault Nat :=
  if t.isPunct ">" then .ok (depth + 1)
  else if t.isPunct "<" then minus depth 1
  else .ok depth

/-- The index of the `<` that opens generic arguments, looked for in front of an index. -/
def openingIndex (header : List Token) : Nat → Nat → Except Fault (Option Nat)
  | _, 0 => .ok none
  | depth, before + 1 => do
      let t ← item header before
      let depth ← depthBefore t depth
      if t.isPunct "<" && depth == 0 then .ok (some before) else openingIndex header depth before

/-- Where a name can stand in front of an index, with its arguments in between. -/
def nameIndex (header : List Token) (opening : Nat) : Except Fault (Option Nat) :=
  match opening with
  | 0 => .ok none
  | last + 1 => do
      let t ← item header last
      if t.isPunct ">" then
        match ← openingIndex header 0 (last + 1) with
        | some (index + 1) => .ok (some index)
        | _ => .ok none
      else .ok (some last)

def isBehindOperator (header : List Token) (index : Nat) : Except Fault Bool :=
  if 0 < index then do
    let previous ← minus index 1
    let t ← item header previous
    .ok (t.isIdent "operator")
  else .ok false

def nameBefore (header : List Token) (opening : Nat) : Except Fault (Option Nat) := do
  match ← nameIndex header opening with
  | none => .ok none
  | some index =>
      let name ← item header index
      let isName := name.kind == .ident && !name.isOneOf statementWords && !name.isOneOf modifiers
      let isOperator ← isBehindOperator header index
      .ok (if isName || isOperator then some index else none)

theorem exists_getElem? (h : index < header.length) : ∃ t, header[index]? = some t :=
  ⟨header[index], List.getElem?_eq_getElem h⟩

theorem reverse_take_succ (h : header[index]? = some t) :
    (header.take (index + 1)).reverse = t :: (header.take index).reverse := by
  rw [List.take_add_one, h, Option.toList_some, List.reverse_concat]

/-- As long as something is open the search goes on, so the depth is never counted down from
zero. -/
theorem openingIndex_eq {before : Nat} (hdepth : 0 < depth) (hle : before ≤ header.length) :
    ∃ found, openingIndex header depth before = .ok found ∧ (∀ index ∈ found, index < before) ∧
      skipArguments depth (header.take before).reverse =
        found.map fun index ↦ (header.take index).reverse := by
  induction before generalizing depth with
  | zero => exact ⟨none, rfl, by simp, rfl⟩
  | succ before ih =>
      obtain ⟨t, ht⟩ := exists_getElem? hle
      have hrest : ∀ next, 0 < next → ∃ found, openingIndex header next before = .ok found ∧
          (∀ index ∈ found, index < before + 1) ∧
          skipArguments next (header.take before).reverse =
            found.map fun index ↦ (header.take index).reverse := by
        intro next hnext
        obtain ⟨found, hfound, hlt, hskip⟩ := ih hnext (Nat.le_of_succ_le hle)
        exact ⟨found, hfound, fun index hindex ↦ Nat.lt_succ_of_lt (hlt index hindex), hskip⟩
      rw [openingIndex, item_of_getElem? ht, ok_bind, reverse_take_succ ht, skipArguments,
        depthBefore]
      by_cases hcloses : t.isPunct ">" = true
      · have hopens : t.isPunct "<" = false := Token.isPunct_eq hcloses "<"
        rw [if_pos hcloses, if_pos hcloses, hopens]
        exact hrest (depth + 1) (Nat.succ_pos depth)
      · rw [if_neg hcloses, if_neg hcloses]
        by_cases hopens : t.isPunct "<" = true
        · rw [if_pos hopens, if_pos hopens, minus_of_le hdepth, ok_bind, hopens]
          by_cases hlast : depth ≤ 1
          · have hzero : depth - 1 = 0 := Nat.sub_eq_zero_of_le hlast
            rw [if_pos hlast, hzero]
            exact ⟨some before, rfl, by simp, rfl⟩
          · obtain ⟨next, rfl⟩ : ∃ next, depth = next + 2 := ⟨depth - 2, by omega⟩
            rw [if_neg hlast]
            exact hrest (next + 1) (Nat.succ_pos next)
        · rw [if_neg hopens, if_neg hopens, Bool.eq_false_iff.mpr hopens]
          exact hrest depth hdepth

theorem isBehindOperator_eq (hle : index ≤ header.length) : isBehindOperator header index =
    .ok (((header.take index).reverse.head?.map (·.isIdent "operator")).getD false) := by
  cases index with
  | zero => rfl
  | succ previous =>
      obtain ⟨t, ht⟩ := exists_getElem? hle
      have hpos : 0 < previous + 1 := Nat.succ_pos previous
      have hminus : minus (previous + 1) 1 = .ok previous := minus_of_le hpos
      rw [reverse_take_succ ht, isBehindOperator, if_pos hpos, hminus, ok_bind,
        item_of_getElem? ht]
      rfl

def asName? (name : Token) (earlier : List Token) : Option Token :=
  let isName := name.kind == .ident && !name.isOneOf statementWords && !name.isOneOf modifiers
  let isOperator := (earlier.head?.map (·.isIdent "operator")).getD false
  if isName || isOperator then some name else none

theorem nameIndex_cases (hle : opening ≤ header.length) :
    (nameIndex header opening = .ok none ∧ nameBefore? (header.take opening).reverse = none) ∨
    ∃ index name, nameIndex header opening = .ok (some index) ∧ index < opening ∧
      header[index]? = some name ∧
      nameBefore? (header.take opening).reverse = asName? name (header.take index).reverse := by
  cases opening with
  | zero => exact .inl ⟨rfl, rfl⟩
  | succ last =>
      obtain ⟨t, ht⟩ := exists_getElem? hle
      have hlast := item_of_getElem? ht
      rw [nameIndex, hlast, ok_bind, reverse_take_succ ht, nameBefore?]
      by_cases hcloses : t.isPunct ">" = true
      · have hopens : t.isPunct "<" = false := Token.isPunct_eq hcloses "<"
        have hstep : openingIndex header 0 (last + 1) = openingIndex header 1 last := by
          rw [openingIndex, hlast, ok_bind, depthBefore, if_pos hcloses, hopens]
          rfl
        have hskip : skipArguments 0 (t :: (header.take last).reverse) =
            skipArguments 1 (header.take last).reverse := by
          rw [skipArguments, if_pos hcloses]
        obtain ⟨found, hfound, hlt, hback⟩ :=
          openingIndex_eq Nat.one_pos (Nat.le_of_succ_le hle)
        rw [if_pos hcloses, hstep, hfound, ok_bind]
        simp only [if_pos hcloses, hskip, hback]
        cases found with
        | none => exact .inl ⟨rfl, rfl⟩
        | some opened =>
            cases opened with
            | zero => exact .inl ⟨rfl, rfl⟩
            | succ index =>
                have hindex : index + 1 < last := hlt (index + 1) rfl
                have hin : index < header.length := by omega
                obtain ⟨name, hname⟩ := exists_getElem? hin
                refine .inr ⟨index, name, rfl, by omega, hname, ?_⟩
                rw [Option.map_some, reverse_take_succ hname]
                rfl
      · rw [if_neg hcloses]
        simp only [if_neg hcloses]
        exact .inr ⟨last, t, rfl, Nat.lt_succ_self last, ht, rfl⟩

/-- In front of any index that a header has a name is looked for without fault. -/
theorem nameBefore_eq (hle : opening ≤ header.length) :
    ∃ found, nameBefore header opening = .ok found ∧ (∀ index ∈ found, index < opening) ∧
      nameBefore? (header.take opening).reverse = found.bind fun index ↦ header[index]? := by
  rcases nameIndex_cases hle with ⟨hnone, hbefore⟩ | ⟨index, name, hindex, hlt, hname, hbefore⟩
  · refine ⟨none, ?_, by simp, hbefore⟩
    rw [nameBefore, hnone]
    rfl
  · have hread : nameBefore header opening =
        .ok ((asName? name (header.take index).reverse).map fun _ ↦ index) := by
      have hoperator := isBehindOperator_eq (Nat.le_trans (Nat.le_of_lt hlt) hle)
      rw [nameBefore, hindex, ok_bind]
      simp only [item_of_getElem? hname, ok_bind, hoperator, asName?]
      split <;> rfl
    refine ⟨_, hread, ?_, ?_⟩
    · intro found hfound
      obtain ⟨-, -, rfl⟩ := Option.map_eq_some_iff.mp hfound
      exact hlt
    · rw [hbefore, asName?]
      split
      · exact hname.symm
      · rfl

/-! ### Methods -/

structure MethodShape where
  opening : Nat
  name : Nat
deriving DecidableEq, Repr

def shapeAmong (header : List Token) : List (Nat × Token) → Except Fault (Option MethodShape)
  | [] => .ok none
  | (index, t) :: rest =>
      if t.isPunct "=" || t.isPunct "=>" then .ok none
      else if t.isPunct "(" then do
        match ← nameBefore header index with
        | some name => .ok (some ⟨index, name⟩)
        | none => shapeAmong header rest
      else shapeAmong header rest

def methodShape (header : List Token) : Except Fault (Option MethodShape) := do
  let delegates ← anyTop (·.isIdent "delegate") header
  if delegates then .ok none
  else do
    let top ← topLevel 0 0 header
    shapeAmong header top

def parameterLines (header : List Token) (opening : Nat) : Except Fault (List Nat) := do
  let parameters ← onward header (opening + 1)
  .ok (CSharp.parameterLines parameters)

/-- The indices of a method in a header, or that there is none. -/
inductive Shows (header : List Token) : Option MethodShape → Option MethodHeader → Prop
  | none : Shows header none none
  | some {shape : MethodShape} {m : MethodHeader} (hname : header[shape.name]? = some m.name)
      (hopening : shape.opening < header.length)
      (hparameters : header.drop (shape.opening + 1) = m.parameters) :
      Shows header (some shape) (some m)

/-- The search for the parameters goes along the tokens that are left. -/
theorem shapeAmong_eq (depth : Nat) (front back : List Token) :
    ∃ shape, shapeAmong (front ++ back) (topIndices depth front.length back) = .ok shape ∧
      Shows (front ++ back) shape (parameterList? depth front.reverse back) := by
  induction back generalizing depth front with
  | nil => exact ⟨none, rfl, .none⟩
  | cons t rest ih =>
      have hrest := ih (t.depthAfter depth) (front ++ [t])
      rw [List.reverse_concat, List.length_append, List.length_singleton, ← List.append_cons]
        at hrest
      rw [topIndices, parameterList?]
      by_cases hdepth : depth = 0
      · simp only [hdepth, if_true, true_and] at hrest ⊢
        have hboth : (t.isPunct "=" || t.isPunct "=>") = true ↔
            t.isPunct "=" = true ∨ t.isPunct "=>" = true := Bool.or_eq_true_iff
        rw [shapeAmong]
        by_cases hvalue : t.isPunct "=" = true ∨ t.isPunct "=>" = true
        · rw [if_pos (hboth.mpr hvalue), if_pos hvalue]
          exact ⟨none, rfl, .none⟩
        rw [if_neg (mt hboth.mp hvalue), if_neg hvalue]
        by_cases hopening : t.isPunct "(" = true
        · rw [if_pos hopening, if_pos hopening]
          have hlt : front.length < (front ++ t :: rest).length := by
            rw [List.length_append, List.length_cons]
            omega
          obtain ⟨found, hfound, hbefore, hname⟩ := nameBefore_eq (Nat.le_of_lt hlt)
          rw [List.take_left] at hname
          rw [hfound, ok_bind, hname]
          cases found with
          | none => exact hrest
          | some index =>
              obtain ⟨name, hget⟩ := exists_getElem? (Nat.lt_trans (hbefore index rfl) hlt)
              have hparameters : (front ++ t :: rest).drop (front.length + 1) = rest := by
                rw [List.append_cons, List.drop_left' (by simp)]
              rw [Option.bind_some, hget]
              exact ⟨some ⟨front.length, index⟩, rfl, .some hget hlt hparameters⟩
        · rw [if_neg hopening, if_neg hopening]
          exact hrest
      · simp only [hdepth, if_false, false_and]
        exact hrest

theorem methodShape_eq (header : List Token) :
    ∃ shape, methodShape header = .ok shape ∧ Shows header shape (methodHeader? header) := by
  rw [methodShape, anyTop_eq, ok_bind, methodHeader?, hasTopWord]
  split
  · exact ⟨none, rfl, .none⟩
  · rw [topLevel_eq, ok_bind]
    exact shapeAmong_eq 0 [] header

theorem parameterLines_eq (h : opening < header.length) :
    parameterLines header opening = .ok (CSharp.parameterLines (header.drop (opening + 1))) := by
  rw [parameterLines, onward_of_le h, ok_bind]

end GuestGate.CSharp.Checked
