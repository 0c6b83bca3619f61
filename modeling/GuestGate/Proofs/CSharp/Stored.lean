import GuestGate.Proofs.CSharp.Found
import GuestGate.Proofs.CSharp.Indices
import GuestGate.Proofs.CSharp.Tiling

/-!
# Scans by index

The scan with its accesses spelled out: the first token of a header and the name of a method are
looked up, and the body of a method remembers the index at which the method is stored.  Methods are
only ever added, so that index exists for as long as the body is open.
-/

namespace GuestGate.CSharp

namespace Checked

open GuestGate.Checked

variable {s : Scanner} {shape : MethodShape} {m : MethodHeader}

/-- Record a method and tell the index at which it is stored. -/
def recordMethod (s : Scanner) (types : List String) (shape : MethodShape) (last : Position) :
    Except Fault (Scanner × Nat) := do
  let name ← item s.header shape.name
  let word := if name.kind = .ident then String.ofList name.text else "operator"
  let isStatic ← anyTop (·.isIdent "static") s.header
  let first ← item s.header 0
  let lines ← parameterLines s.header shape.opening
  let method : Method := ⟨word, first.position, last, lines⟩
  let added := { s with found := { s.found with methods := s.found.methods ++ [method] } }
  let recorded :=
    if isStatic = true ∧ types.head? = some word then added.recordStatic types else added
  let index ← minus recorded.found.methods.length 1
  .ok (recorded, index)

def openScope (s : Scanner) (p : Position) : Except Fault (Scanner × Scope) := do
  if s.header.any (·.isIdent "namespace") then .ok (s, .namespaceBody)
  else
    match ← declaredType s.header with
    | some name => .ok (s, .typeBody name)
    | none =>
        match s.openTypes? with
        | none => .ok (s, .memberBody none)
        | some types =>
            let s := { s with awaitsInitializer := false }
            match ← methodShape s.header with
            | some shape =>
                let (s, index) ← recordMethod s types shape p
                .ok (s, .memberBody (some index))
            | none =>
                if ← anyTop (·.isIdent "static") s.header then
                  if ← anyTop (·.isPunct "=") s.header then
                    .ok (s.recordStatic types, .memberBody none)
                  else .ok ({ s with awaitsInitializer := true }, .memberBody none)
                else .ok (s, .memberBody none)

def endDeclaration (s : Scanner) (p : Position) : Except Fault Scanner := do
  match s.openTypes? with
  | none => .ok s
  | some types =>
      if s.header.isEmpty then .ok s
      else if (← declaredType s.header).isSome then .ok s
      else
        match ← methodShape s.header with
        | some shape =>
            let recorded ← recordMethod s types shape p
            .ok recorded.1
        | none =>
            let first ← item s.header 0
            let isStatic ← anyTop (·.isIdent "static") s.header
            let isAssigned ← anyTop (·.isPunct "=") s.header
            .ok (if (first.isPunct "=" && s.awaitsInitializer) || (isStatic && isAssigned)
              then s.recordStatic types else s)

def endMethod (s : Scanner) (index : Nat) (p : Position) : Except Fault Scanner := do
  let _ ← item s.found.methods index
  .ok (s.endMethod index p)

def pushInBody (s : Scanner) (method : Option Nat) (outer : List Scope) (t : Token) :
    Except Fault Scanner :=
  if t.isPunct "\x7b" then .ok { s with scopes := .memberBody none :: s.scopes }
  else if t.isPunct "\x7d" then
    match method with
    | some index => endMethod { s with scopes := outer } index t.position
    | none => .ok { s with scopes := outer }
  else .ok s

def pushOutside (s : Scanner) (t : Token) : Except Fault Scanner := do
  if t.isPunct "\x7b" then
    let (s, scope) ← openScope s t.position
    .ok { s with scopes := scope :: s.scopes, header := [] }
  else if t.isPunct ";" then
    let s ← endDeclaration s t.position
    .ok { s with awaitsInitializer := false, header := [] }
  else if t.isPunct "\x7d" then .ok { s with scopes := s.scopes.tail, header := [] }
  else .ok { s with header := s.header ++ [t] }

def push (s : Scanner) (t : Token) : Except Fault Scanner :=
  match s.scopes with
  | .memberBody method :: outer => pushInBody s method outer t
  | _ => pushOutside s t

def scan (o : Overflow) (text : List Char) : Except Fault Declarations := do
  let tokens ← tokens o text
  let s ← tokens.foldlM push {}
  .ok s.found

/-! ### What is declared -/

theorem anyTop_static (header : List Token) :
    anyTop (·.isIdent "static") header = .ok (isStatic header) :=
  anyTop_eq _ header

theorem anyTop_equals (header : List Token) :
    anyTop (·.isPunct "=") header = .ok (hasInitializer header) :=
  anyTop_eq _ header

theorem recordMethod_eq (h : Shows s.header (some shape) (some m)) (types : List String)
    (last : Position) :
    recordMethod s types shape last =
      .ok (s.recordMethod types m last, s.found.methods.length) := by
  cases h with
  | some hname hopening hparameters =>
      obtain ⟨t, ht⟩ := exists_getElem? (Nat.zero_lt_of_lt hopening)
      have hindex : minus (s.recordMethod types m last).found.methods.length 1 =
          .ok s.found.methods.length := by
        rw [Scanner.length_recordMethod, minus_of_le (Nat.le_add_left _ _), Nat.add_sub_cancel]
      have hfirst : (s.header.head?.map Token.position).getD last = t.position := by
        rw [List.head?_eq_getElem?, ht]
        rfl
      simp only [recordMethod, item_of_getElem? hname, item_of_getElem? ht, anyTop_static, ok_bind,
        parameterLines_eq hopening, hparameters]
      simp only [Scanner.recordMethod, hfirst, MethodHeader.methodName] at hindex ⊢
      rw [hindex]
      rfl

theorem openScope_eq (s : Scanner) (p : Position) : openScope s p = .ok (s.openScope p) := by
  obtain ⟨shape, hshape, hshows⟩ := methodShape_eq s.header
  unfold openScope Scanner.openScope
  split
  · rfl
  rw [declaredType_eq, ok_bind]
  cases declaredType? s.header with
  | some name => rfl
  | none =>
      cases s.openTypes? with
      | none => rfl
      | some types =>
          have hrecord (m : MethodHeader) (shape : MethodShape)
              (h : Shows s.header (some shape) (some m)) :=
            recordMethod_eq (s := { s with awaitsInitializer := false }) h types p
          dsimp only
          rw [hshape, ok_bind]
          generalize methodHeader? s.header = m at hshows
          cases hshows with
          | none =>
              dsimp only
              rw [anyTop_static, ok_bind]
              cases isStatic s.header with
              | false => rfl
              | true =>
                  rw [if_pos rfl, if_pos rfl, anyTop_equals, ok_bind]
                  cases hasInitializer s.header <;> rfl
          | some hname hopening hparameters =>
              dsimp only
              rw [hrecord _ _ (.some hname hopening hparameters), ok_bind]

theorem endDeclaration_eq (s : Scanner) (p : Position) :
    endDeclaration s p = .ok (s.endDeclaration p) := by
  obtain ⟨shape, hshape, hshows⟩ := methodShape_eq s.header
  have hrecord (types : List String) (m : MethodHeader) (shape : MethodShape)
      (h : Shows s.header (some shape) (some m)) := recordMethod_eq h types p
  unfold endDeclaration Scanner.endDeclaration
  cases s.openTypes? with
  | none => rfl
  | some types =>
      cases hheader : s.header with
      | nil => rfl
      | cons t ts =>
          rw [hheader] at hshape hshows hrecord
          have hfirst : item (t :: ts) 0 = .ok t := rfl
          dsimp only
          rw [List.isEmpty_cons, if_neg Bool.false_ne_true, declaredType_eq, ok_bind]
          split
          · rfl
          rw [hshape, ok_bind]
          generalize methodHeader? (t :: ts) = m at hshows
          cases hshows with
          | none =>
              dsimp only
              rw [hfirst, ok_bind, anyTop_static, ok_bind, anyTop_equals, ok_bind]
          | some hname hopening hparameters =>
              dsimp only
              rw [hrecord _ _ _ (.some hname hopening hparameters), ok_bind]

end Checked

namespace Scanner

variable {s : Scanner}

/-- The method of every open body is stored. -/
def Stored (s : Scanner) : Prop :=
  ∀ index, Scope.memberBody (some index) ∈ s.scopes → index < s.found.methods.length

theorem lt_length_openScope (s : Scanner) (p : Position) :
    ∀ index, (s.openScope p).2 = .memberBody (some index) →
      index < (s.openScope p).1.found.methods.length := by
  unfold openScope
  split
  · nofun
  split
  · nofun
  split
  · nofun
  dsimp only
  split
  · intro index h
    cases h
    rw [length_recordMethod]
    exact Nat.lt_succ_self _
  split
  · split <;> nofun
  · nofun

theorem Stored.endMethod (h : s.Stored) (index : Nat) (p : Position) :
    (s.endMethod index p).Stored := by
  intro other hother
  rw [Scanner.endMethod, List.length_modify]
  exact h other hother

theorem Stored.pushInBody (h : s.Stored) {method : Option Nat} {outer : List Scope}
    (hscopes : s.scopes = .memberBody method :: outer) (t : Token) :
    (s.pushInBody method outer t).Stored ∧
      Checked.pushInBody s method outer t = .ok (s.pushInBody method outer t) := by
  have houter : Stored { s with scopes := outer } := fun index hindex ↦
    h index (hscopes ▸ List.mem_cons_of_mem _ hindex)
  unfold Scanner.pushInBody Checked.pushInBody
  by_cases hopen : t.isPunct "\x7b" = true
  · rw [if_pos hopen, if_pos hopen]
    refine ⟨fun index hindex ↦ h index ?_, rfl⟩
    exact (List.mem_cons.mp hindex).resolve_left nofun
  rw [if_neg hopen, if_neg hopen]
  by_cases hclose : t.isPunct "\x7d" = true
  · rw [if_pos hclose, if_pos hclose]
    cases method with
    | none => exact ⟨houter, rfl⟩
    | some index =>
        -- the body that is closed was open, so its method is there
        have hlt := h index (hscopes ▸ List.mem_cons_self)
        refine ⟨houter.endMethod index t.position, ?_⟩
        dsimp only
        rw [Checked.endMethod, Checked.item_of_getElem? (List.getElem?_eq_getElem hlt)]
        rfl
  · rw [if_neg hclose, if_neg hclose]
    exact ⟨h, rfl⟩

theorem Stored.pushOutside (h : s.Stored) (t : Token) :
    (s.pushOutside t).Stored ∧ Checked.pushOutside s t = .ok (s.pushOutside t) := by
  unfold Scanner.pushOutside Checked.pushOutside
  by_cases hopen : t.isPunct "\x7b" = true
  · rw [if_pos hopen, if_pos hopen, Checked.openScope_eq]
    refine ⟨?_, rfl⟩
    intro index hindex
    rcases List.mem_cons.mp hindex with hscope | hscope
    · exact lt_length_openScope s t.position index hscope.symm
    · have hlt := h index (scopes_openScope s t.position ▸ hscope)
      exact Nat.lt_of_lt_of_le hlt (methods_prefix_openScope s t.position).1.length_le
  rw [if_neg hopen, if_neg hopen]
  by_cases hend : t.isPunct ";" = true
  · rw [if_pos hend, if_pos hend, Checked.endDeclaration_eq]
    refine ⟨?_, rfl⟩
    intro index hindex
    have hlt := h index (scopes_endDeclaration s t.position ▸ hindex)
    exact Nat.lt_of_lt_of_le hlt (methods_prefix_endDeclaration s t.position).length_le
  rw [if_neg hend, if_neg hend]
  by_cases hclose : t.isPunct "\x7d" = true
  · rw [if_pos hclose, if_pos hclose]
    exact ⟨fun index hindex ↦ h index (List.mem_of_mem_tail hindex), rfl⟩
  · rw [if_neg hclose, if_neg hclose]
    exact ⟨h, rfl⟩

theorem Stored.push (h : s.Stored) (t : Token) :
    (s.push t).Stored ∧ Checked.push s t = .ok (s.push t) := by
  rcases hscopes : s.scopes with _ | ⟨scope, outer⟩
  · rw [Scanner.push, Checked.push, hscopes]
    exact h.pushOutside t
  · rw [Scanner.push, Checked.push, hscopes]
    cases scope with
    | memberBody method => exact h.pushInBody hscopes t
    | namespaceBody => exact h.pushOutside t
    | typeBody name => exact h.pushOutside t

/-- Whatever has been read, the methods of open bodies are stored, and no access was a fault. -/
theorem Stored.foldl_push (h : s.Stored) (ts : List Token) :
    (ts.foldl Scanner.push s).Stored ∧
      ts.foldlM Checked.push s = .ok (ts.foldl Scanner.push s) := by
  induction ts generalizing s with
  | nil => exact ⟨h, rfl⟩
  | cons t ts ih =>
      obtain ⟨hnext, hpush⟩ := h.push t
      obtain ⟨hstored, hrest⟩ := ih hnext
      refine ⟨hstored, ?_⟩
      rw [List.foldlM_cons, hpush, List.foldl_cons]
      exact hrest

theorem stored_foldl_push (ts : List Token) :
    (ts.foldl Scanner.push {}).Stored ∧
      ts.foldlM Checked.push {} = .ok (ts.foldl Scanner.push {}) := by
  apply Stored.foldl_push
  intro index hindex
  cases hindex

end Scanner

namespace Checked

open GuestGate.Checked

variable {o : Overflow} {text : List Char}

theorem scan_of_read (h : tokens o text = .ok (CSharp.tokens text)) :
    scan o text = .ok (Declarations.scan text) := by
  rw [scan, h, ok_bind, (Scanner.stored_foldl_push _).2, ok_bind]
  rfl

end Checked

end GuestGate.CSharp
