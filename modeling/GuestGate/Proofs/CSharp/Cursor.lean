import GuestGate.CSharp.Token
import GuestGate.Proofs.Fallible
import GuestGate.Proofs.Text.Slicing

/-!
# Tokens by index

The same tokens, read by a lexer that stands at an index of the text, counts lines and columns in
words of 32 bits and takes each token out of the text between two byte offsets.  No cut is a fault,
whatever the text, and a counter passes its last word only in texts that are longer than that.
-/

namespace GuestGate

/-- What becomes of a counter that does not fit into a word any more: it starts again, or that is
a fault. -/
inductive Overflow
  | wraps
  | stops
deriving DecidableEq, Repr

def Overflow.succ (o : Overflow) (n : Nat) : Except Fault Nat :=
  if n + 1 < 0x100000000 then .ok (n + 1)
  else
    match o with
    | wraps => .ok 0
    | stops => .error .overflow

theorem Overflow.succ_mod {o : Overflow} {n : Nat} (h : o = .stops → n + 1 < 0x100000000) :
    o.succ (n % 0x100000000) = .ok ((n + 1) % 0x100000000) := by
  unfold succ
  split
  · next hfits =>
      have hmod : (n + 1) % 0x100000000 = n % 0x100000000 + 1 := by omega
      rw [hmod]
  · next hfull =>
      cases o with
      | wraps =>
          have hmod : (n + 1) % 0x100000000 = 0 := by omega
          rw [hmod]
      | stops =>
          have hlt := h rfl
          omega

namespace Position

/-- A place as it is counted in words. -/
def word (p : Position) : Position :=
  ⟨p.line % 0x100000000, p.column % 0x100000000⟩

structure Fits (p : Position) : Prop where
  line : p.line < 0x100000000
  column : p.column < 0x100000000

theorem Fits.word_eq {p : Position} (h : p.Fits) : p.word = p := by
  rw [word, Nat.mod_eq_of_lt h.line, Nat.mod_eq_of_lt h.column]

theorem line_after_le (p : Position) (text : List Char) :
    (p.after text).line ≤ p.line + text.length := by
  induction text generalizing p with
  | nil => exact Nat.le_refl _
  | cons c text ih =>
      have hone : (p.next c).line ≤ p.line + 1 := by
        unfold next
        split <;> simp
      have hrest := ih (p.next c)
      rw [after_cons, List.length_cons]
      omega

theorem column_after_le {p : Position} (hp : 1 ≤ p.column) (text : List Char) :
    (p.after text).column ≤ p.column + text.length := by
  induction text generalizing p with
  | nil => exact Nat.le_refl _
  | cons c text ih =>
      have hone : 1 ≤ (p.next c).column ∧ (p.next c).column ≤ p.column + 1 := by
        unfold next
        split <;> simp
      have hrest := ih hone.1
      rw [after_cons, List.length_cons]
      omega

end Position

namespace CSharp

structure Cursor where
  index : Nat := 0
  position : Position := .start
deriving DecidableEq, Repr

def Token.word (t : Token) : Token :=
  { t with position := t.position.word }

namespace Checked

open GuestGate.Checked Text

variable {o : Overflow} {cursor next : Cursor}

def bump (o : Overflow) (cursor : Cursor) (c : Char) : Except Fault Cursor :=
  if c = '\n' then do
    let line ← o.succ cursor.position.line
    .ok ⟨cursor.index + 1, ⟨line, 1⟩⟩
  else do
    let column ← o.succ cursor.position.column
    .ok ⟨cursor.index + 1, ⟨cursor.position.line, column⟩⟩

def advance (o : Overflow) (cursor : Cursor) (taken : List Char) : Except Fault Cursor :=
  taken.foldlM (bump o) cursor

theorem index_of_bump {c : Char} (h : bump o cursor c = .ok next) :
    next.index = cursor.index + 1 := by
  unfold bump at h
  split at h
  · obtain ⟨line, -, hnext⟩ := bind_eq_ok_iff.mp h
    cases hnext
    rfl
  · obtain ⟨column, -, hnext⟩ := bind_eq_ok_iff.mp h
    cases hnext
    rfl

theorem index_of_advance {taken : List Char} (h : advance o cursor taken = .ok next) :
    next.index = cursor.index + taken.length := by
  induction taken generalizing cursor with
  | nil =>
      cases h
      rfl
  | cons c taken ih =>
      rw [advance, List.foldlM_cons] at h
      obtain ⟨middle, hmiddle, hrest⟩ := bind_eq_ok_iff.mp h
      rw [ih hrest, index_of_bump hmiddle, List.length_cons]
      omega

def tokensFrom (o : Overflow) (text : List Char) (cursor : Cursor) : Except Fault (List Token) :=
  match _hrest : text.drop cursor.index with
  | [] => .ok []
  | c :: rest =>
      pbind (advance o cursor (nextPiece c rest).1.text) fun next _hnext ↦
        match (nextPiece c rest).1.kind with
        | none => tokensFrom o text next
        | some kind => do
            let taken ← slice text (offsetOf text cursor.index) (offsetOf text next.index)
            let others ← tokensFrom o text next
            .ok (⟨kind, taken, cursor.position⟩ :: others)
termination_by text.length - cursor.index
decreasing_by
  all_goals
    have hindex := index_of_advance _hnext
    have htaken := List.length_pos_iff.mpr (nextPiece_text_ne_nil c rest)
    have hleft := congrArg List.length _hrest
    rw [List.length_drop, List.length_cons] at hleft
    omega

theorem tokensFrom_nil {text : List Char} (h : text.drop cursor.index = []) :
    tokensFrom o text cursor = .ok [] := by
  rw [tokensFrom]
  split
  · rfl
  · next hrest =>
      rw [h] at hrest
      cases hrest

theorem tokensFrom_cons {text rest : List Char} {c : Char}
    (h : text.drop cursor.index = c :: rest)
    (hnext : advance o cursor (nextPiece c rest).1.text = .ok next) :
    tokensFrom o text cursor =
      (match (nextPiece c rest).1.kind with
      | none => tokensFrom o text next
      | some kind => do
          let taken ← slice text (offsetOf text cursor.index) (offsetOf text next.index)
          let others ← tokensFrom o text next
          .ok (⟨kind, taken, cursor.position⟩ :: others)) := by
  rw [tokensFrom]
  split
  · next hrest =>
      rw [h] at hrest
      cases hrest
  · next hrest =>
      rw [h] at hrest
      cases hrest
      rw [pbind_of_eq_ok hnext]

def tokens (o : Overflow) (text : List Char) : Except Fault (List Token) :=
  tokensFrom o text {}

/-! ### Without faults -/

/-- Where a lexer stands that has read some text. -/
def cursorAfter (before : List Char) : Cursor :=
  ⟨before.length, (Position.start.after before).word⟩

theorem bump_cursorAfter {before : List Char} (c : Char)
    (h : o = .stops → before.length + 2 < 0x100000000) :
    bump o (cursorAfter before) c = .ok (cursorAfter (before ++ [c])) := by
  have hline : (Position.start.after before).line ≤ 1 + before.length :=
    Position.line_after_le .start before
  have hcolumn : (Position.start.after before).column ≤ 1 + before.length :=
    Position.column_after_le (Nat.le_refl 1) before
  have hsucc : ∀ n, n ≤ 1 + before.length →
      o.succ (n % 0x100000000) = .ok ((n + 1) % 0x100000000) := by
    intro n hn
    apply Overflow.succ_mod
    intro hstops
    have hlt := h hstops
    omega
  unfold bump cursorAfter
  rw [Position.after_append, Position.after_cons, Position.after_nil, Position.next,
    List.length_append, List.length_singleton]
  split
  · simp only [Position.word, hsucc _ hline, ok_bind, Nat.reduceMod]
  · simp only [Position.word, hsucc _ hcolumn, ok_bind]

/-- A lexer gets past any text that it can count. -/
theorem advance_cursorAfter {before : List Char} (taken : List Char)
    (h : o = .stops → (before ++ taken).length + 1 < 0x100000000) :
    advance o (cursorAfter before) taken = .ok (cursorAfter (before ++ taken)) := by
  induction taken generalizing before with
  | nil => rw [List.append_nil]; rfl
  | cons c taken ih =>
      rw [List.append_cons] at h ⊢
      have hone : o = .stops → before.length + 2 < 0x100000000 := by
        intro hstops
        have hlt := h hstops
        simp only [List.length_append, List.length_singleton] at hlt
        omega
      rw [advance, List.foldlM_cons, bump_cursorAfter c hone, ok_bind]
      exact ih h

/-- Wherever it stands, a lexer reads the pieces that are left, and every token is cut out of the
text as a whole. -/
theorem tokensFrom_eq (before rest : List Char)
    (h : o = .stops → (before ++ rest).length + 1 < 0x100000000) :
    tokensFrom o (before ++ rest) (cursorAfter before) =
      .ok ((tokensOf (Position.start.after before) (pieces rest)).map Token.word) := by
  fun_induction pieces rest generalizing before with
  | case1 =>
      rw [List.append_nil]
      exact tokensFrom_nil List.drop_length
  | case2 c rest ih =>
      have hpiece := nextPiece_append c rest
      generalize hread : nextPiece c rest = read at ih hpiece ⊢
      obtain ⟨⟨kind, taken⟩, left⟩ := read
      dsimp only at ih hpiece ⊢
      rw [← hpiece, ← List.append_assoc] at h ⊢
      have hnext : advance o (cursorAfter before) taken = .ok (cursorAfter (before ++ taken)) := by
        apply advance_cursorAfter
        intro hstops
        have hlt := h hstops
        rw [List.length_append] at hlt
        omega
      have hrest := ih (before ++ taken) h
      rw [Position.after_append] at hrest
      have hdrop : (before ++ taken ++ left).drop (cursorAfter before).index = c :: rest := by
        rw [List.append_assoc, hpiece]
        exact List.drop_left
      rw [tokensFrom_cons hdrop (by rw [hread]; exact hnext), hread, hrest]
      cases kind with
      | none => rfl
      | some kind =>
          -- the token stands between the places before it and behind it
          have hfirst : offsetOf (before ++ taken ++ left) (cursorAfter before).index =
              byteLength before := by
            rw [List.append_assoc]
            exact offsetOf_append before (taken ++ left)
          have hlast : offsetOf (before ++ taken ++ left) (cursorAfter (before ++ taken)).index =
              byteLength (before ++ taken) := offsetOf_append (before ++ taken) left
          dsimp only
          rw [hfirst, hlast, slice_append]
          rfl

theorem tokens_eq {text : List Char} (h : o = .stops → text.length + 1 < 0x100000000) :
    tokens o text = .ok ((CSharp.tokens text).map Token.word) :=
  tokensFrom_eq [] text h

/-- Where all places fit into words, the tokens are the same. -/
theorem tokens_of_fits {text : List Char} (h : o = .stops → text.length + 1 < 0x100000000)
    (hfits : ∀ t ∈ CSharp.tokens text, t.position.Fits) :
    tokens o text = .ok (CSharp.tokens text) := by
  have hword : ∀ t ∈ CSharp.tokens text, t.word = id t := by
    intro t ht
    rw [Token.word, (hfits t ht).word_eq]
    rfl
  rw [tokens_eq h, List.map_congr_left hword, List.map_id]

end Checked

end CSharp

end GuestGate
