import GuestGate.Proofs.CSharp.Stored
import GuestGate.Proofs.FSharp.Offsets
import GuestGate.Proofs.VisualBasic.Offsets

/-!
# Scans without faults

The scans of all three languages with their accesses spelled out: tokens and methods are looked up
by index, texts are cut at byte offsets, and depths are counted down.  Sources that are broken in
any way come through them like all others.
-/

namespace GuestGate

variable {text : List Char}

theorem CSharp.Checked.scan_of_length {o : Overflow} (h : text.length < 0x100000000)
    (hstops : o = .stops → text.length + 1 < 0x100000000) :
    scan o text = .ok (Declarations.scan text) := by
  apply scan_of_read
  apply tokens_of_fits hstops
  intro t ht
  exact fits_of_length_lt h ht

/-- No scan of a text is a fault, and each finds what it finds without looking at its accesses.
Behind that stands, for C#, that the methods of open bodies are stored at any time and that a name
is looked for without fault in front of every token of a header, whatever angle brackets are in it;
and for F#, that a group closes no more parentheses than it opens.  Where a counter must not pass
the last word, the place behind the text has to fit as well. -/
theorem scans_without_fault (h : text.length < 0x100000000) :
    CSharp.Checked.scan .wraps text = .ok (CSharp.Declarations.scan text) ∧
    (text.length + 1 < 0x100000000 →
      CSharp.Checked.scan .stops text = .ok (CSharp.Declarations.scan text)) ∧
    FSharp.Checked.staticBindings text = .ok (FSharp.staticBindings text) ∧
    VisualBasic.Checked.sharedInitializers text = .ok (VisualBasic.sharedInitializers text) ∧
    (∀ ts : List CSharp.Token, (ts.foldl CSharp.Scanner.push {}).Stored) ∧
    (∀ header opening, opening ≤ header.length →
      ∃ found, CSharp.Checked.nameBefore header opening = .ok found) ∧
    ∀ group : List Char, group.head? = some '(' →
      FSharp.Checked.afterGroup group = .ok (FSharp.afterGroup? 0 group) := by
  refine ⟨?_, ?_, FSharp.Checked.staticBindings_eq text,
    VisualBasic.Checked.sharedInitializers_eq text, ?_, ?_, ?_⟩
  · apply CSharp.Checked.scan_of_length h
    intro hstops
    cases hstops
  · intro hlast
    exact CSharp.Checked.scan_of_length h fun _ ↦ hlast
  · intro ts
    exact (CSharp.Scanner.stored_foldl_push ts).1
  · intro header opening hle
    obtain ⟨found, hfound, -⟩ := CSharp.Checked.nameBefore_eq hle
    exact ⟨found, hfound⟩
  · intro group hopen
    exact FSharp.Checked.afterGroup_eq hopen

/-- A text that breaks off in the middle of everything. -/
def brokenText : List Char :=
  "class A \x7b \x7d \x7d void F<,>>>(\n  let (x, ((y = [< 'é".toList

theorem brokenText_scanned : brokenText.length + 1 < 0x100000000 ∧
    CSharp.Checked.scan .stops brokenText = .ok (CSharp.Declarations.scan brokenText) ∧
    FSharp.Checked.staticBindings brokenText = .ok (FSharp.staticBindings brokenText) ∧
    VisualBasic.Checked.sharedInitializers brokenText =
      .ok (VisualBasic.sharedInitializers brokenText) := by
  have hlength : brokenText.length + 1 < 0x100000000 := by decide
  have hscans := scans_without_fault (Nat.lt_of_succ_lt hlength)
  exact ⟨hlength, hscans.2.1 hlength, hscans.2.2.1, hscans.2.2.2.1⟩

end GuestGate
