import GuestGate.Run.Machine
import Mathlib.Data.List.GetD

/-!
# Passing texts to the host

Four host members take texts from their guest, one of them two.  All texts of a call are read
before any of them is put on record, so a call has its whole effect or none: whatever the
numbers are with which the guest says where its texts lie.
-/

namespace GuestGate

/-! ### Texts in memory -/

namespace Span

/-- A text lies inside a memory, at its very end if it is empty. -/
def LiesIn (span : Span) (memory : List UInt8) : Prop :=
  0 ≤ wrap32 span.pointer ∧ 0 ≤ wrap32 span.length ∧
    wrap32 span.pointer + wrap32 span.length ≤ memory.length

def bytes (span : Span) (memory : List UInt8) : List UInt8 :=
  (memory.drop (wrap32 span.pointer).toNat).take (wrap32 span.length).toNat

end Span

namespace Machine

def memory (guest : GuestModule) (m : Machine) : List UInt8 :=
  (List.range (m.pages * pageSize)).map fun i ↦ guest.data.getD i 0

def exported? (inst : Instance) (m : Machine) : Option (List UInt8) :=
  if inst.guest.exportsMemory then some (m.memory inst.guest) else none

theorem length_memory (guest : GuestModule) (m : Machine) :
    (m.memory guest).length = m.pages * pageSize := by
  simp [memory]

theorem getElem_memory (guest : GuestModule) (m : Machine) {i : Nat}
    (h : i < (m.memory guest).length) : (m.memory guest)[i] = guest.data.getD i 0 := by
  simp [memory]

theorem length_bytesAt (guest : GuestModule) (start length : Nat) :
    (bytesAt guest start length).length = length := by
  simp only [bytesAt, List.length_append, List.length_replicate, List.length_take]
  omega

/-- Bytes behind the data that a guest comes with are read as zeros. -/
theorem getElem_bytesAt (guest : GuestModule) {start length i : Nat}
    (h : i < (bytesAt guest start length).length) :
    (bytesAt guest start length)[i] = guest.data.getD (start + i) 0 := by
  have hi : i < length := by rwa [length_bytesAt] at h
  simp only [bytesAt, List.getElem_append]
  split
  · rw [List.getElem_take, List.getElem_drop, List.getD_eq_getElem]
  · next hstored =>
    simp only [List.length_take, List.length_drop] at hstored
    rw [List.getElem_replicate, List.getD_eq_default _ _ (by omega)]

/-- What the host reads at a place is what stands there in memory. -/
theorem bytesAt_eq (guest : GuestModule) (m : Machine) {start length : Nat}
    (h : start + length ≤ m.pages * pageSize) :
    bytesAt guest start length = ((m.memory guest).drop start).take length := by
  apply List.ext_getElem
  · rw [length_bytesAt, List.length_take, List.length_drop, length_memory]
    omega
  · intro i hi hi'
    rw [getElem_bytesAt, List.getElem_take, List.getElem_drop, getElem_memory]

variable {inst : Instance} {m : Machine} {span : Span}

theorem readText_eq_ok_iff {text : List Char} : m.readText inst span = .ok text ↔
    ∃ memory, m.exported? inst = some memory ∧ span.LiesIn memory ∧
      Text.decode (span.bytes memory) = text := by
  unfold readText exported?
  split
  · next hnone =>
    have hfalse : inst.guest.exportsMemory = false := by simpa using hnone
    simp [hfalse]
  · next hexports =>
    have htrue : inst.guest.exportsMemory = true := by simpa using hexports
    simp only [htrue, if_true, Option.some_inj, exists_eq_left', Span.LiesIn, length_memory]
    split
    · next hnegative =>
      simp only [reduceCtorEq, false_iff]
      omega
    · next hnumbers =>
      split
      · next hinside =>
        rw [bytesAt_eq inst.guest m hinside, Except.ok.injEq]
        refine ⟨fun htext ↦ ⟨by omega, htext⟩, fun h ↦ h.2⟩
      · next houtside =>
        simp only [reduceCtorEq, false_iff]
        omega

def textAt (inst : Instance) (m : Machine) (span : Span) : List Char :=
  Text.decode (span.bytes (m.memory inst.guest))

theorem textAt_of_exported {memory : List UInt8} (h : m.exported? inst = some memory) :
    m.textAt inst span = Text.decode (span.bytes memory) := by
  unfold exported? at h
  split at h
  · obtain rfl := Option.some_inj.mp h
    rfl
  · cases h

/-- What goes on with a text goes on with the text at its place. -/
theorem withText_eq (next : List Char → Outcome) :
    m.withText inst span next = m.withText inst span fun _ ↦ next (m.textAt inst span) := by
  unfold withText
  cases hread : m.readText inst span with
  | error fault => rfl
  | ok text =>
      obtain ⟨memory, hmemory, -, htext⟩ := readText_eq_ok_iff.mp hread
      rw [textAt_of_exported hmemory, htext]

/-- Go on when all of some texts have been read. -/
def afterTexts (inst : Instance) (m : Machine) (spans : List Span) (o : Outcome) : Outcome :=
  spans.foldr (fun span o ↦ m.withText inst span fun _ ↦ o) o

theorem afterTexts_cons (spans : List Span) (o : Outcome) : m.afterTexts inst (span :: spans) o =
    m.withText inst span fun _ ↦ m.afterTexts inst spans o := rfl

theorem afterTexts_of_liesIn {memory : List UInt8} (hmemory : m.exported? inst = some memory)
    {spans : List Span} (hspans : ∀ span ∈ spans, span.LiesIn memory) (o : Outcome) :
    m.afterTexts inst spans o = o := by
  induction spans with
  | nil => rfl
  | cons span spans ih =>
      have hread := readText_eq_ok_iff.mpr ⟨memory, hmemory, hspans span (by simp), rfl⟩
      rw [afterTexts_cons, ih fun other hother ↦ hspans other (List.mem_cons_of_mem _ hother)]
      simp only [withText, hread]

/-- The first text that cannot be read stops the guest, and nothing has been done before. -/
theorem afterTexts_of_not_liesIn {spans : List Span}
    (hspans : ∀ memory, m.exported? inst = some memory → ¬ ∀ span ∈ spans, span.LiesIn memory)
    (hsome : spans ≠ []) (o : Outcome) : ∃ span ∈ spans, ∃ fault,
      m.readText inst span = .error fault ∧
        m.afterTexts inst spans o = .halted m (.faulted fault) := by
  induction spans with
  | nil => contradiction
  | cons span spans ih =>
      rw [afterTexts_cons]
      cases hread : m.readText inst span with
      | error fault =>
          refine ⟨span, by simp, fault, hread, ?_⟩
          simp only [withText, hread]
      | ok text =>
          -- the text that does not lie in memory is one of the others
          obtain ⟨memory, hmemory, hlies, -⟩ := readText_eq_ok_iff.mp hread
          have hothers : ∀ memory, m.exported? inst = some memory →
              ¬ ∀ span ∈ spans, span.LiesIn memory := by
            intro same hsame hall
            obtain rfl := Option.some_inj.mp (hmemory.symm.trans hsame)
            exact hspans memory hmemory (List.forall_mem_cons.mpr ⟨hlies, hall⟩)
          have hmore : spans ≠ [] := by
            rintro rfl
            exact hothers memory hmemory (List.forall_mem_nil _)
          obtain ⟨first, hfirst, fault, hfault, hhalted⟩ :=
            ih hothers hmore
          refine ⟨first, List.mem_cons_of_mem _ hfirst, fault, hfault, ?_⟩
          simp only [withText, hread, hhalted]

end Machine

/-! ### Calls with texts -/

/-- A call of a host member that takes texts. -/
inductive TextCall
  | write (text : Span)
  | writeLine (text : Span)
  | reportValue (line : Int) (expression value : Span)
  | reportException (line : Int) (description : Span)
deriving DecidableEq, Repr

namespace TextCall

def action : TextCall → Action
  | write text => .write text
  | writeLine text => .writeLine text
  | reportValue line expression value => .reportValue line expression value
  | reportException line description => .reportException line description

def member : TextCall → HostMember
  | write _ => .write
  | writeLine _ => .writeLine
  | reportValue .. => .reportValue
  | reportException .. => .reportException

/-- Where the texts lie, in the order in which they are read. -/
def spans : TextCall → List Span
  | write text | writeLine text => [text]
  | reportValue _ expression value => [expression, value]
  | reportException _ description => [description]

theorem spans_ne_nil (call : TextCall) : call.spans ≠ [] := by
  cases call <;> exact List.cons_ne_nil _ _

/-- What a call does whose texts have been read. -/
def done (call : TextCall) (read : Span → List Char) (m : Machine) : Machine :=
  match call with
  | write text => { m with output := m.output.write (read text) }
  | writeLine text => { m with output := (m.output.write (read text)).write ['\n'] }
  | reportValue line expression value =>
      { m with flow := m.flow.record (.value (Machine.lineNumber line)
          (String.ofList (read expression)) (String.ofList (read value))) }
  | reportException line description =>
      { m with flow := m.flow.record (.exception (Machine.lineNumber line)
          (String.ofList (read description))) }

/-- There is a memory to look into, and all texts of a call lie inside it. -/
def InMemory (call : TextCall) (inst : Instance) (m : Machine) : Prop :=
  ∃ memory, m.exported? inst = some memory ∧ ∀ span ∈ call.spans, span.LiesIn memory

variable {inst : Instance} {call : TextCall} {link : Link}

/-- A call does nothing until all its texts have been read. -/
theorem perform_action (hlink : inst.link? call.member = some link) (m : Machine) :
    m.perform inst call.action =
      m.afterTexts inst call.spans (.running (call.done (m.textAt inst) m)) := by
  cases call with
  | write text =>
      change inst.link? .write = _ at hlink
      simp only [action, Machine.perform, Machine.call, hlink]
      exact Machine.withText_eq _
  | writeLine text =>
      change inst.link? .writeLine = _ at hlink
      simp only [action, Machine.perform, Machine.call, hlink]
      exact Machine.withText_eq _
  | reportValue line expression value =>
      change inst.link? .reportValue = _ at hlink
      simp only [action, Machine.perform, Machine.call, hlink]
      rw [Machine.withText_eq]
      exact congrArg (m.withText inst expression) (funext fun _ ↦ Machine.withText_eq _)
  | reportException line description =>
      change inst.link? .reportException = _ at hlink
      simp only [action, Machine.perform, Machine.call, hlink]
      exact Machine.withText_eq _

theorem perform_of_liesIn (hlink : inst.link? call.member = some link) {m : Machine}
    {memory : List UInt8} (hmemory : m.exported? inst = some memory)
    (hspans : ∀ span ∈ call.spans, span.LiesIn memory) :
    m.perform inst call.action =
      .running (call.done (fun span ↦ Text.decode (span.bytes memory)) m) := by
  have hread : m.textAt inst = fun span ↦ Text.decode (span.bytes memory) :=
    funext fun span ↦ Machine.textAt_of_exported hmemory
  rw [perform_action hlink, Machine.afterTexts_of_liesIn hmemory hspans, hread]

theorem perform_of_not_inMemory (hlink : inst.link? call.member = some link) {m : Machine}
    (hout : ¬ call.InMemory inst m) : ∃ span ∈ call.spans, ∃ fault,
      m.readText inst span = .error fault ∧
        m.perform inst call.action = .halted m (.faulted fault) := by
  rw [perform_action hlink]
  apply Machine.afterTexts_of_not_liesIn _ call.spans_ne_nil
  intro memory hmemory hspans
  exact hout ⟨memory, hmemory, hspans⟩

/-- For every memory or none, all numbers and every state before: a call goes on exactly if all
its texts lie inside a memory that the guest exports.  Then these texts are put on record, once
and with nothing else.  Otherwise the guest is stopped in the state that it was in. -/
theorem texts_passed_together (hlink : inst.link? call.member = some link) (m : Machine) :
    ((∃ after, m.perform inst call.action = .running after) ↔ call.InMemory inst m) ∧
    (∀ memory, m.exported? inst = some memory → (∀ span ∈ call.spans, span.LiesIn memory) →
      m.perform inst call.action =
        .running (call.done (fun span ↦ Text.decode (span.bytes memory)) m)) ∧
    (¬ call.InMemory inst m → ∃ span ∈ call.spans, ∃ fault,
      m.readText inst span = .error fault ∧
        m.perform inst call.action = .halted m (.faulted fault)) := by
  refine ⟨⟨?_, ?_⟩, fun _ ↦ perform_of_liesIn hlink, perform_of_not_inMemory hlink⟩
  · rintro ⟨after, hafter⟩
    apply Classical.byContradiction
    intro hout
    obtain ⟨-, -, fault, -, hhalted⟩ := perform_of_not_inMemory hlink hout
    cases hhalted.symm.trans hafter
  · rintro ⟨memory, hmemory, hspans⟩
    exact ⟨_, perform_of_liesIn hlink hmemory hspans⟩

/-- A guest with one page of memory that begins with two letters. -/
def greeting : Instance where
  guest := {
    imports := [HostMember.writeLine.toImport, HostMember.reportValue.toImport]
    memory := some { pages := 1 }
    data := [104, 105] }
  links := [⟨.writeLine, HostMember.writeLine.toImport.callSite⟩,
    ⟨.reportValue, HostMember.reportValue.toImport.callSite⟩]
  deadline := 1000000000

def greetingStart : Machine where
  limiter := { ceiling := pageSize }
  output := { limit := 8 }
  flow := { limit := 1 }
  fuel := none
  pages := 1
  elements := 0
  cursors := []

theorem exported?_greetingStart : greetingStart.exported? greeting =
    some (greetingStart.memory greeting.guest) := rfl

theorem liesIn_greeting_iff (span : Span) : span.LiesIn (greetingStart.memory greeting.guest) ↔
    0 ≤ wrap32 span.pointer ∧ 0 ≤ wrap32 span.length ∧
      wrap32 span.pointer + wrap32 span.length ≤ 65536 := by
  rw [Span.LiesIn, Machine.length_memory]
  rfl

theorem liesIn_of_mem_line {span : Span} (h : 0 ≤ wrap32 span.pointer ∧ 0 ≤ wrap32 span.length ∧
    wrap32 span.pointer + wrap32 span.length ≤ 65536) :
    ∀ other ∈ (writeLine span).spans, other.LiesIn (greetingStart.memory greeting.guest) := by
  intro other hother
  obtain rfl := List.mem_singleton.mp hother
  exact (liesIn_greeting_iff other).mpr h

/-- The first two letters of memory are handed over as a line, and so is the empty text at its
very end.  A value that goes over the end is not reported, although its expression could be
read. -/
theorem greeting_passed_together :
    greetingStart.perform greeting (writeLine ⟨0, 2⟩).action =
      .running { greetingStart with output := { limit := 8, buffer := #[104, 105, 10] } } ∧
    greetingStart.perform greeting (writeLine ⟨65536, 0⟩).action =
      .running { greetingStart with output := { limit := 8, buffer := #[10] } } ∧
    ∃ fault, greetingStart.perform greeting (reportValue 3 ⟨0, 2⟩ ⟨65535, 2⟩).action =
      .halted greetingStart (.faulted fault) := by
  have hline : ∀ span, greeting.link? (writeLine span).member =
      some ⟨.writeLine, HostMember.writeLine.toImport.callSite⟩ := fun _ ↦ rfl
  have hvalue : greeting.link? (reportValue 3 ⟨0, 2⟩ ⟨65535, 2⟩).member =
      some ⟨.reportValue, HostMember.reportValue.toImport.callSite⟩ := rfl
  refine ⟨?_, ?_, ?_⟩
  · have hbytes : Span.bytes ⟨0, 2⟩ (greetingStart.memory greeting.guest) = [104, 105] :=
      (Machine.bytesAt_eq greeting.guest greetingStart (by decide)).symm
    rw [(texts_passed_together (hline ⟨0, 2⟩) greetingStart).2.1 _ exported?_greetingStart
      (liesIn_of_mem_line (by decide))]
    simp only [done, hbytes]
    rfl
  · have hbytes : Span.bytes ⟨65536, 0⟩ (greetingStart.memory greeting.guest) = [] :=
      List.take_zero
    rw [(texts_passed_together (hline ⟨65536, 0⟩) greetingStart).2.1 _ exported?_greetingStart
      (liesIn_of_mem_line (by decide))]
    simp only [done, hbytes]
    rfl
  · obtain ⟨-, -, fault, -, hhalted⟩ := (texts_passed_together hvalue greetingStart).2.2 (by
      rintro ⟨memory, hsame, hspans⟩
      obtain rfl := Option.some_inj.mp (exported?_greetingStart.symm.trans hsame)
      have hinside := (liesIn_greeting_iff _).mp (hspans ⟨65535, 2⟩ (by simp [spans]))
      exact absurd hinside (by decide))
    exact ⟨fault, hhalted⟩

end TextCall

end GuestGate
