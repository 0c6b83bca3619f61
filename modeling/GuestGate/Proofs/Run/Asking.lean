import GuestGate.Proofs.Run.Moments

/-!
# Limiter and memory follow the moments

What a part of a run does to the limiter is to ask it for what the moments of the part request,
in order and for nothing else, and the memory grows by what is granted and declared.  This is
shown for each action, and then for all code by induction on it; code that host members call is
taken in by induction on how deep the calls lie inside each other.
-/

namespace GuestGate

/-! ### The memory of a guest -/

/-- The memory of a guest: what the limiter knows of it, and its size in bytes. -/
structure Holding where
  limiter : Limiter
  bytes : Nat

def Machine.holding (m : Machine) : Holding where
  limiter := m.limiter
  bytes := m.pages * pageSize

/-- The bytes that the memory of a guest can grow to, none without a memory. -/
def GuestModule.maxBytes (guest : GuestModule) : Nat :=
  guest.memory.elim 0 MemoryType.limit * pageSize

namespace Holding

/-- What becomes of the memory after a request.  The limiter may grant more than the guest has
declared; the memory does not grow then. -/
def grow (maximum : Nat) (h : Holding) (g : Growth) : Holding where
  limiter := h.limiter.asked g
  bytes :=
    match g with
    | .memory bytes => if bytes ≤ h.limiter.ceiling ∧ bytes ≤ maximum then bytes else h.bytes
    | .table _ => h.bytes

def after (maximum : Nat) (h : Holding) (moment : Moment) : Holding :=
  moment.request?.elim h (h.grow maximum)

end Holding

/-- Moments lead from one state of the memory to another: each finds what the moments before it
have left. -/
def Leads (maximum : Nat) : Holding → List Moment → Holding → Prop
  | h, [], last => last = h
  | h, moment :: rest, last =>
      moment.machine.holding = h ∧ Leads maximum (h.after maximum moment) rest last

namespace Leads

variable {maximum : Nat} {h h' last : Holding} {moments moments' : List Moment}

theorem append (hfirst : Leads maximum h moments h') (hrest : Leads maximum h' moments' last) :
    Leads maximum h (moments ++ moments') last := by
  induction moments generalizing h with
  | nil =>
      cases hfirst
      exact hrest
  | cons moment rest ih => exact ⟨hfirst.1, ih hfirst.2⟩

/-- The limiter is asked for what the moments request, and for nothing else. -/
theorem limiter_eq (hleads : Leads maximum h moments last) :
    last.limiter = (moments.filterMap Moment.request?).foldl Limiter.asked h.limiter := by
  induction moments generalizing h with
  | nil =>
      cases hleads
      rfl
  | cons moment rest ih =>
      have hrest := ih hleads.2
      cases hrequest : moment.request? <;> simpa [Holding.after, Holding.grow, hrequest] using hrest

end Leads

/-! ### The memory after a part of a run -/

def Grows (inst : Instance) (m : Machine) (moments : List Moment) (o : Outcome) : Prop :=
  Leads inst.guest.maxBytes m.holding moments o.machine.holding

def Instance.GrowsWithin (inst : Instance) (nested : List Instr → Machine → List Moment) : Prop :=
  ∀ body m, Grows inst m (nested body m) (inst.callGuest body m)

section Grows

variable {inst : Instance} {m m' : Machine} {moments moments' : List Moment} {o : Outcome}

theorem Grows.of_same (h : o.machine.holding = m.holding) : Grows inst m [] o := h

theorem Grows.append (h : Grows inst m moments (.running m')) (h' : Grows inst m' moments' o) :
    Grows inst m (moments ++ moments') o :=
  Leads.append h h'

theorem Grows.andThen {next : Machine → Outcome} {nextMoments : Machine → List Moment}
    (h : Grows inst m moments o) (hnext : ∀ m', Grows inst m' (nextMoments m') (next m')) :
    Grows inst m (moments ++ o.momentsThen nextMoments) (o.andThen next) := by
  cases o with
  | running m' => exact h.append (hnext m')
  | halted m' halt => simpa [Outcome.momentsThen] using h

theorem Grows.congr {o' : Outcome} (h : Grows inst m moments o)
    (hsame : o'.machine.holding = o.machine.holding) : Grows inst m moments o' := by
  rwa [Grows, hsame]

/-- An action that requests a growth, unless it is one by nothing, has what comes of it. -/
theorem Grows.of_request {action : Action} {more : Nat} {g : Growth}
    (hrequest : Moment.request? ⟨m, action⟩ = if more = 0 then none else some g)
    (h : o.machine.holding =
      if more = 0 then m.holding else m.holding.grow inst.guest.maxBytes g) :
    Grows inst m [⟨m, action⟩] o := by
  refine ⟨rfl, ?_⟩
  rw [Holding.after, hrequest]
  split at h
  · next hzero =>
    rw [if_pos hzero]
    exact h
  · next hmore =>
    rw [if_neg hmore]
    exact h

/-- An action that requests nothing itself leaves what is requested within it. -/
theorem Grows.cons_of_none {action : Action} (hnone : Moment.request? ⟨m, action⟩ = none)
    (h : Grows inst m moments o) : Grows inst m (⟨m, action⟩ :: moments) o := by
  refine ⟨rfl, ?_⟩
  rw [Holding.after, hnone]
  exact h

end Grows

namespace Machine

variable {inst : Instance} {m : Machine}

theorem holding_of_tick {m' : Machine} (h : m.tick inst = .ok m') : m'.holding = m.holding := by
  unfold tick at h
  split at h
  · cases h
  split at h <;> cases h
  rfl

theorem grows_tickThen {next : Machine → Outcome} {nextMoments : Machine → List Moment}
    (hnext : ∀ m', Grows inst m' (nextMoments m') (next m')) :
    Grows inst m (m.tickMoments inst nextMoments) (m.tickThen inst next) := by
  unfold tickMoments tickThen
  cases htick : m.tick inst with
  | error halt => exact .of_same rfl
  | ok m' =>
      have hstart : Grows inst m [] (.running m') := .of_same (holding_of_tick htick)
      exact hstart.append (hnext m')

/-! ### Actions that leave the limiter alone -/

theorem holding_call {member : HostMember} {next : Link → Outcome}
    (hnext : ∀ link, (next link).machine.holding = m.holding) :
    (m.call inst member next).machine.holding = m.holding := by
  unfold call
  cases inst.link? member with
  | none => rfl
  | some link => exact hnext link

theorem holding_withText {span : Span} {next : List Char → Outcome}
    (hnext : ∀ text, (next text).machine.holding = m.holding) :
    (m.withText inst span next).machine.holding = m.holding := by
  unfold withText
  cases m.readText inst span with
  | error fault => rfl
  | ok text => exact hnext text

theorem holding_printUnless (inst : Instance) (m : Machine) (silent : Bool) (n : Int) :
    (m.printUnless inst silent n).machine.holding = m.holding := by
  unfold printUnless print
  split
  · rfl
  split
  · rfl
  split <;> rfl

theorem holding_wait (inst : Instance) (m : Machine) (nanos : Nat) :
    (m.wait inst nanos).machine.holding = m.holding := by
  unfold wait
  split <;> rfl

theorem holding_spin (inst : Instance) (m : Machine) :
    (m.spin inst).machine.holding = m.holding := by
  unfold spin
  split
  · dsimp only
    split
    · rfl
    · exact holding_wait inst m _
  · exact holding_wait inst m _

theorem holding_failed (m : Machine) (halt : Halt) : (m.failed halt).holding = m.holding := by
  cases halt <;> rfl

/-! ### Growing -/

theorem holding_growMemory (inst : Instance) (m : Machine) (pages : Nat) :
    (m.growMemory inst pages).1.holding =
      if pages = 0 then m.holding
      else m.holding.grow inst.guest.maxBytes (.memory ((m.pages + pages) * pageSize)) := by
  unfold growMemory holding Holding.grow GuestModule.maxBytes
  -- with the number itself, every check would count up to it
  obtain ⟨size, hsize, hpos⟩ : ∃ size, pageSize = size ∧ 0 < size := ⟨_, rfl, by decide⟩
  rw [hsize]
  split
  · rfl
  -- pages that fit under the declared maximum are bytes that do
  simp only [Limiter.asked, Limiter.growMemory, Nat.mul_le_mul_right_iff hpos]
  by_cases hgranted : (m.pages + pages) * size ≤ m.limiter.ceiling
  · by_cases hfits : m.pages + pages ≤ inst.guest.memory.elim 0 MemoryType.limit <;>
      simp [hgranted, hfits]
  · simp [hgranted]

theorem holding_growTable (maximum : Nat) (m : Machine) (elements : Nat) :
    (m.growTable elements).1.holding =
      if elements = 0 then m.holding
      else m.holding.grow maximum (.table (m.elements + elements)) := by
  unfold growTable
  split
  · rfl
  split
  next limiter granted hgrown =>
  split <;> simp [holding, Holding.grow, Limiter.asked, hgrown]

theorem grows_grow (inst : Instance) (m : Machine) (pages : Int) (silent : Bool) :
    Grows inst m [⟨m, .grow pages silent⟩] (m.perform inst (.grow pages silent)) :=
  .of_request rfl ((holding_printUnless inst _ silent _).trans (holding_growMemory inst m _))

theorem grows_growTable (inst : Instance) (m : Machine) (elements : Int) (silent : Bool) :
    Grows inst m [⟨m, .growTable elements silent⟩] (m.perform inst (.growTable elements silent)) :=
  .of_request rfl ((holding_printUnless inst _ silent _).trans (holding_growTable _ m _))

/-! ### Drawing -/

theorem holding_give (s : Sequence) (sequence : Nat) (m : Machine) :
    (m.give s sequence).1.holding = m.holding := by
  unfold give
  dsimp only
  split
  · rfl
  split <;> rfl

variable {nested : List Instr → Machine → List Moment}

section Calls

variable (hnested : inst.GrowsWithin nested)

include hnested

theorem grows_approach (sequence : Nat) (m : Machine) :
    Grows inst m (approachMoments inst nested sequence m) (m.approach inst sequence) := by
  unfold approachMoments approach
  cases inst.guest.codeAt sequence (m.cursors.getD sequence 0) with
  | nil => exact .of_same rfl
  | cons instr rest =>
      have hbody := hnested (instr :: rest) m
      dsimp only
      split
      · next m' hexited =>
        rw [hexited] at hbody
        exact hbody.congr rfl
      · exact hbody

theorem grows_draw (sequence : Int) (m : Machine) :
    Grows inst m (drawMoments inst nested sequence m) (.running (m.draw inst sequence).1) := by
  unfold drawMoments draw
  cases htick : m.tick inst with
  | error halt => exact .of_same rfl
  | ok m' =>
      have hstart : Grows inst m [] (.running m') := .of_same (holding_of_tick htick)
      dsimp only
      cases inst.guest.sequences[sequence.toNat]? with
      | none => exact hstart
      | some s =>
          cases decide (0 ≤ sequence) with
          | false => exact hstart
          | true =>
              have happroach := hstart.append (grows_approach hnested sequence.toNat m')
              dsimp only
              cases hcall : m'.approach inst sequence.toNat with
              | running u =>
                  rw [hcall] at happroach
                  exact happroach.congr (holding_give s sequence.toNat u)
              | halted u halt =>
                  rw [hcall] at happroach
                  exact happroach.congr rfl

end Calls

theorem grows_drawAll {next : Machine → Machine × Except Halt Int}
    {moments : Machine → List Moment} (hnext : ∀ m, Grows inst m (moments m) (.running (next m).1))
    (room : Nat) (taken : Array Int) (m : Machine) :
    Grows inst m (drawAllMoments next moments room m) (.running (drawAll next room taken m).1) := by
  -- on the room that is left: one more draw, and it is the last unless it gives an item
  induction room generalizing taken m with
  | zero =>
      have hdraw := hnext m
      unfold drawAllMoments drawAll
      rcases hresult : next m with ⟨m', halt | item⟩ <;> rw [hresult] at hdraw
      · rwa [List.append_nil]
      · dsimp only
        rw [ite_self, List.append_nil]
        split <;> exact hdraw
  | succ room ih =>
      have hdraw := hnext m
      unfold drawAllMoments drawAll
      rcases hresult : next m with ⟨m', halt | item⟩ <;> rw [hresult] at hdraw
      · rwa [List.append_nil]
      · dsimp only
        split
        · rwa [List.append_nil]
        · exact hdraw.append (ih _ m')

theorem grows_drain (hnested : inst.GrowsWithin nested) (m : Machine) (link : Link) (member : Drain)
    (sequence : Int) (silent : Bool) : Grows inst m (drainMoments inst nested m link sequence)
      (m.drain inst link member sequence silent) := by
  unfold drainMoments drain compute
  cases inst.guest.sequenceExport with
  | missing => exact .of_same rfl
  | wrongType => exact .of_same rfl
  | usable =>
      have hall := grows_drawAll (grows_draw hnested sequence) link.sequenceLimit #[] m
      rcases hdrawn : drawAll (draw inst sequence) link.sequenceLimit #[] m with
        ⟨m', items | _ | halt⟩ <;> rw [hdrawn] at hall <;> dsimp only
      · cases member.result items with
        | ok n => exact hall.congr (holding_printUnless inst m' silent n)
        | error halt => exact hall.congr (holding_failed m' halt)
      · exact hall.congr rfl
      · exact hall.congr rfl

/-! ### Actions and code -/

theorem grows_perform (hnested : inst.GrowsWithin nested) (m : Machine) (action : Action) :
    Grows inst m (m.performMoments inst nested action) (m.perform inst action) := by
  cases action with
  | grow pages silent => exact grows_grow inst m pages silent
  | growTable elements silent => exact grows_growTable inst m elements silent
  | drain member sequence silent =>
      refine .cons_of_none rfl ?_
      dsimp only [withinMoments, perform, call]
      cases inst.link? member.hostMember with
      | none => exact .of_same rfl
      | some link => exact grows_drain hnested m link member _ silent
  | write text =>
      exact .cons_of_none rfl (holding_call fun _ ↦ holding_withText fun _ ↦ rfl)
  | writeLine text =>
      exact .cons_of_none rfl (holding_call fun _ ↦ holding_withText fun _ ↦ rfl)
  | reportLine line => exact .cons_of_none rfl (holding_call fun _ ↦ rfl)
  | reportValue line expression value =>
      exact .cons_of_none rfl
        (holding_call fun _ ↦ holding_withText fun _ ↦ holding_withText fun _ ↦ rfl)
  | reportException line description =>
      exact .cons_of_none rfl (holding_call fun _ ↦ holding_withText fun _ ↦ rfl)
  | sleep millis =>
      refine .cons_of_none rfl (holding_call fun link ↦ ?_)
      split
      · exact holding_wait inst m _
      · rfl
  | exit => exact .cons_of_none rfl rfl
  | spin => exact .cons_of_none rfl (holding_spin inst m)
  | trap cause => exact .cons_of_none rfl rfl
  | callFirst => exact .cons_of_none rfl rfl

theorem grows_iterate {body : Machine → Outcome} {moments : Machine → List Moment}
    (hbody : ∀ m, Grows inst m (moments m) (body m)) (times : Nat) (m : Machine) :
    Grows inst m (iterateMoments body moments times m) (iterate body times m) := by
  induction times generalizing m with
  | zero => exact .of_same rfl
  | succ times ih => exact (hbody m).andThen ih

end Machine

namespace Instr

variable {inst : Instance} {nested : List Instr → Machine → List Moment}

mutual

theorem grows_run (hnested : inst.GrowsWithin nested) :
    ∀ (instr : Instr) (m : Machine), Grows inst m (moments inst nested instr m) (run inst instr m)
  | act action, m => by
      rw [moments, run]
      exact Machine.grows_tickThen fun m' ↦ Machine.grows_perform hnested m' action
  | loop times body, m => by
      rw [moments, run]
      exact Machine.grows_tickThen <| Machine.grows_iterate
        (fun m' ↦ Machine.grows_tickThen (grows_runAll hnested body)) times

theorem grows_runAll (hnested : inst.GrowsWithin nested) :
    ∀ (body : List Instr) (m : Machine),
      Grows inst m (momentsAll inst nested body m) (runAll inst body m)
  | [], m => by
      rw [momentsAll, runAll]
      exact .of_same rfl
  | instr :: rest, m => by
      rw [momentsAll, runAll]
      exact (grows_run hnested instr m).andThen (grows_runAll hnested rest)

end

end Instr

/-- The memory follows the moments of code that host members call, however deep the calls lie
inside each other. -/
theorem Instance.growsWithin_nest (inst : Instance) (depth : Nat) :
    (inst.nest depth).GrowsWithin (inst.nestMoments depth) := by
  induction depth with
  | zero => exact fun body m ↦ .of_same rfl
  | succ depth ih =>
      intro body m
      have hbody := Instr.grows_runAll ih body m
      rw [Grows, guest_nest] at hbody ⊢
      exact hbody

end GuestGate
