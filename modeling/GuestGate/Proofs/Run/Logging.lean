import GuestGate.Run.Flow
import Mathlib.Data.List.Induction

/-!
# What a log keeps of a trace

A log takes events until it is full.  An event that comes later is counted and left out, unless it
is an exception, which takes the last place.  So the events that are kept can be told from the
trace alone: as many as fit, counted from the first, and in the last place the last exception of
those that came too late.
-/

namespace GuestGate

namespace FlowLog

variable {log : FlowLog} {limit room : Nat} {events : List FlowEvent}

/-! ### One event -/

@[simp]
theorem limit_record (log : FlowLog) (event : FlowEvent) :
    (log.record event).limit = log.limit := by
  unfold record
  split <;> rfl

theorem size_replaceLast (events : Array FlowEvent) (event : FlowEvent) :
    (replaceLast events event).size = events.size := by
  unfold replaceLast
  split
  · rfl
  · next hsome =>
    have hpos : events.size ≠ 0 := by simpa using hsome
    simp only [Array.size_push, Array.size_pop]
    omega

/-- Every event is kept or counted. -/
theorem size_record (log : FlowLog) (event : FlowEvent) :
    (log.record event).events.size + (log.record event).dropped =
      log.events.size + log.dropped + 1 := by
  unfold record
  split
  · simp only [Array.size_push]
    omega
  · split
    · simp only [size_replaceLast]
      omega
    · rfl

theorem size_record_le (h : log.events.size ≤ log.limit) (event : FlowEvent) :
    (log.record event).events.size ≤ log.limit := by
  unfold record
  split
  · next hroom => simpa using Nat.succ_le_of_lt hroom
  · dsimp only
    split
    · rwa [size_replaceLast]
    · exact h

@[simp]
theorem currentLine_record (log : FlowLog) (event : FlowEvent) :
    (log.record event).currentLine = event.lineReached?.getD log.currentLine := by
  unfold record
  split <;> rfl

/-- An exception is the last event that is kept, also when the log is full. -/
theorem getLast?_record_exception (hroom : 1 ≤ log.limit) (h : log.events.size ≤ log.limit)
    (line : Nat) (description : String) :
    (log.record (.exception line description)).events.toList.getLast? =
      some (.exception line description) := by
  unfold record
  split
  · simp
  · have hsome : ¬ log.events.isEmpty = true := by
      rw [Array.isEmpty_iff_size_eq_zero]
      omega
    simp [FlowEvent.isException, replaceLast, hsome]

theorem toList_record_of_room (h : log.events.size < log.limit) (event : FlowEvent) :
    (log.record event).events.toList = log.events.toList ++ [event] := by
  simp [record, h]

theorem toList_replaceLast (events : Array FlowEvent) (event : FlowEvent) :
    (replaceLast events event).toList =
      if events.toList = [] then [] else events.toList.dropLast ++ [event] := by
  by_cases hempty : events = #[]
  · simp [replaceLast, hempty]
  · simp [replaceLast, hempty]

theorem toList_record_of_full (h : log.limit ≤ log.events.size) (event : FlowEvent) :
    (log.record event).events.toList =
      if event.isException ∧ log.events.toList ≠ [] then log.events.toList.dropLast ++ [event]
      else log.events.toList := by
  have hrecord : (log.record event).events =
      if event.isException then replaceLast log.events event else log.events := by
    rw [record, if_neg (Nat.not_lt.mpr h)]
  rw [hrecord]
  cases hexception : event.isException with
  | false => simp
  | true =>
      rw [if_pos rfl, toList_replaceLast]
      by_cases hempty : log.events.toList = []
      · simp [hempty]
      · simp [hempty]

/-! ### A whole trace -/

/-- The last exception of a trace. -/
def lastException? (events : List FlowEvent) : Option FlowEvent :=
  (events.filter FlowEvent.isException).getLast?

/-- The events that fit into a log, with the last exception of the others in the last place. -/
def kept : Nat → List FlowEvent → List FlowEvent
  | 0, _ => []
  | room + 1, events =>
      match lastException? (events.drop (room + 1)) with
      | none => events.take (room + 1)
      | some exception => events.take room ++ [exception]

theorem lastException?_concat (events : List FlowEvent) (event : FlowEvent) :
    lastException? (events ++ [event]) =
      if event.isException then some event else lastException? events := by
  unfold lastException?
  rw [List.filter_append]
  split
  · next hexception => simp [hexception]
  · next hother => simp [hother]

theorem mem_of_lastException? {event : FlowEvent} (h : lastException? events = some event) :
    event ∈ events :=
  (List.mem_filter.mp (List.mem_of_getLast? h)).1

theorem kept_of_length_le (h : events.length ≤ limit) : kept limit events = events := by
  cases limit with
  | zero => exact (List.length_eq_zero_iff.mp (Nat.le_zero.mp h)).symm
  | succ room =>
      have hnone : lastException? (events.drop (room + 1)) = none := by
        rw [List.drop_eq_nil_of_le h]
        rfl
      rw [kept, hnone]
      exact List.take_of_length_le h

theorem length_kept (limit : Nat) (events : List FlowEvent) :
    (kept limit events).length = min limit events.length := by
  cases limit with
  | zero => simp [kept]
  | succ room =>
      rw [kept]
      split
      · exact List.length_take
      · next hlast =>
          have hlong := List.length_pos_of_mem (mem_of_lastException? hlast)
          rw [List.length_drop] at hlong
          rw [List.length_append, List.length_take, List.length_singleton]
          omega

theorem dropLast_kept (h : room < events.length) :
    (kept (room + 1) events).dropLast = events.take room := by
  rw [kept]
  split
  · rw [List.dropLast_eq_take, List.length_take, List.take_take]
    congr 1
    omega
  · exact List.dropLast_concat

/-- What another event changes when the log is full. -/
theorem kept_concat (h : limit ≤ events.length) (event : FlowEvent) :
    kept limit (events ++ [event]) =
      if event.isException ∧ kept limit events ≠ [] then (kept limit events).dropLast ++ [event]
      else kept limit events := by
  cases limit with
  | zero => simp [kept]
  | succ room =>
      have hne : kept (room + 1) events ≠ [] := by
        rw [← List.length_pos_iff, length_kept]
        omega
      have hdrop : (events ++ [event]).drop (room + 1) = events.drop (room + 1) ++ [event] :=
        List.drop_append_of_le_length h
      have htake : ∀ n ≤ room + 1, (events ++ [event]).take n = events.take n := fun n hn ↦
        List.take_append_of_le_length (Nat.le_trans hn h)
      rw [dropLast_kept h, kept, hdrop, lastException?_concat]
      cases hexception : event.isException with
      | true => simp [hne, htake]
      | false => simp [kept, htake]

/-- Leaving out events between the first ones and one that came later leaves a part of the
trace in its order. -/
theorem kept_sublist (limit : Nat) (events : List FlowEvent) : (kept limit events).Sublist events := by
  cases limit with
  | zero => exact List.nil_sublist events
  | succ room =>
      rw [kept]
      split
      · exact List.take_sublist _ _
      · next exception hlast =>
          have hlater : exception ∈ events.drop room :=
            List.drop_subset_drop_left events (Nat.le_succ room) (mem_of_lastException? hlast)
          calc (events.take room ++ [exception]).Sublist (events.take room ++ events.drop room) :=
                (List.Sublist.refl _).append (List.singleton_sublist.mpr hlater)
            _ = events := List.take_append_drop room events

theorem getLast?_kept {event : FlowEvent} (hroom : 1 ≤ limit) (hlast : events.getLast? = some event)
    (hexception : event.isException = true) : (kept limit events).getLast? = some event := by
  obtain ⟨before, rfl⟩ := List.getLast?_eq_some_iff.mp hlast
  by_cases hfits : (before ++ [event]).length ≤ limit
  · rw [kept_of_length_le hfits, hlast]
  · have hfull : limit ≤ before.length := by
      rw [List.length_append, List.length_singleton] at hfits
      omega
    have hne : kept limit before ≠ [] := by
      rw [← List.length_pos_iff, length_kept]
      omega
    rw [kept_concat hfull, if_pos ⟨hexception, hne⟩]
    exact List.getLast?_concat

theorem limit_foldl_record (log : FlowLog) (events : List FlowEvent) :
    (events.foldl record log).limit = log.limit := by
  induction events generalizing log with
  | nil => rfl
  | cons event events ih => rw [List.foldl_cons, ih, limit_record]

theorem toList_foldl_record (limit : Nat) (events : List FlowEvent) :
    (events.foldl record { limit }).events.toList = kept limit events := by
  induction events using List.reverseRecOn with
  | nil => exact (kept_of_length_le (Nat.zero_le limit)).symm
  | append_singleton events event ih =>
      have hlimit : (events.foldl record { limit }).limit = limit := limit_foldl_record _ events
      have hsize : (events.foldl record { limit }).events.size = min limit events.length := by
        rw [← Array.length_toList, ih, length_kept]
      rw [List.foldl_append, List.foldl_cons, List.foldl_nil]
      by_cases hroom : events.length < limit
      · have hfits : (events ++ [event]).length ≤ limit := by
          rw [List.length_append, List.length_singleton]
          omega
        rw [toList_record_of_room (by omega), ih, kept_of_length_le (Nat.le_of_lt hroom),
          kept_of_length_le hfits]
      · rw [toList_record_of_full (by omega), ih, kept_concat (by omega)]

theorem size_foldl_record (log : FlowLog) (events : List FlowEvent) :
    (events.foldl record log).events.size + (events.foldl record log).dropped =
      log.events.size + log.dropped + events.length := by
  induction events generalizing log with
  | nil => rfl
  | cons event events ih =>
      have hone := size_record log event
      rw [List.foldl_cons, ih, List.length_cons]
      omega

theorem currentLine_foldl_record (log : FlowLog) (events : List FlowEvent) :
    (events.foldl record log).currentLine =
      (events.filterMap FlowEvent.lineReached?).getLast?.getD log.currentLine := by
  induction events using List.reverseRecOn with
  | nil => rfl
  | append_singleton events event ih =>
      rw [List.foldl_append, List.foldl_cons, List.foldl_nil, currentLine_record, ih,
        List.filterMap_append]
      cases hline : event.lineReached? with
      | none => simp [hline]
      | some line => simp [hline]

/-- The events that are kept, their number, the number of the others and the current line, all
from the trace. -/
theorem record_trace (limit : Nat) (events : List FlowEvent) :
    let log := events.foldl record { limit }
    log.events.toList = kept limit events ∧
    log.events.size = min limit events.length ∧
    log.events.size + log.dropped = events.length ∧
    log.events.toList.Sublist events ∧
    (∀ event, 1 ≤ limit → events.getLast? = some event → event.isException = true →
      log.events.toList.getLast? = some event) ∧
    log.currentLine = (events.filterMap FlowEvent.lineReached?).getLast?.getD 0 := by
  intro log
  have hkept : log.events.toList = kept limit events := toList_foldl_record limit events
  refine ⟨hkept, ?_, ?_, ?_, ?_, currentLine_foldl_record { limit } events⟩
  · rw [← Array.length_toList, hkept, length_kept]
  · simpa using size_foldl_record { limit } events
  · rw [hkept]
    exact kept_sublist limit events
  · intro event hroom hlast hexception
    rw [hkept]
    exact getLast?_kept hroom hlast hexception

/-- Of three events two fit; the exception at the end takes the place of the second one. -/
example : (([.line 1, .line 2, .exception 2 "boom"] : List FlowEvent).foldl record
    { limit := 2 }).events = #[.line 1, .exception 2 "boom"] := by
  decide

end FlowLog

end GuestGate
