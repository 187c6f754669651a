import Lyslg.IoManager.Model
import Lyslg.Support.State
import Mathlib.Algebra.BigOperators.Group.List.Basic
/-!
# Registrations

What the contexts are for: for each of the two events, a context has at most one
registration, which names a scheduler and the work it gets.  `Refines` says that
a manager is the image of such registrations.  Every section that returns is a
step on them.
-/

namespace Lyslg

open Support Support.Machine Support.State

/-- A scheduler and what it is to run. -/
abbrev Registration := Nat × Work

/-- The registrations of a context. -/
@[ext] structure Slots where
  fd : Nat
  read : Option Registration := none
  write : Option Registration := none

namespace Slots

variable {s s' : Slots} {event : IoEvent} {registration : Registration}

def get (s : Slots) : IoEvent → Option Registration
  | .read => s.read
  | .write => s.write
  | .none => none

def set (s : Slots) (event : IoEvent) (registration : Option Registration) : Slots :=
  match event with
  | .read => { s with read := registration }
  | .write => { s with write := registration }
  | .none => s

@[simp] theorem set_fd (s : Slots) (event : IoEvent) (registration : Option Registration) :
    (s.set event registration).fd = s.fd := by
  cases event <;> rfl

theorem get_set (hevent : event ≠ .none) (registration : Option Registration) (e : IoEvent) :
    (s.set event registration).get e = if e = event then registration else s.get e := by
  cases event with
  | none => exact absurd rfl hevent
  | read => cases e <;> rfl
  | write => cases e <;> rfl

theorem event_ne_none (h : s.get event = some registration) : event ≠ .none := by
  rintro rfl
  cases h

def count (s : Slots) : Nat := s.read.toList.length + s.write.toList.length

theorem count_set_none (h : s.get event = some registration) :
    (s.set event none).count + 1 = s.count := by
  cases event with
  | none => cases h
  | read =>
      change s.read = some registration at h
      simp [count, set, h, Nat.add_comm]
  | write =>
      change s.write = some registration at h
      simp [count, set, h]

theorem count_set_some (hevent : event ≠ .none) (h : s.get event = none)
    (registration : Registration) :
    (s.set event (some registration)).count = s.count + 1 := by
  cases event with
  | none => exact absurd rfl hevent
  | read =>
      change s.read = none at h
      simp [count, set, h, Nat.add_comm]
  | write =>
      change s.write = none at h
      simp [count, set, h]

end Slots

/-- The context of a registration. -/
def EventContext.of : Option Registration → EventContext
  | none => {}
  | some (scheduler, .cb cb) => { scheduler := some scheduler, cb := some cb }
  | some (scheduler, .fiber fiber) => { scheduler := some scheduler, fiber := some fiber }

/-- The `events` of a context, given whether the two are registered. -/
def eventBits (read write : Bool) : BitVec 32 :=
  (if read then IoEvent.read.mask else 0) ||| (if write then IoEvent.write.mask else 0)

theorem eventBits_and_read : ∀ read write,
    eventBits read write &&& IoEvent.read.mask = 0 ↔ read = false := by decide

theorem eventBits_and_write : ∀ read write,
    eventBits read write &&& IoEvent.write.mask = 0 ↔ write = false := by decide

theorem eventBits_and_not_read : ∀ read write,
    eventBits read write &&& ~~~IoEvent.read.mask = eventBits false write := by decide

theorem eventBits_and_not_write : ∀ read write,
    eventBits read write &&& ~~~IoEvent.write.mask = eventBits read false := by decide

theorem eventBits_or_read : ∀ read write,
    eventBits read write ||| IoEvent.read.mask = eventBits true write := by decide

theorem eventBits_or_write : ∀ read write,
    eventBits read write ||| IoEvent.write.mask = eventBits read true := by decide

/-- The context that has the registrations. -/
def Slots.toContext (s : Slots) : FdContext where
  read := .of s.read
  write := .of s.write
  fd := s.fd
  events := eventBits s.read.isSome s.write.isSome

namespace Slots

variable {s : Slots} {event : IoEvent} {registration : Registration}

/-- The bit of an event is set if it is registered. -/
theorem events_and_mask_eq_zero (s : Slots) (event : IoEvent) :
    s.toContext.events &&& event.mask = 0 ↔ s.get event = none := by
  cases event with
  | none => simp [IoEvent.mask, get]
  | read =>
      change eventBits _ _ &&& _ = 0 ↔ s.read = none
      rw [eventBits_and_read, Option.isSome_eq_false_iff, Option.isNone_iff_eq_none]
  | write =>
      change eventBits _ _ &&& _ = 0 ↔ s.write = none
      rw [eventBits_and_write, Option.isSome_eq_false_iff, Option.isNone_iff_eq_none]

theorem events_and_mask_ne_zero (h : s.get event = some registration) :
    ¬ s.toContext.events &&& event.mask = 0 := by
  rw [events_and_mask_eq_zero, h]
  exact Option.some_ne_none registration

theorem toContext_set_none (h : s.get event = some registration) :
    (s.set event none).toContext =
      ({ s.toContext with events := s.toContext.events &&& ~~~event.mask } : FdContext).setContext
        event {} := by
  cases event with
  | none => cases h
  | read => simp [toContext, set, FdContext.setContext, eventBits_and_not_read, EventContext.of]
  | write => simp [toContext, set, FdContext.setContext, eventBits_and_not_write, EventContext.of]

theorem toContext_set_some (hevent : event ≠ .none) (registration : Registration) :
    (s.set event (some registration)).toContext =
      ({ s.toContext with events := s.toContext.events ||| event.mask } : FdContext).setContext
        event (.of (some registration)) := by
  cases event with
  | none => exact absurd rfl hevent
  | read => simp [toContext, set, FdContext.setContext, eventBits_or_read]
  | write => simp [toContext, set, FdContext.setContext, eventBits_or_write]

theorem toContext_empty (fd : Nat) : ({ fd := fd } : Slots).toContext = { fd := fd } := by
  simp [toContext, EventContext.of, eventBits]

theorem getContext_toContext (hevent : event ≠ .none) (events : BitVec 32) :
    ({ s.toContext with events := events } : FdContext).getContext event =
      .ok (.of (s.get event)) := by
  cases event with
  | none => exact absurd rfl hevent
  | read => rfl
  | write => rfl

/-- `triggerEvent` schedules the registration and leaves the context empty: the work is
swapped out of it. -/
theorem triggerEvent_of_some (h : s.get event = some registration) :
    s.toContext.triggerEvent event = .ok ([registration], (s.set event none).toContext) := by
  have hevent := event_ne_none h
  have hbit : ¬ event.mask &&& s.toContext.events = 0 := by
    rw [BitVec.and_comm]
    exact events_and_mask_ne_zero h
  unfold FdContext.triggerEvent
  rw [if_neg hbit, toContext_set_none h]
  simp only [getContext_toContext hevent, h]
  obtain ⟨scheduler, work⟩ := registration
  cases work <;> rfl

theorem triggerEvent_of_none (h : s.get event = none) :
    s.toContext.triggerEvent event = .error .notRegistered := by
  unfold FdContext.triggerEvent
  rw [if_pos]
  rw [BitVec.and_comm, events_and_mask_eq_zero, h]

end Slots

end Lyslg
