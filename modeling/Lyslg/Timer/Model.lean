import Lyslg.Support.Machine
import Lyslg.Support.OrderedSet
import Mathlib.Logic.Function.Basic
/-!
# Timers and their manager

`timer.cc`, one critical section at a time.  A timer is named by its creation
number and lies in a heap of timers; `m_timers` is the list of the names in the
set, in the order the comparator gives for the current contents of the heap.
Dereferencing or erasing the end iterator has no result.

`now` is what `GetCurrentMS` returned, widened to `uint64_t`.
-/

namespace Lyslg

open Support.Machine Support

/-- A `std::function<void()>`. -/
abbrev Callback := Nat

/-- `GetCurrentMS`, when `gettimeofday` says `real` milliseconds. -/
def getCurrentMS (real : Nat) : Nat := real % 2 ^ 16

/-- The fields of `class Timer`, and the address of the object. -/
structure Timer where
  recurring : Bool := false
  ms : Nat := 0
  next : Nat := 0
  cb : Option Callback := none
  addr : Nat
  deriving DecidableEq, Repr

/-- `Timer::Comparator`, over possibly null pointers. -/
def Timer.comparator : Option Timer → Option Timer → Bool
  | none, none => false
  | none, some _ => true
  | some _, none => false
  | some lhs, some rhs =>
      if lhs.next < rhs.next then true
      else if lhs.next > rhs.next then false
      else decide (lhs.addr < rhs.addr)

/-- The fields of `class TimerManager`, and the heap. -/
structure TimerManager where
  /-- `m_timers`, from `begin()` on -/
  timers : List Nat
  tickled : Bool
  previousTime : Nat
  heap : Nat → Timer
  /-- how many timers were created so far -/
  created : Nat

namespace TimerManager

/-- `TimerManager::TimerManager`. -/
def new (heap : Nat → Timer) (now : Nat) : TimerManager where
  timers := []
  tickled := false
  previousTime := now
  heap := heap
  created := 0

/-- The comparator on the timers of the heap. -/
def before (m : TimerManager) (a b : Nat) : Bool :=
  Timer.comparator (some (m.heap a)) (some (m.heap b))

/-- Assign to fields of a timer. -/
def update (m : TimerManager) (id : Nat) (f : Timer → Timer) : TimerManager :=
  { m with heap := Function.update m.heap id (f (m.heap id)) }

/-- `m_timers.find(id)`. -/
def find (m : TimerManager) (id : Nat) : Nat := OrderedSet.find m.before m.timers id

/-- `m_timers.erase(it)`. -/
def erase (m : TimerManager) (it : Nat) : TimerManager :=
  { m with timers := m.timers.eraseIdx it }

/-- `m_timers.insert(id)`, with the iterator it returns. -/
def insert (m : TimerManager) (id : Nat) : TimerManager × Nat :=
  let (timers, it) := OrderedSet.insert m.before m.timers id
  ({ m with timers := timers }, it)

/-- `TimerManager::addTimer(Timer::ptr, WriteLock&)`, and whether it calls
`onTimerInsertedAtFront`. -/
def addTimerLocked (m : TimerManager) (val : Nat) : Bool × TimerManager :=
  let (m, it) := m.insert val
  let atFront := it = 0 && !m.tickled
  (atFront, if atFront then { m with tickled := true } else m)

/-- `TimerManager::addTimer(uint16_t, std::function<void()>, bool)`.  The new
timer lies at `addr`. -/
def addTimer (m : TimerManager) (addr : Nat) (ms : UInt16) (cb : Callback) (recurring : Bool)
    (now : Nat) : Bool × TimerManager :=
  let timer : Timer :=
    { recurring := recurring
      ms := ms.toNat
      next := addSize now ms.toNat
      cb := some cb
      addr := addr }
  addTimerLocked
    { m with heap := Function.update m.heap m.created timer, created := m.created + 1 } m.created

/-- `Timer::cancel`. -/
def cancel (m : TimerManager) (id : Nat) : Option (Bool × TimerManager) :=
  if (m.heap id).cb.isSome then
    let m := m.update id fun timer => { timer with cb := none }
    let it := m.find id
    if it = m.timers.length then none
    else some (true, m.erase it)
  else some (false, m)

/-- `Timer::refresh`. -/
def refresh (m : TimerManager) (id now : Nat) : Bool × TimerManager :=
  if (m.heap id).cb.isNone then (false, m)
  else
    let it := m.find id
    if it = m.timers.length then (false, m)
    else
      let m := m.erase it
      let m := m.update id fun timer => { timer with next := addSize now timer.ms }
      (true, (m.insert id).1)

/-- `Timer::reset`: its result, whether it calls `onTimerInsertedAtFront`, and the
manager after it. -/
def reset (m : TimerManager) (id : Nat) (ms : UInt64) (fromNow : Bool) (now : Nat) :
    Bool × Bool × TimerManager :=
  if ms.toNat = (m.heap id).ms ∧ fromNow = false then (true, false, m)
  else if (m.heap id).cb.isNone then (false, false, m)
  else
    let it := m.find id
    if it = m.timers.length then (false, false, m)
    else
      let m := m.erase it
      let start := if fromNow then now else subSize (m.heap id).next (m.heap id).ms
      let m := m.update id fun timer =>
        { timer with ms := ms.toNat, next := addSize start ms.toNat }
      (true, m.addTimerLocked id)

/-- `TimerManager::getNextTimer`; `~0ull` stands for no timer. -/
def getNextTimer (m : TimerManager) (now : Nat) : Nat × TimerManager :=
  let m := { m with tickled := false }
  match m.timers with
  | [] => (2 ^ 64 - 1, m)
  | front :: _ =>
      let next := (m.heap front).next
      (if next ≤ now then 0 else next - now, m)

/-- `TimerManager::detectClockRollover`.  The difference is one of `uint64_t`s. -/
def detectClockRollover (m : TimerManager) (now : Nat) : Bool × TimerManager :=
  (now < m.previousTime && now < subSize m.previousTime (60 * 60 * 1000),
    { m with previousTime := now })

/-- The body of the loop over the expired timers, less the `push_back`. -/
def fire (m : TimerManager) (now id : Nat) : TimerManager :=
  if (m.heap id).recurring then
    ((m.update id fun timer => { timer with next := addSize now timer.ms }).insert id).1
  else m.update id fun timer => { timer with cb := none }

/-- The loop over the expired timers: the callbacks it lists, with their timers. -/
def collect (now : Nat) : List Nat → TimerManager → List (Nat × Option Callback) × TimerManager
  | [], m => ([], m)
  | id :: expired, m =>
      let (cbs, m') := collect now expired (m.fire now id)
      ((id, (m.heap id).cb) :: cbs, m')

/-- Where the expired timers end.  The temporary timer lies at `tmp`. -/
def expiredEnd (m : TimerManager) (rollover : Bool) (now tmp : Nat) : Nat :=
  let nowTimer : Timer := { next := now, addr := tmp }
  let it :=
    if rollover then m.timers.length
    else OrderedSet.lowerBound
      (fun e => Timer.comparator (some (m.heap e)) (some nowTimer)) m.timers
  it + ((m.timers.drop it).takeWhile fun e => (m.heap e).next = now).length

/-- The write-locked part of `TimerManager::listExpiredCb`. -/
def listExpiredCb (m : TimerManager) (now tmp : Nat) :
    Option (List (Nat × Option Callback) × TimerManager) :=
  let (rollover, m) := m.detectClockRollover now
  let due :=
    if rollover then some true
    else m.timers.head?.map fun front => (m.heap front).next ≤ now
  match due with
  | none => none
  | some false => some ([], m)
  | some true =>
      let it := m.expiredEnd rollover now tmp
      some (collect now (m.timers.take it) { m with timers := m.timers.drop it })

end TimerManager

/-! ## Critical sections -/

/-- A critical section, with the clock reading it uses.  `listTest` is the read-locked
one of `listExpiredCb`, which returns if there is no timer. -/
inductive TimerOp where
  | addTimer (addr : Nat) (ms : UInt16) (cb : Callback) (recurring : Bool) (now : Nat)
  | cancel (id : Nat)
  | refresh (id now : Nat)
  | reset (id : Nat) (ms : UInt64) (fromNow : Bool) (now : Nat)
  | listTest (now : Nat)
  | listExpiredCb (now tmp : Nat)
  | getNextTimer (now : Nat)

/-- What comes out of a critical section: `cbs` is what a call of `listExpiredCb` lists,
`front` says whether `onTimerInsertedAtFront` was called. -/
inductive TimerOutcome where
  | created (id : Nat) (front : Bool)
  | flag (result front : Bool)
  | cbs (expired : List (Nat × Option Callback))
  | wait (ms : Nat)
  deriving DecidableEq

/-- The timers an outcome reports as expired. -/
def TimerOutcome.reported : TimerOutcome → List Nat
  | .cbs expired => expired.map Prod.fst
  | _ => []

/-- The outcome made the call of `onTimerInsertedAtFront`. -/
def TimerOutcome.front : TimerOutcome → Bool
  | .created _ front => front
  | .flag _ front => front
  | _ => false

open TimerManager

/-- Run a critical section. -/
def TimerManager.exec (m : TimerManager) : TimerOp → Option (TimerOutcome × TimerManager)
  | .addTimer addr ms cb recurring now =>
      let (front, m') := m.addTimer addr ms cb recurring now
      some (.created m.created front, m')
  | .cancel id => (m.cancel id).map fun (result, m') => (.flag result false, m')
  | .refresh id now =>
      let (result, m') := m.refresh id now
      some (.flag result false, m')
  | .reset id ms fromNow now =>
      let (result, front, m') := m.reset id ms fromNow now
      some (.flag result front, m')
  | .listTest _ => some (if m.timers.isEmpty then .cbs [] else .flag false false, m)
  | .listExpiredCb now tmp => (m.listExpiredCb now tmp).map fun (expired, m') => (.cbs expired, m')
  | .getNextTimer now =>
      let (ms, m') := m.getNextTimer now
      some (.wait ms, m')

/-- Clients call through timers that exist, and a new timer does not lie where one of
the set does. -/
def TimerOp.Allowed (m : TimerManager) : TimerOp → Prop
  | .addTimer addr _ _ _ _ => ∀ id ∈ m.timers, (m.heap id).addr ≠ addr
  | .cancel id => id < m.created
  | .refresh id _ => id < m.created
  | .reset id _ _ _ => id < m.created
  | _ => True

instance (m : TimerManager) : (op : TimerOp) → Decidable (op.Allowed m)
  | .addTimer addr _ _ _ _ =>
      inferInstanceAs (Decidable (∀ id ∈ m.timers, (m.heap id).addr ≠ addr))
  | .cancel id => inferInstanceAs (Decidable (id < m.created))
  | .refresh id _ => inferInstanceAs (Decidable (id < m.created))
  | .reset id _ _ _ => inferInstanceAs (Decidable (id < m.created))
  | .listTest _ => .isTrue trivial
  | .listExpiredCb _ _ => .isTrue trivial
  | .getNextTimer _ => .isTrue trivial

/-- One critical section of a run. -/
def TimerManager.Step (m : TimerManager) (label : TimerOp × TimerOutcome)
    (m' : TimerManager) : Prop :=
  label.1.Allowed m ∧ m.exec label.1 = some (label.2, m')

/-- The manager after a step with a given outcome. -/
def TimerManager.step (m : TimerManager) (label : TimerOp × TimerOutcome) : Option TimerManager :=
  (m.exec label.1).bind fun after =>
    if label.1.Allowed m ∧ after.1 = label.2 then some after.2 else none

theorem TimerManager.step_some {m m' : TimerManager} {label : TimerOp × TimerOutcome}
    (h : m.step label = some m') : m.Step label m' := by
  obtain ⟨⟨outcome, m₁⟩, hexec, hstep⟩ := Option.bind_eq_some_iff.mp h
  split_ifs at hstep with hboth
  obtain rfl := Option.some.inj hstep
  refine ⟨hboth.1, ?_⟩
  rw [hexec, ← hboth.2]

end Lyslg
