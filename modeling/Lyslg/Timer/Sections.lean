import Lyslg.Timer.Invariant
import Mathlib.Order.Lattice
/-!
# The critical sections on one timer

`addTimer`, `cancel`, `refresh` and `reset` erase their timer, rewrite it and
insert it again, or leave a part of that out.  `Out` is the manager halfway
through and `Armed` after the insertion.
-/

namespace Lyslg

open Support Support.Machine

namespace TimerManager

variable {m m₁ m' : TimerManager} {id now : Nat} {timer : Timer}

/-- `m₁` is `m` while a section works on `id`: out of the set, its timer rewritten. -/
structure Out (m : TimerManager) (id : Nat) (timer : Timer) (m₁ : TimerManager) : Prop where
  holds : m₁.Holds [id]
  heap : m₁.heap = Function.update m.heap id timer
  timers : ∀ a, a ∈ m₁.timers ↔ a ≠ id ∧ a ∈ m.timers
  created : m₁.created = max m.created (id + 1)
  previousTime : m₁.previousTime = m.previousTime
  tickled : m₁.tickled = m.tickled

/-- `m'` is `m` with `id` in the set, its timer rewritten. -/
structure Armed (m : TimerManager) (id : Nat) (timer : Timer) (m' : TimerManager) : Prop where
  holds : m'.Holds []
  heap : m'.heap = Function.update m.heap id timer
  timers : ∀ a, a ∈ m'.timers ↔ a = id ∨ a ∈ m.timers
  created : m'.created = max m.created (id + 1)
  previousTime : m'.previousTime = m.previousTime

/-- When an insertion calls `onTimerInsertedAtFront`, and why it does not. -/
structure Tickles (m : TimerManager) (id : Nat) (timer : Timer) (front : Bool)
    (m' : TimerManager) : Prop where
  tickled : m'.tickled = (m.tickled || front)
  called : front = true → m.tickled = false
  silent : m'.tickled = false → ∃ a ∈ m.timers, a ≠ id ∧ (m.heap a).next ≤ timer.next

theorem Holds.setTickled {out : List Nat} (h : m.Holds out) (tickled : Bool) :
    ({ m with tickled := tickled } : TimerManager).Holds out :=
  ⟨h.sorted, h.separate, h.live⟩

theorem Holds.setPreviousTime {out : List Nat} (h : m.Holds out) (previousTime : Nat) :
    ({ m with previousTime := previousTime } : TimerManager).Holds out :=
  ⟨h.sorted, h.separate, h.live⟩

theorem addTimerLocked_eq {it : Nat} (hins : m.insert id = (m₁, it)) :
    m.addTimerLocked id =
      (it = 0 && !m₁.tickled, { m₁ with tickled := m₁.tickled || decide (it = 0) }) := by
  unfold addTimerLocked
  simp only [hins]
  by_cases hit : it = 0
  · cases htickled : m₁.tickled <;> simp [hit, ← htickled]
  · simp [hit]

namespace Out

theorem mem_timers (h : Out m id timer m₁) {pre post : List Nat} (hsplit : m₁.timers = pre ++ post)
    (a : Nat) : a ∈ pre ++ id :: post ↔ a = id ∨ a ∈ m.timers := by
  have ha := h.timers a
  rw [hsplit, List.mem_append] at ha
  simp only [List.mem_append, List.mem_cons]
  by_cases heq : a = id
  · simp [heq]
  · simp only [heq, false_or]
    rw [ha]
    simp [heq]

/-- `m_timers.insert`. -/
theorem insert (h : Out m id timer m₁) :
    Armed m id timer (m₁.insert id).1 ∧ (m₁.insert id).1.tickled = m.tickled := by
  obtain ⟨pre, post, hsplit, hins, _, hholds⟩ := h.holds.insert
  rw [hins]
  exact ⟨⟨hholds, h.heap, h.mem_timers hsplit, h.created, h.previousTime⟩, h.tickled⟩

/-- The private `addTimer`. -/
theorem addTimerLocked (h : Out m id timer m₁) :
    Armed m id timer (m₁.addTimerLocked id).2 ∧
      Tickles m id timer (m₁.addTimerLocked id).1 (m₁.addTimerLocked id).2 := by
  obtain ⟨pre, post, hsplit, hins, hbelow, hholds⟩ := h.holds.insert
  rw [addTimerLocked_eq hins]
  simp only [h.tickled]
  refine ⟨⟨hholds.setTickled _, h.heap, h.mem_timers hsplit, h.created, h.previousTime⟩, ?_, ?_, ?_⟩
  · cases m.tickled <;> simp
  · simp
  · intro hsilent
    cases pre with
    | nil => simp at hsilent
    | cons a pre =>
        have hmem : a ∈ m₁.timers := by simp [hsplit]
        obtain ⟨hne, ha⟩ := (h.timers a).mp hmem
        have hnext := next_le_of_key_lt (hbelow a List.mem_cons_self)
        rw [h.heap, Function.update_self, Function.update_of_ne hne] at hnext
        exact ⟨a, ha, hne, hnext⟩

end Out

/-- A new timer, before it is in the set. -/
theorem Holds.create (h : m.Holds []) {cb : Callback} (hcb : timer.cb = some cb)
    (haddr : ∀ id ∈ m.timers, (m.heap id).addr ≠ timer.addr) :
    Out m m.created timer
      { m with heap := Function.update m.heap m.created timer, created := m.created + 1 } := by
  have hnew : ∀ a ∈ m.timers, a ≠ m.created := by
    rintro a ha rfl
    exact Nat.lt_irrefl _ (h.mem_timers.mp ha).1
  have hother : ∀ a ∈ m.timers, Function.update m.heap m.created timer a = m.heap a := by
    intro a ha
    exact Function.update_of_ne (hnew a ha) _ _
  refine ⟨⟨?_, ?_, ?_⟩, rfl, ?_, by simp, rfl, rfl⟩
  · apply h.sorted.congr
    intro a ha
    simp only [key, hother a ha]
  · have hsep := h.separate
    rw [List.append_nil] at hsep
    have hmap : (m.timers.map fun a => (Function.update m.heap m.created timer a).addr) =
        m.timers.map fun a => (m.heap a).addr := by
      apply List.map_congr_left
      intro a ha
      rw [hother a ha]
    rw [List.map_append, List.map_singleton, List.nodup_append]
    refine ⟨?_, List.nodup_singleton _, ?_⟩
    · rw [hmap]
      exact hsep
    · simp only [hmap]
      simpa using haddr
  · intro a
    simp only [List.mem_append, List.mem_singleton, h.mem_timers]
    by_cases ha : a = m.created
    · subst ha
      simp [hcb]
    · simp only [ha, or_false, Function.update_of_ne ha]
      have : a < m.created + 1 ↔ a < m.created := by omega
      rw [this]
  · intro a
    exact ⟨fun ha => ⟨hnew a ha, ha⟩, fun ha => ha.2⟩

/-- A timer of the set is erased and then rewritten. -/
theorem Holds.rewrite (h : m.Holds []) {pre post : List Nat} {f : Timer → Timer}
    (hsplit : m.timers = pre ++ id :: post) (haddr : (f (m.heap id)).addr = (m.heap id).addr)
    (hcb : (f (m.heap id)).cb = (m.heap id).cb) :
    Out m id (f (m.heap id)) (({ m with timers := pre ++ post } : TimerManager).update id f) := by
  have hout := h.erase_one hsplit
  have hid : id < m.created := (h.mem_timers.mp (by simp [hsplit])).1
  refine ⟨hout.update haddr hcb, rfl, ?_, ?_, rfl, rfl⟩
  · intro a
    have hne : a ∈ pre ++ post → a ≠ id := by
      rintro ha rfl
      exact hout.not_mem_timers ha
    change a ∈ pre ++ post ↔ _
    rw [hsplit]
    constructor
    · intro ha
      exact ⟨hne ha, by simp [List.mem_append.mp ha, or_left_comm]⟩
    · rintro ⟨ha, hmem⟩
      simpa [ha] using hmem
  · change m.created = _
    omega

/-! ## The operations on a timer of the set -/

/-- `m'` is `m` without `id`, whose callback is gone. -/
structure Cancelled (m : TimerManager) (id : Nat) (m' : TimerManager) : Prop where
  holds : m'.Holds []
  heap : m'.heap = Function.update m.heap id { m.heap id with cb := none }
  timers : ∀ a, a ∈ m'.timers ↔ a ≠ id ∧ a ∈ m.timers
  created : m'.created = m.created
  previousTime : m'.previousTime = m.previousTime
  tickled : m'.tickled = m.tickled

theorem Holds.cb_isNone (h : m.Holds []) (hid : id < m.created) (hout : id ∉ m.timers) :
    (m.heap id).cb = none := by
  rw [h.mem_timers] at hout
  simpa [hid] using hout

theorem Holds.cb_isSome (h : m.Holds []) (hid : id ∈ m.timers) : (m.heap id).cb.isSome = true :=
  (h.mem_timers.mp hid).2

theorem Holds.not_isNone (h : m.Holds []) (hid : id ∈ m.timers) :
    ¬ (m.heap id).cb.isNone = true := by
  rw [← Option.not_isSome, h.cb_isSome hid]
  decide

theorem length_ne {pre post timers : List Nat} (hsplit : timers = pre ++ id :: post) :
    pre.length ≠ timers.length := by
  simp [hsplit]

/-- `cancel` drops the callback before it calls `find`, but that is not part of the key. -/
theorem find_cleared (h : m.Holds []) (hid : id ∈ m.timers) :
    ∃ pre post, m.timers = pre ++ id :: post ∧
      (m.update id fun timer => { timer with cb := none }).find id = pre.length := by
  have hkey : (m.update id fun timer => { timer with cb := none }).key = m.key := by
    funext a
    by_cases ha : a = id
    · subst ha
      simp [key, update]
    · exact update_key ha
  have hsorted := h.sorted
  rw [← hkey] at hsorted
  exact find_of_mem hsorted hid

theorem cancel_of_mem (h : m.Holds []) (hid : id ∈ m.timers) :
    ∃ m', m.cancel id = some (true, m') ∧ Cancelled m id m' := by
  obtain ⟨pre, post, hsplit, hfind⟩ := find_cleared h hid
  have hrewrite := h.rewrite (f := fun timer => timer) hsplit rfl rfl
  have hkill := (h.erase_one hsplit).kill (f := fun timer => { timer with cb := none }) rfl rfl
  refine ⟨_, ?_, hkill, rfl, hrewrite.timers, rfl, rfl, rfl⟩
  have hsplit' : (m.update id fun timer => { timer with cb := none }).timers = pre ++ id :: post :=
    hsplit
  unfold cancel
  rw [if_pos (h.cb_isSome hid)]
  simp only [hfind, erase_append hsplit']
  rw [if_neg (length_ne hsplit')]
  rfl

theorem refresh_of_mem (now : Nat) (h : m.Holds []) (hid : id ∈ m.timers) :
    ∃ m', m.refresh id now = (true, m') ∧
      Armed m id { m.heap id with next := addSize now (m.heap id).ms } m' ∧
      m'.tickled = m.tickled := by
  obtain ⟨pre, post, hsplit, hfind⟩ := find_of_mem h.sorted hid
  have hout := h.rewrite (f := fun timer => { timer with next := addSize now timer.ms })
    hsplit rfl rfl
  refine ⟨_, ?_, hout.insert⟩
  unfold refresh
  rw [if_neg (h.not_isNone hid)]
  simp only [hfind, erase_append hsplit]
  rw [if_neg (length_ne hsplit)]

/-- Where `reset` counts the new period from. -/
def resetStart (m : TimerManager) (id : Nat) (fromNow : Bool) (now : Nat) : Nat :=
  if fromNow then now else subSize (m.heap id).next (m.heap id).ms

theorem reset_of_mem (now : Nat) {ms : UInt64} {fromNow : Bool} (h : m.Holds [])
    (hid : id ∈ m.timers) (hsame : ¬ (ms.toNat = (m.heap id).ms ∧ fromNow = false)) :
    ∃ front m', m.reset id ms fromNow now = (true, front, m') ∧
      Armed m id { m.heap id with
        ms := ms.toNat, next := addSize (m.resetStart id fromNow now) ms.toNat } m' ∧
      Tickles m id { m.heap id with
        ms := ms.toNat, next := addSize (m.resetStart id fromNow now) ms.toNat } front m' := by
  obtain ⟨pre, post, hsplit, hfind⟩ := find_of_mem h.sorted hid
  have hout := h.rewrite (f := fun timer => { timer with
    ms := ms.toNat, next := addSize (m.resetStart id fromNow now) ms.toNat }) hsplit rfl rfl
  refine ⟨_, _, ?_, hout.addTimerLocked⟩
  unfold reset
  rw [if_neg hsame, if_neg (h.not_isNone hid)]
  simp only [hfind, erase_append hsplit]
  rw [if_neg (length_ne hsplit)]
  rfl

theorem addTimer_armed {addr : Nat} {ms : UInt16} (cb : Callback) {recurring : Bool}
    (h : m.Holds []) (haddr : ∀ id ∈ m.timers, (m.heap id).addr ≠ addr) :
    Armed m m.created ⟨recurring, ms.toNat, addSize now ms.toNat, some cb, addr⟩
        (m.addTimer addr ms cb recurring now).2 ∧
      Tickles m m.created ⟨recurring, ms.toNat, addSize now ms.toNat, some cb, addr⟩
        (m.addTimer addr ms cb recurring now).1 (m.addTimer addr ms cb recurring now).2 :=
  (h.create rfl haddr).addTimerLocked

end TimerManager

end Lyslg
