import Lyslg.Timer.Invariant
/-!
# The expired timers

`listExpiredCb` finds where the due timers end, erases them from the front of the set and goes
through them: a recurring one is inserted again, a one-shot one loses its callback.  All of it
only relies on the order of the set and on its callbacks.
-/

namespace Lyslg

open Support Support.Machine

/-- What `listExpiredCb` does to a timer it reports. -/
def Timer.fired (now : Nat) (timer : Timer) : Timer :=
  if timer.recurring then { timer with next := addSize now timer.ms }
  else { timer with cb := none }

namespace TimerManager

variable {m m₁ m' : TimerManager} {id now tmp : Nat} {due later out : List Nat}

/-! ## The loop -/

/-- `m'` is `m` after the loop over `due`, with `out` still to come. -/
structure Fired (m : TimerManager) (now : Nat) (due out : List Nat) (m' : TimerManager) : Prop where
  placed : m'.Placed out
  heap : ∀ a, m'.heap a = if a ∈ due then (m.heap a).fired now else m.heap a
  timers : ∀ a, a ∈ m'.timers ↔ a ∈ m.timers ∨ a ∈ due ∧ (m.heap a).recurring = true
  created : m'.created = m.created
  previousTime : m'.previousTime = m.previousTime
  tickled : m'.tickled = m.tickled

theorem fire_fired (now : Nat) (h : m.Placed (id :: out)) :
    Fired m now [id] out (m.fire now id) := by
  unfold fire
  by_cases hrec : (m.heap id).recurring = true
  · rw [if_pos hrec]
    have hout := h.update (f := fun timer => { timer with next := addSize now timer.ms }) rfl
    obtain ⟨pre, post, hsplit, hins, _, _, hplaced⟩ := hout.insert
    rw [hins]
    refine ⟨hplaced, ?_, ?_, rfl, rfl, rfl⟩
    · intro a
      by_cases ha : a = id
      · subst ha
        simp [update, Timer.fired, hrec]
      · simp [update, ha]
    · intro a
      change m.timers = pre ++ post at hsplit
      rw [hsplit]
      simp only [List.mem_append, List.mem_cons]
      by_cases ha : a = id
      · simp [ha, hrec]
      · simp [ha]
  · rw [if_neg hrec]
    have hout := h.update (f := fun timer => { timer with cb := none }) rfl
    refine ⟨hout.drop, ?_, ?_, rfl, rfl, rfl⟩
    · intro a
      by_cases ha : a = id
      · subst ha
        simp [update, Timer.fired, hrec]
      · simp [update, ha]
    · intro a
      by_cases ha : a = id
      · simp [update, ha, hrec]
      · simp [update, ha]

theorem Fired.cons (h : Fired m now [id] due m₁) (hid : id ∉ due)
    (hrest : Fired m₁ now due [] m') : Fired m now (id :: due) [] m' := by
  have hother : ∀ a ∈ due, m₁.heap a = m.heap a := by
    intro a ha
    have hne : a ≠ id := by
      rintro rfl
      exact hid ha
    rw [h.heap, if_neg (by simp [hne])]
  refine ⟨hrest.placed, ?_, ?_, ?_, ?_, ?_⟩
  · intro a
    rw [hrest.heap, h.heap]
    by_cases hdue : a ∈ due
    · have hne : a ≠ id := by
        rintro rfl
        exact hid hdue
      simp [hdue, hne]
    · simp [hdue]
  · intro a
    rw [hrest.timers, h.timers]
    by_cases hdue : a ∈ due
    · rw [hother a hdue]
      simp only [List.mem_cons]
      tauto
    · simp [hdue]
  · rw [hrest.created, h.created]
  · rw [hrest.previousTime, h.previousTime]
  · rw [hrest.tickled, h.tickled]

/-- The loop.  The timers it has not reached yet are out of the set. -/
theorem collect_fired (h : m.Placed due) :
    (collect now due m).1 = due.map (fun a => (a, (m.heap a).cb)) ∧
      Fired m now due [] (collect now due m).2 := by
  induction due generalizing m with
  | nil => exact ⟨rfl, h, by simp [collect], by simp [collect], rfl, rfl, rfl⟩
  | cons id due ih =>
      have hfire := fire_fired now h
      obtain ⟨hcbs, hrest⟩ := ih hfire.placed
      refine ⟨?_, hfire.cons h.not_mem_out hrest⟩
      simp only [collect, hcbs, List.map_cons, List.cons.injEq, true_and]
      apply List.map_congr_left
      intro a ha
      have hne : a ≠ id := by
        rintro rfl
        exact h.not_mem_out ha
      rw [hfire.heap, if_neg (by simp [hne])]

/-! ## Which timers it is over -/

/-- `lower_bound` stops at the first timer that is not before the temporary one, and
the loop after it skips those with the same deadline. -/
theorem expiredEnd_split (h : OrderedSet.Sorted m.key m.timers) (now tmp : Nat) :
    ∃ due later, m.timers = due ++ later ∧ m.expiredEnd false now tmp = due.length ∧
      (∀ a ∈ due, (m.heap a).next ≤ now) ∧ ∀ b ∈ later, now < (m.heap b).next := by
  obtain ⟨pre, post, hsplit, hpre, hpost⟩ := h.split (toLex (now, tmp))
  rw [hsplit] at h
  obtain ⟨same, later, rfl, hsame, hlater⟩ :=
    (h.sublist (List.sublist_append_right pre post)).split (toLex (now + 1, 0))
  have hpre' : ∀ a ∈ pre, (m.heap a).next ≤ now := by
    intro a ha
    have := Prod.Lex.toLex_lt_toLex.mp (hpre a ha)
    omega
  have hsame' : ∀ a ∈ same, (m.heap a).next = now := by
    intro a ha
    have hlow := Prod.Lex.toLex_le_toLex.mp (hpost a (List.mem_append_left later ha))
    have hhigh := Prod.Lex.toLex_lt_toLex.mp (hsame a ha)
    omega
  have hlater' : ∀ b ∈ later, now < (m.heap b).next := by
    intro b hb
    have := Prod.Lex.toLex_le_toLex.mp (hlater b hb)
    omega
  refine ⟨pre ++ same, later, by simp [hsplit], ?_, ?_, hlater'⟩
  · have hlower : OrderedSet.lowerBound (fun e => Timer.comparator (some (m.heap e))
        (some { next := now, addr := tmp })) (pre ++ (same ++ later)) = pre.length := by
      apply OrderedSet.lowerBound_append
      · exact fun a ha => (comparator_iff _ _).mpr (hpre a ha)
      · intro b hb
        rw [← Bool.not_eq_true, comparator_iff]
        exact not_lt.mpr (hpost b hb)
    have hskip : ((same ++ later).takeWhile fun e => (m.heap e).next = now).length =
        same.length := by
      apply OrderedSet.lowerBound_append
      · exact fun a ha => decide_eq_true (hsame' a ha)
      · exact fun b hb => decide_eq_false (Nat.ne_of_gt (hlater' b hb))
    unfold expiredEnd
    simp only [hsplit, Bool.false_eq_true, if_false, hlower, List.drop_left, hskip,
      List.length_append]
  · intro a ha
    rcases List.mem_append.mp ha with ha | ha
    · exact hpre' a ha
    · exact Nat.le_of_eq (hsame' a ha)

/-- The first timer has the earliest deadline. -/
theorem Placed.front_le {front : Nat} (h : m.Placed out) (hfront : m.timers.head? = some front)
    (hid : id ∈ m.timers) : (m.heap front).next ≤ (m.heap id).next := by
  obtain ⟨rest, hcons⟩ := List.head?_eq_some_iff.mp hfront
  have hsorted := h.sorted
  rw [hcons] at hsorted hid
  rcases List.mem_cons.mp hid with rfl | hid
  · exact Nat.le_refl _
  · exact next_le_of_key_lt ((List.pairwise_cons.mp hsorted).1 id hid)

/-- A call of `listExpiredCb` at `now` is over `due`: all timers after a rollover of the clock,
else those whose deadline has come. -/
structure Expires (m : TimerManager) (now : Nat) (due later : List Nat) : Prop where
  split : m.timers = due ++ later
  expired : ∀ a ∈ due, (m.detectClockRollover now).1 = true ∨ (m.heap a).next ≤ now
  waiting : ∀ b ∈ later, (m.detectClockRollover now).1 = false ∧ now < (m.heap b).next

/-- The timers `due` are erased, then the loop runs over them. -/
theorem collect_expired (now : Nat) (h : m.Placed []) (hsplit : m.timers = due ++ later) :
    (collect now due { m with timers := later, previousTime := now }).1 =
        due.map (fun a => (a, (m.heap a).cb)) ∧
      Fired { m with timers := later, previousTime := now } now due []
        (collect now due { m with timers := later, previousTime := now }).2 := by
  have hprevious : ({ m with previousTime := now } : TimerManager).Placed [] :=
    ⟨h.sorted, h.separate⟩
  apply collect_fired
  apply hprevious.erase
  · rw [hsplit]
    exact List.sublist_append_right due later
  · rw [List.append_nil, hsplit]
    exact List.perm_append_comm

theorem listExpiredCb_fired {expired : List (Nat × Option Callback)} (h : m.Placed [])
    (hlist : m.listExpiredCb now tmp = some (expired, m')) :
    ∃ due later, expired = due.map (fun a => (a, (m.heap a).cb)) ∧ Expires m now due later ∧
      Fired { m with timers := later, previousTime := now } now due [] m' := by
  unfold listExpiredCb at hlist
  have hprev : (m.detectClockRollover now).2 = { m with previousTime := now } := rfl
  cases hroll : (m.detectClockRollover now).1 with
  | true =>
      have hend : expiredEnd { m with previousTime := now } true now tmp = m.timers.length := by
        simp [expiredEnd]
      simp only [hroll, hprev, if_true, hend, List.take_length, List.drop_length,
        Option.some.injEq] at hlist
      obtain ⟨hcbs, hfired⟩ := collect_expired now h (List.append_nil m.timers).symm
      rw [hlist] at hcbs hfired
      exact ⟨m.timers, [], hcbs, ⟨by simp, fun _ _ => Or.inl hroll, by simp⟩, hfired⟩
  | false =>
      simp only [hroll, hprev, Bool.false_eq_true, if_false] at hlist
      cases hfront : m.timers.head? with
      | none => simp [hfront] at hlist
      | some front =>
          by_cases hdue : (m.heap front).next ≤ now
          · obtain ⟨due, later, hsplit, hend, hlow, hhigh⟩ :=
              expiredEnd_split (m := { m with previousTime := now }) h.sorted now tmp
            change m.timers = due ++ later at hsplit
            have htake : m.timers.take due.length = due := by simp [hsplit]
            have hdrop : m.timers.drop due.length = later := by simp [hsplit]
            simp only [hfront, Option.map_some, hdue, decide_true, hend, htake, hdrop,
              Option.some.injEq] at hlist
            obtain ⟨hcbs, hfired⟩ := collect_expired now h hsplit
            rw [hlist] at hcbs hfired
            exact ⟨due, later, hcbs, ⟨hsplit, fun a ha => Or.inr (hlow a ha),
              fun b hb => ⟨hroll, hhigh b hb⟩⟩, hfired⟩
          · simp only [hfront, Option.map_some, hdue, decide_false, Option.some.injEq,
              Prod.mk.injEq] at hlist
            obtain ⟨rfl, rfl⟩ := hlist
            refine ⟨[], m.timers, rfl, ⟨rfl, by simp, ?_⟩, ?_⟩
            · intro b hb
              have := h.front_le hfront hb
              exact ⟨hroll, by omega⟩
            · exact ⟨⟨h.sorted, h.separate⟩, by simp, by simp, rfl, rfl, rfl⟩

theorem listExpiredCb_isSome (now tmp : Nat) (hne : m.timers ≠ []) :
    (m.listExpiredCb now tmp).isSome = true := by
  obtain ⟨front, rest, hcons⟩ := List.exists_cons_of_ne_nil hne
  unfold listExpiredCb
  cases hroll : (m.detectClockRollover now).1 with
  | true => simp [hroll]
  | false =>
      have htimers : (m.detectClockRollover now).2.timers = front :: rest := hcons
      by_cases hdue : ((m.detectClockRollover now).2.heap front).next ≤ now
      · simp [hroll, htimers, hdue]
      · simp [hroll, htimers, hdue]

/-! ## Exactness -/

/-- The set is in strict order for the current deadlines, its timers lie at different addresses
and have a callback. -/
structure SetInvariant (m : TimerManager) : Prop where
  placed : m.Placed []
  callbacks : ∀ id ∈ m.timers, (m.heap id).cb.isSome = true

/-- The timers of the set that a call at `now` is about, in order. -/
def dueAt (m : TimerManager) (now : Nat) : List Nat :=
  m.timers.filter fun id => (m.detectClockRollover now).1 || (m.heap id).next ≤ now

theorem Expires.due_eq (h : Expires m now due later) : m.dueAt now = due := by
  have hdue : ∀ a ∈ due, ((m.detectClockRollover now).1 || (m.heap a).next ≤ now) = true := by
    intro a ha
    simpa using h.expired a ha
  have hlater : ∀ b ∈ later,
      ¬ ((m.detectClockRollover now).1 || (m.heap b).next ≤ now) = true := by
    intro b hb
    obtain ⟨hroll, hnext⟩ := h.waiting b hb
    simpa [hroll] using hnext
  rw [dueAt, h.split, List.filter_append, List.filter_eq_self.mpr hdue,
    List.filter_eq_nil_iff.mpr hlater, List.append_nil]

theorem mem_dueAt : id ∈ m.dueAt now ↔
    id ∈ m.timers ∧ ((m.detectClockRollover now).1 = true ∨ (m.heap id).next ≤ now) := by
  simp [dueAt]

/-- A timer that was not due is where it was. -/
theorem Expires.mem_later (h : Expires m now due later) (hid : id ∉ due) :
    id ∈ later ↔ id ∈ m.timers := by
  rw [h.split, List.mem_append]
  exact (or_iff_right hid).symm

/-- The callbacks are those of the timers that are due, in the order of the set.  The one-shot ones
among them are gone, the recurring ones are back with their new deadline, and the others are left
alone. -/
theorem listExpiredCb_exact {m : TimerManager} (h : m.SetInvariant) (hne : m.timers ≠ [])
    (now tmp : Nat) :
    m.exec (.listTest now) = some (.flag false false, m) ∧
    (m.dueAt now).Nodup ∧ OrderedSet.Sorted m.key (m.dueAt now) ∧
    (∀ id, id ∈ m.dueAt now ↔
      id ∈ m.timers ∧ ((m.detectClockRollover now).1 = true ∨ (m.heap id).next ≤ now)) ∧
    ∃ m', m.listExpiredCb now tmp =
        some ((m.dueAt now).map fun id => (id, (m.heap id).cb), m') ∧
      (∀ id ∈ m.dueAt now, (m.heap id).recurring = false →
        id ∉ m'.timers ∧ m'.heap id = { m.heap id with cb := none }) ∧
      (∀ id ∈ m.dueAt now, (m.heap id).recurring = true →
        id ∈ m'.timers ∧
          m'.heap id = { m.heap id with next := addSize now (m.heap id).ms }) ∧
      (∀ id ∉ m.dueAt now, m'.heap id = m.heap id ∧ (id ∈ m'.timers ↔ id ∈ m.timers)) ∧
      m'.previousTime = now ∧ m'.tickled = m.tickled ∧ m'.SetInvariant := by
  have hsublist : (m.dueAt now).Sublist m.timers := List.filter_sublist
  have hsorted : OrderedSet.Sorted m.key (m.dueAt now) := h.placed.sorted.sublist hsublist
  refine ⟨?_, hsorted.nodup, hsorted, fun id => mem_dueAt, ?_⟩
  · simp [exec, hne]
  · obtain ⟨⟨expired, m'⟩, hlist⟩ := Option.isSome_iff_exists.mp (listExpiredCb_isSome now tmp hne)
    obtain ⟨due, later, rfl, hexpires, hfired⟩ := listExpiredCb_fired h.placed hlist
    have hnodup : (due ++ later).Nodup := by
      have := h.placed.nodup
      rwa [List.append_nil, hexpires.split] at this
    have hheap : ∀ a, m'.heap a = if a ∈ due then (m.heap a).fired now else m.heap a := hfired.heap
    have htimers : ∀ a, a ∈ m'.timers ↔ a ∈ later ∨ a ∈ due ∧ (m.heap a).recurring = true :=
      hfired.timers
    have hwaits : ∀ id, id ∈ later → (m.heap id).cb.isSome = true := by
      intro id hid
      exact h.callbacks id (by rw [hexpires.split]; exact List.mem_append_right due hid)
    rw [hexpires.due_eq]
    refine ⟨m', hlist, ?_, ?_, ?_, hfired.previousTime, hfired.tickled, hfired.placed, ?_⟩
    · intro id hid honce
      constructor
      · rw [htimers]
        rintro (hlater | ⟨_, hrec⟩)
        · exact List.disjoint_of_nodup_append hnodup hid hlater
        · rw [honce] at hrec
          cases hrec
      · rw [hheap, if_pos hid, Timer.fired, if_neg (by rw [honce]; decide)]
    · intro id hid hrec
      refine ⟨(htimers id).mpr (.inr ⟨hid, hrec⟩), ?_⟩
      rw [hheap, if_pos hid, Timer.fired, if_pos hrec]
    · intro id hid
      refine ⟨by rw [hheap, if_neg hid], ?_⟩
      rw [htimers, hexpires.mem_later hid]
      exact or_iff_left fun hrec => hid hrec.1
    · intro id hid
      rw [hheap]
      by_cases hdue : id ∈ due
      · rcases (htimers id).mp hid with hlater | ⟨_, hrec⟩
        · exact absurd hlater (List.disjoint_of_nodup_append hnodup hdue)
        · rw [if_pos hdue, Timer.fired, if_pos hrec]
          exact h.callbacks id (by rw [hexpires.split]; exact List.mem_append_left later hdue)
      · rw [if_neg hdue]
        rcases (htimers id).mp hid with hlater | ⟨hin, _⟩
        · exact hwaits id hlater
        · exact absurd hin hdue

/-- A recurring timer and a one-shot one with the same deadline, the temporary timer between their
addresses, and a timer that is not due. -/
theorem listExpiredCb_exact_same_deadline :
    let heap (id : Nat) : Timer :=
      if id = 0 then ⟨true, 4, 7, some 1, 16⟩
      else if id = 1 then ⟨false, 5, 7, some 2, 48⟩
      else ⟨false, 9, 9, some 3, 64⟩
    let m : TimerManager := ⟨[0, 1, 2], false, 5, heap, 3⟩
    ∃ m', m.listExpiredCb 7 32 = some ([(0, some 1), (1, some 2)], m') ∧ 0 ∈ m'.timers ∧
      1 ∉ m'.timers ∧ m'.SetInvariant := by
  intro heap m
  have hset : m.SetInvariant := by
    refine ⟨⟨?_, by decide⟩, by decide⟩
    show List.Pairwise (fun a b => m.key a < m.key b) [0, 1, 2]
    simp only [key, Prod.Lex.toLex_lt_toLex]
    decide
  obtain ⟨_, _, _, _, m', hlist, honce, hrec, _, _, _, hset'⟩ :=
    listExpiredCb_exact hset (by decide) 7 32
  have hdue : m.dueAt 7 = [0, 1] := by decide +kernel
  rw [hdue] at hlist honce hrec
  exact ⟨m', hlist, (hrec 0 (by decide) rfl).1, (honce 1 (by decide) rfl).1, hset'⟩

end TimerManager

end Lyslg
