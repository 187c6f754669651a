import Lyslg.Http.ConnectionPool
import Lyslg.Support.Run
import Mathlib.Algebra.Order.BigOperators.Group.List
import Mathlib.Data.List.Nodup
import Mathlib.Tactic.Linarith
/-!
# Ownership in the connection pool

A connection that exists is in one place: once in `m_conns`, with one holder, or with one
call that is under way.  The counter may be behind while calls are under way, and each of
them owes the difference.
-/

namespace Lyslg.Http.HttpConnectionPool

open Support Support.Machine

variable {pool : HttpConnectionPool} {s t u : State} {conn : Nat} {op : Op} {e : Event}
  {es fs : List Event}

/-- How much higher `m_total` is because of a call than the number of connections. -/
def Op.owed : Op → Int
  | .delete _ deleted _ => deleted
  | .count _ => -1
  | .uncount => 1
  | _ => 0

/-- What the next part of a call adds to `m_total`. -/
def Op.adds : Op → Int
  | .delete [] deleted _ => -deleted
  | .count _ => 1
  | .uncount => -1
  | _ => 0

/-- How often a connection is in `m_conns`, with a holder or with a call. -/
def State.places (s : State) (conn : Nat) : Nat :=
  s.conns.count conn + s.held.count conn + (s.ops.map fun op => op.ptrs.count conn).sum

/-- Every connection that exists is in one place, and the counter is right but for what the
calls owe. -/
structure Accounted (s : State) : Prop where
  places : ∀ conn, s.places conn = s.live.count conn
  once : s.live.Nodup
  fresh : ∀ conn ∈ s.live, conn < s.next
  total : s.total = int32 (s.live.length + (s.ops.map Op.owed).sum)
  sound : s.fault = false

theorem accounted_start : Accounted {} where
  places conn := by simp [State.places]
  once := List.nodup_nil
  fresh := by simp
  total := by simp
  sound := rfl

namespace Accounted

theorem live_of_places (h : Accounted s) (hpos : 0 < s.places conn) : conn ∈ s.live := by
  rw [h.places] at hpos
  exact List.count_pos_iff.mp hpos

theorem live_of_conns (h : Accounted s) (hmem : conn ∈ s.conns) : conn ∈ s.live := by
  have hpos := List.count_pos_iff.mpr hmem
  exact h.live_of_places (by unfold State.places; omega)

theorem live_of_held (h : Accounted s) (hmem : conn ∈ s.held) : conn ∈ s.live := by
  have hpos := List.count_pos_iff.mpr hmem
  exact h.live_of_places (by unfold State.places; omega)

theorem live_of_op (h : Accounted s) (hop : op ∈ s.ops) (hmem : conn ∈ op.ptrs) :
    conn ∈ s.live := by
  have hpos := List.count_pos_iff.mpr hmem
  have hsum : op.ptrs.count conn ≤ (s.ops.map fun op => op.ptrs.count conn).sum :=
    List.single_le_sum (by simp) _ (List.mem_map_of_mem hop)
  exact h.live_of_places (by unfold State.places; omega)

end Accounted

/-! ## The parts of a call -/

theorem popConns_eq (invalid : Nat → Bool) (conns : List Nat) :
    popConns invalid conns = (conns.takeWhile invalid, (conns.dropWhile invalid).head?,
      (conns.dropWhile invalid).tail) := by
  induction conns with
  | nil => rfl
  | cons conn conns ih =>
      rw [popConns, List.takeWhile_cons, List.dropWhile_cons]
      split
      · rw [ih]
      · rfl

/-- Nothing is lost or doubled by the loop. -/
theorem count_popConns (invalid : Nat → Bool) (conns : List Nat) (conn : Nat) :
    ((popConns invalid conns).1 ++ (popConns invalid conns).2.1.toList).count conn
      + (popConns invalid conns).2.2.count conn = conns.count conn := by
  rw [popConns_eq, ← List.count_append, List.append_assoc]
  congr 1
  conv_rhs => rw [← @List.takeWhile_append_dropWhile _ invalid conns]
  congr 1
  cases conns.dropWhile invalid <;> rfl

theorem mem_of_popConns {invalid : Nat → Bool} {conns : List Nat}
    (hmem : conn ∈ (popConns invalid conns).1 ++ (popConns invalid conns).2.1.toList) :
    conn ∈ conns := by
  have hcount := count_popConns invalid conns conn
  have hpos := List.count_pos_iff.mpr hmem
  exact List.count_pos_iff.mp (by omega)

theorem touch_of_live {conns : List Nat} (h : ∀ conn ∈ conns, conn ∈ s.live) :
    s.touch conns = s := by
  have hnone : (conns.any fun conn => conn ∉ s.live) = false := by
    rw [List.any_eq_false]
    intro conn hmem
    simpa using h conn hmem
  unfold State.touch
  rw [hnone, Bool.or_false]

theorem delete_of_live (h : conn ∈ s.live) :
    s.delete conn = { s with live := s.live.erase conn } := by
  unfold State.delete
  rw [touch_of_live (by simpa using h)]

theorem countRequest_of_live (h : conn ∈ s.live) :
    s.countRequest conn = { s with
      attr := Function.update s.attr conn
        { s.attr conn with request := addSize (s.attr conn).request 1 } } := by
  unfold State.countRequest
  rw [touch_of_live (by simpa using h)]

/-- What a part of a call moves: between the places, in and out of existence, and on the
counter. -/
structure Moves (s : State) (op : Op) (t : State) (op' : Option Op) : Prop where
  ops : t.ops = s.ops
  places : ∀ conn, t.conns.count conn + t.held.count conn
      + (op'.toList.map fun op => op.ptrs.count conn).sum + s.live.count conn
    = s.conns.count conn + s.held.count conn + op.ptrs.count conn + t.live.count conn
  once : t.live.Nodup
  fresh : ∀ conn ∈ t.live, conn < t.next
  total : t.total = int32 (s.total + op.adds)
  balance : (t.live.length : Int) - s.live.length +
    ((op'.toList.map Op.owed).sum - op.owed) = op.adds
  sound : t.fault = false
  next_le : s.next ≤ t.next
  live : ∀ conn ∈ t.live, conn ∈ s.live ∨ op = .connect ∧ conn = s.next

theorem count_erase_add {conns : List Nat} (h : conn ∈ conns) (x : Nat) :
    (conns.erase conn).count x + [conn].count x = conns.count x := by
  rw [(List.perm_cons_erase h).count_eq x, ← List.count_append]
  exact (List.perm_append_singleton conn _).count_eq x

theorem length_erase_of_live {conns : List Nat} (h : conn ∈ conns) :
    ((conns.erase conn).length : Int) = conns.length - 1 := by
  have hpos := List.length_pos_of_mem h
  rw [List.length_erase_of_mem h]
  omega

/-- A conversion changes nothing about a counter that holds an `int32_t`. -/
theorem Accounted.total_eq (h : Accounted s) : s.total = int32 s.total := by
  have hconv := int32_add_int32 (s.live.length + (s.ops.map Op.owed).sum) 0
  rw [add_zero, add_zero, ← h.total] at hconv
  exact hconv.symm

/-- The call deletes a connection that it has. -/
theorem moves_delete (h : Accounted s) (hop : op ∈ s.ops) (hconn : conn ∈ op.ptrs) {op' : Op}
    (hptrs : ∀ x, op'.ptrs.count x + [conn].count x = op.ptrs.count x)
    (howed : op'.owed = op.owed + 1) (hadds : op.adds = 0) : Moves s op (s.delete conn)
    (some op') := by
  have hlive := h.live_of_op hop hconn
  rw [delete_of_live hlive]
  refine ⟨rfl, ?_, h.once.erase conn, ?_, ?_, ?_, h.sound, le_rfl, ?_⟩
  · intro x
    have hcount := count_erase_add hlive x
    have hx := hptrs x
    simp only [Option.toList_some, List.map_cons, List.map_nil, List.sum_cons, List.sum_nil]
    omega
  · intro x hx
    exact h.fresh x (List.mem_of_mem_erase hx)
  · rw [hadds, add_zero]
    exact h.total_eq
  · have hlen := length_erase_of_live hlive
    simp only [Option.toList_some, List.map_cons, List.map_nil, List.sum_cons, List.sum_nil]
    omega
  · intro x hx
    exact Or.inl (List.mem_of_mem_erase hx)

/-- The call changes neither the counter nor what exists. -/
theorem moves_within (h : Accounted s) {op' : Option Op} (hops : t.ops = s.ops)
    (hlive : t.live = s.live) (hnext : t.next = s.next) (htotal : t.total = s.total)
    (hfault : t.fault = s.fault)
    (hplaces : ∀ conn, t.conns.count conn + t.held.count conn
        + (op'.toList.map fun op => op.ptrs.count conn).sum
      = s.conns.count conn + s.held.count conn + op.ptrs.count conn)
    (howed : (op'.toList.map Op.owed).sum = op.owed) (hadds : op.adds = 0) :
    Moves s op t op' := by
  refine ⟨hops, ?_, hlive ▸ h.once, ?_, ?_, ?_, hfault.trans h.sound, hnext.ge, ?_⟩
  · intro conn
    rw [hlive, hplaces conn]
  · rw [hlive, hnext]
    exact h.fresh
  · rw [htotal, hadds, add_zero]
    exact h.total_eq
  · rw [hlive, howed, hadds, sub_self, sub_self, add_zero]
  · intro conn hconn
    exact Or.inl (hlive ▸ hconn)

/-- The call changes the counter by what it owes. -/
theorem moves_total (h : Accounted s) {op' : Option Op} {d : Int}
    (hptrs : ∀ conn, (op'.toList.map fun op => op.ptrs.count conn).sum = op.ptrs.count conn)
    (howed : (op'.toList.map Op.owed).sum = op.owed + d) (hadds : op.adds = d) :
    Moves s op { s with total := int32 (s.total + d) } op' := by
  refine ⟨rfl, ?_, h.once, h.fresh, ?_, ?_, h.sound, le_rfl, ?_⟩
  · intro conn
    rw [hptrs conn]
  · rw [hadds]
  · rw [howed, hadds, sub_self]
    ring
  · intro conn hconn
    exact Or.inl hconn

theorem moves_create (h : Accounted s) : Moves s .connect s.create (some (.count s.next)) := by
  have hnew : s.next ∉ s.live := fun hmem => absurd (h.fresh _ hmem) (lt_irrefl _)
  refine ⟨rfl, ?_, List.nodup_cons.mpr ⟨hnew, h.once⟩, ?_, ?_, ?_, h.sound, Nat.le_succ _, ?_⟩
  · intro conn
    simp only [State.create, Option.toList_some, List.map_cons, List.map_nil, List.sum_cons,
      List.sum_nil, Op.ptrs, List.count_cons, List.count_nil]
    omega
  · intro conn hconn
    rcases List.mem_cons.mp hconn with rfl | hold
    · exact Nat.lt_succ_self _
    · exact (h.fresh conn hold).trans (Nat.lt_succ_self _)
  · exact h.total_eq.trans (congrArg int32 (add_zero _).symm)
  · simp only [State.create, Option.toList_some, List.map_cons, List.map_nil, List.sum_cons,
      List.sum_nil, Op.owed, Op.adds, List.length_cons, Nat.cast_add, Nat.cast_one]
    ring
  · intro conn hconn
    rcases List.mem_cons.mp hconn with rfl | hold
    · exact Or.inr ⟨rfl, rfl⟩
    · exact Or.inl hold

theorem moves_lock (h : Accounted s) (now : Nat) (invalid : Nat → Bool) :
    Moves s (.lock now)
      { s.touch ((popConns invalid s.conns).1 ++ (popConns invalid s.conns).2.1.toList) with
        conns := (popConns invalid s.conns).2.2 }
      (some (.delete (popConns invalid s.conns).1 0 (popConns invalid s.conns).2.1)) := by
  rw [touch_of_live fun conn hmem => h.live_of_conns (mem_of_popConns hmem)]
  refine moves_within h rfl rfl rfl rfl rfl ?_ rfl rfl
  intro conn
  have hcount := count_popConns invalid s.conns conn
  change _ + _ + (List.count conn (_ ++ _) + 0) = _ + _ + 0
  dsimp only
  omega

/-- `ReleasePtr` up to its decision. -/
theorem part_release (hlive : conn ∈ s.live) (opens : Bool) :
    pool.part s opens (.release conn) =
      (let counted := { s.attr conn with request := addSize (s.attr conn).request 1 }
       let s := { s with attr := Function.update s.attr conn counted }
       if pool.isWornOut (getCurrentMS s.clock) counted then (s.delete conn, some .uncount)
       else (s, some (.keep conn))) := by
  change (if pool.isWornOut (getCurrentMS (s.countRequest conn).clock)
    ((s.countRequest conn).attr conn) then _ else _) = _
  rw [countRequest_of_live hlive]
  simp only [Function.update_self]

theorem moves_release (h : Accounted s) (hop : Op.release conn ∈ s.ops) (opens : Bool) :
    Moves s (.release conn) (pool.part s opens (.release conn)).1
      (pool.part s opens (.release conn)).2 := by
  have hlive : conn ∈ s.live := h.live_of_op hop (List.mem_singleton.mpr rfl)
  have hcount : ∀ attr, Accounted { s with attr := attr } := fun attr =>
    ⟨h.places, h.once, h.fresh, h.total, h.sound⟩
  rw [part_release hlive]
  dsimp only
  split
  · have hmoves : Moves _ (.release conn) _ (some .uncount) :=
      moves_delete (hcount _) hop (List.mem_singleton.mpr rfl) (fun x => Nat.zero_add _) rfl rfl
    exact ⟨hmoves.ops, hmoves.places, hmoves.once, hmoves.fresh, hmoves.total, hmoves.balance,
      hmoves.sound, hmoves.next_le, hmoves.live⟩
  · exact moves_within h rfl rfl rfl rfl rfl (fun conn => rfl) rfl rfl

theorem part_moves (h : Accounted s) (hop : op ∈ s.ops) (opens : Bool) :
    Moves s op (pool.part s opens op).1 (pool.part s opens op).2 := by
  cases op with
  | lock now => exact moves_lock h now fun conn => pool.isInvalid (getCurrentMS now) (s.attr conn)
  | delete invalid deleted ptr =>
      cases invalid with
      | nil =>
          unfold part
          cases ptr with
          | none => exact moves_total h (fun conn => rfl) (by simp [Op.owed]) rfl
          | some ptr => exact moves_total h (fun conn => rfl) (by simp [Op.owed]) rfl
      | cons conn invalid =>
          refine moves_delete h hop (by simp [Op.ptrs]) ?_ (by simp [Op.owed]) rfl
          intro x
          rw [Nat.add_comm, ← List.count_append]
          rfl
  | connect =>
      cases opens with
      | true => exact moves_create h
      | false => exact moves_within h rfl rfl rfl rfl rfl (fun conn => rfl) rfl rfl
  | count ptr => exact moves_total h (fun conn => rfl) rfl rfl
  | handOut ptr =>
      refine moves_within h rfl rfl rfl rfl rfl ?_ rfl rfl
      intro conn
      simp only [part, Option.toList_none, List.map_nil, List.sum_nil, Op.ptrs, List.count_cons,
        List.count_nil]
      omega
  | release ptr => exact moves_release h hop opens
  | uncount => exact moves_total h (fun conn => rfl) rfl rfl
  | keep ptr =>
      refine moves_within h rfl rfl rfl rfl rfl ?_ rfl rfl
      intro conn
      simp only [part, Option.toList_none, List.map_nil, List.sum_nil, Op.ptrs, List.count_append]
      omega

/-! ## Steps and runs -/

/-- A call goes on as `Moves` says. -/
theorem Moves.accounted {k : Nat} {op' : Option Op} (hm : Moves s op t op') (h : Accounted s)
    (hk : s.ops[k]? = some op) : Accounted { t with ops := replaceAt s.ops k op' } where
  places := by
    intro conn
    have hsum := sum_map_replaceAt hk op' fun op => op.ptrs.count conn
    have hold := h.places conn
    have hmove := hm.places conn
    unfold State.places at hold ⊢
    dsimp only
    omega
  once := hm.once
  fresh := hm.fresh
  total := by
    have hsum := sum_map_replaceAt hk op' Op.owed
    have hbalance := hm.balance
    change t.total = _
    rw [hm.total, h.total, int32_add_int32]
    congr 1
    dsimp only
    linarith
  sound := hm.sound

/-- What a step does to what exists. -/
theorem step_accounted (h : Accounted s) (hstep : pool.Step s e t) :
    Accounted t ∧ s.next ≤ t.next ∧ ∀ conn ∈ t.live, conn ∈ s.live ∨ s.next ≤ conn := by
  cases e with
  | tick now =>
      obtain ⟨-, rfl⟩ := Option.ite_some_none_eq_some.mp hstep
      exact ⟨⟨h.places, h.once, h.fresh, h.total, h.sound⟩, le_rfl, fun _ hc => Or.inl hc⟩
  | disconnect conn =>
      obtain rfl := Option.some.inj hstep
      exact ⟨⟨h.places, h.once, h.fresh, h.total, h.sound⟩, le_rfl, fun _ hc => Or.inl hc⟩
  | getConnection =>
      obtain rfl := Option.some.inj hstep
      refine ⟨⟨?_, h.once, h.fresh, ?_, h.sound⟩, le_rfl, fun _ hc => Or.inl hc⟩
      · intro conn
        have hsum := sum_map_concat s.ops (.lock s.clock) fun op => op.ptrs.count conn
        exact (congrArg _ hsum).trans (h.places conn)
      · have hsum := sum_map_concat s.ops (.lock s.clock) Op.owed
        dsimp only
        rw [hsum]
        exact h.total.trans (congrArg int32 (congrArg _ (add_zero _).symm))
  | release conn =>
      obtain ⟨hheld, rfl⟩ := Option.ite_some_none_eq_some.mp hstep
      refine ⟨⟨?_, h.once, h.fresh, ?_, h.sound⟩, le_rfl, fun _ hc => Or.inl hc⟩
      · intro x
        have hsum : _ = _ + [conn].count x :=
          sum_map_concat s.ops (.release conn) fun op => op.ptrs.count x
        have hold := h.places x
        have hcount := count_erase_add hheld x
        unfold State.places at hold ⊢
        dsimp only
        omega
      · have hsum := sum_map_concat s.ops (.release conn) Op.owed
        dsimp only
        rw [hsum]
        exact h.total.trans (congrArg int32 (congrArg _ (add_zero _).symm))
  | part k opens =>
      obtain ⟨op, hk, hpart⟩ := Option.bind_eq_some_iff.mp hstep
      obtain rfl := Option.some.inj hpart
      have hm := @part_moves pool _ _ h (List.mem_of_getElem? hk) opens
      refine ⟨hm.accounted h hk, hm.next_le, ?_⟩
      intro conn hconn
      exact (hm.live conn hconn).imp_right fun hnew => hnew.2.ge

theorem run_accounted (h : Run pool.Step s es t) (hs : Accounted s) : Accounted t :=
  h.invariant (fun _ _ _ hi hstep => (step_accounted hi hstep).1) hs

/-- Serial numbers are not used again. -/
theorem run_deleted (h : Run pool.Step s es t) (hs : Accounted s) (hnext : conn < s.next)
    (hdeleted : conn ∉ s.live) : conn < t.next ∧ conn ∉ t.live := by
  have hkeep : Accounted t ∧ conn < t.next ∧ conn ∉ t.live := by
    refine h.invariant (I := fun s => Accounted s ∧ conn < s.next ∧ conn ∉ s.live) ?_
      ⟨hs, hnext, hdeleted⟩
    rintro s e t ⟨hs, hnext, hdeleted⟩ hstep
    obtain ⟨ht, hle, hlive⟩ := step_accounted hs hstep
    refine ⟨ht, hnext.trans_le hle, ?_⟩
    intro hmem
    rcases hlive conn hmem with hold | hnew
    · exact hdeleted hold
    · omega
  exact hkeep.2

/-! ## Ownership -/

/-- What the pool owns, its holders have and its calls work on. -/
structure Owned (s : State) : Prop where
  /-- a connection that exists is in one place, and there once -/
  one : ∀ conn ∈ s.live, s.conns.count conn + s.held.count conn
    + (s.ops.map fun op => op.ptrs.count conn).sum = 1
  /-- one that was deleted is nowhere -/
  gone : ∀ conn ∉ s.live, conn ∉ s.conns ∧ conn ∉ s.held ∧ ∀ op ∈ s.ops, conn ∉ op.ptrs
  sound : s.fault = false
  /-- with no call under way the connections are those in `m_conns` and those handed out -/
  idle_or_held : s.ops = [] → (s.conns ++ s.held).Perm s.live
  total : s.ops = [] → s.total = int32 s.live.length

theorem Accounted.owned (h : Accounted s) : Owned s where
  one conn hlive := (h.places conn).trans (List.count_eq_one_of_mem h.once hlive)
  gone conn hgone := by
    refine ⟨?_, ?_, ?_⟩
    · exact fun hmem => hgone (h.live_of_conns hmem)
    · exact fun hmem => hgone (h.live_of_held hmem)
    · exact fun op hop hmem => hgone (h.live_of_op hop hmem)
  sound := h.sound
  idle_or_held hops := by
    rw [List.perm_iff_count]
    intro conn
    have hplaces := h.places conn
    unfold State.places at hplaces
    rw [hops] at hplaces
    rw [List.count_append]
    exact hplaces
  total hops := by
    rw [h.total, hops]
    exact congrArg int32 (add_zero _)

/-- In every state of every run of the pool, a connection is in one place as long as it exists
and nowhere afterwards. -/
theorem run_owned (hrun : Run pool.Step {} es s) :
    Owned s ∧ ∀ conn < s.next, conn ∉ s.live → ∀ fs t, Run pool.Step s fs t →
      conn ∉ t.conns ∧ conn ∉ t.held ∧ ∀ op ∈ t.ops, conn ∉ op.ptrs := by
  have hs := run_accounted hrun accounted_start
  refine ⟨hs.owned, ?_⟩
  intro conn hnext hdeleted fs t hrest
  exact (run_accounted hrest hs).owned.gone conn (run_deleted hrest hs hnext hdeleted).2

/-- A connection that was handed out, whose peer closed it, and that is released. -/
theorem run_owned_released :
    let pool : HttpConnectionPool := ⟨10, 30000, 5⟩
    ∃ s, Run pool.Step {} [.getConnection, .part 0 true, .part 0 true, .part 0 true, .part 0 true,
        .part 0 true, .disconnect 0, .release 0, .part 0 true] s ∧
      Owned s ∧ ∀ fs t, Run pool.Step s fs t →
        0 ∉ t.conns ∧ 0 ∉ t.held ∧ ∀ op ∈ t.ops, 0 ∉ op.ptrs := by
  intro pool
  have hrun : Run pool.Step {} [.getConnection, .part 0 true, .part 0 true, .part 0 true,
      .part 0 true, .part 0 true, .disconnect 0, .release 0, .part 0 true] _ := Run.of_steps rfl
  exact ⟨_, hrun, (run_owned hrun).1,
    (run_owned hrun).2 0 Nat.one_pos List.not_mem_nil⟩

/-! ## Where the counter ends -/

/-- A call that opens the connection `conn`, which its peer closes. -/
def acquire (conn : Nat) : List Event :=
  [.getConnection, .part 0 true, .part 0 true, .part 0 true, .part 0 true, .part 0 true,
    .disconnect conn]

theorem run_acquire (pool : HttpConnectionPool) (hops : s.ops = []) (hconns : s.conns = []) :
    ∃ t, Run pool.Step s (acquire s.next) t ∧ t.ops = [] ∧ t.conns = [] ∧
      t.next = s.next + 1 ∧ t.live.length = s.live.length + 1 := by
  obtain ⟨conns, total, live, attr, born, next, held, ops, clock, fault⟩ := s
  cases hops
  cases hconns
  exact ⟨_,
    .cons rfl (.cons rfl (.cons rfl (.cons rfl (.cons rfl (.cons rfl (.cons rfl (.nil _))))))),
    rfl, rfl, rfl, rfl⟩

theorem run_acquires (pool : HttpConnectionPool) (n : Nat) :
    ∃ t, Run pool.Step {} ((List.range n).flatMap acquire) t ∧ t.ops = [] ∧ t.conns = [] ∧
      t.next = n ∧ t.live.length = n := by
  induction n with
  | zero => exact ⟨{}, .nil _, rfl, rfl, rfl, rfl⟩
  | succ n ih =>
      obtain ⟨s, hrun, hops, hconns, hnext, hlive⟩ := ih
      obtain ⟨t, hmore, hops', hconns', hnext', hlive'⟩ := run_acquire pool hops hconns
      rw [hnext] at hmore
      refine ⟨t, ?_, hops', hconns', by rw [hnext', hnext], by rw [hlive', hlive]⟩
      rw [List.range_succ, List.flatMap_append, List.flatMap_singleton]
      exact hrun.append hmore

/-- A connection that `getConnection` has taken is with nobody until it is handed out, and
with `2^31` connections the counter is negative. -/
theorem pool_total_wraps :
    let pool : HttpConnectionPool := ⟨10, 30000, 5⟩
    (∃ s, Run pool.Step {} ((acquire 0).take 4) s ∧ 0 ∈ s.live ∧ 0 ∉ s.conns ∧ 0 ∉ s.held) ∧
      ∃ s, Run pool.Step {} ((List.range (2 ^ 31)).flatMap acquire) s ∧ s.ops = [] ∧
        s.live.length = 2 ^ 31 ∧ s.total = -2 ^ 31 := by
  intro pool
  constructor
  · refine ⟨_, .cons rfl (.cons rfl (.cons rfl (.cons rfl (.nil _)))), ?_, ?_, ?_⟩
    · exact List.mem_singleton.mpr rfl
    · exact List.not_mem_nil
    · exact List.not_mem_nil
  · obtain ⟨s, hrun, hops, -, -, hlive⟩ := run_acquires pool (2 ^ 31)
    have htotal := (run_accounted hrun accounted_start).owned.total hops
    refine ⟨s, hrun, hops, hlive, ?_⟩
    rw [htotal, hlive, int32_wrap (by norm_num) (by norm_num)]
    norm_num

end Lyslg.Http.HttpConnectionPool
