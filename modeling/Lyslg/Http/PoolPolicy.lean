import Lyslg.Http.PoolOwnership
import Mathlib.Data.List.TakeWhile
/-!
# Reuse and size of the connection pool

What the pool keeps and hands out against the limits it was given.  `m_createTime` is always
0, `GetCurrentMS` starts again every 65536 milliseconds and both comparisons with
`m_maxAliveTime` are the wrong way round, so the age of a connection plays no part.
`m_maxSize` is not looked at, so the size holds only when the callers see to it.
-/

namespace Lyslg.Http.HttpConnectionPool

open Support Support.Machine

variable {pool : HttpConnectionPool} {s t : State} {e : Event} {es : List Event}

/-! ## Reuse -/

/-- The connection is connected and younger than `m_maxAliveTime`. -/
def isFit (pool : HttpConnectionPool) (s : State) (now conn : Nat) : Bool :=
  (s.attr conn).connected && now < s.born conn + pool.maxAliveTime.toNat

/-- `getConnection` takes the first idle connection that is fit and throws away those before
it; `ReleasePtr` puts a connection back if and only if it is fit and has served fewer than
`m_maxRequest` requests. -/
def Reuses (pool : HttpConnectionPool) (s : State) : Event → Prop
  | .part k opens =>
      match s.ops[k]? with
      | some (.lock now) =>
          (pool.part s opens (.lock now)).2 =
            some (.delete (s.conns.takeWhile fun conn => !pool.isFit s now conn) 0
              (s.conns.find? (pool.isFit s now)))
      | some (.release conn) =>
          (pool.part s opens (.release conn)).2 = some (.keep conn) ↔
            pool.isFit s s.clock conn = true ∧
              (s.attr conn).request + 1 < pool.maxRequest.toNat
      | _ => True
  | _ => True

/-- Where what `GetCurrentMS` returns has passed `m_maxAliveTime`, the connection in question is
younger, and elsewhere none is. -/
def Timely (pool : HttpConnectionPool) (s : State) : Event → Prop
  | .part k _ =>
      match s.ops[k]? with
      | some (.lock now) =>
          if pool.maxAliveTime.toNat ≤ getCurrentMS now then
            ∀ conn, (s.conns.find? fun conn => (s.attr conn).connected) = some conn →
              now < s.born conn + pool.maxAliveTime.toNat
          else
            ∀ conn ∈ s.conns, (s.attr conn).connected = true →
              s.born conn + pool.maxAliveTime.toNat ≤ now
      | some (.release conn) =>
          (s.attr conn).connected = true → (s.attr conn).request + 1 < pool.maxRequest.toNat →
            (pool.maxAliveTime.toNat < getCurrentMS s.clock ↔
              s.clock < s.born conn + pool.maxAliveTime.toNat)
      | _ => True
  | _ => True

/-- Two ways to throw connections away come to the same if they agree on the first connection
that one of them keeps. -/
theorem popConns_agree_iff (invalid unfit : Nat → Bool) (conns : List Nat) :
    ((popConns invalid conns).1 = conns.takeWhile unfit ∧
        (popConns invalid conns).2.1 = conns.find? fun conn => !unfit conn) ↔
      ∀ conn, (conns.find? fun conn => !invalid conn || !unfit conn) = some conn →
        invalid conn = false ∧ unfit conn = false := by
  induction conns with
  | nil => simp [popConns]
  | cons conn conns ih =>
      rw [popConns, List.takeWhile_cons, List.find?_cons, List.find?_cons]
      cases hinvalid : invalid conn with
      | true =>
          cases hunfit : unfit conn with
          | true => simpa using ih
          | false =>
              refine iff_of_false ?_ ?_
              · simp
              · intro h
                exact Bool.noConfusion (hinvalid.symm.trans (h conn rfl).1)
      | false =>
          cases hunfit : unfit conn with
          | true =>
              refine iff_of_false ?_ ?_
              · simp
              · intro h
                exact Bool.noConfusion (hunfit.symm.trans (h conn rfl).2)
          | false => simp [hinvalid, hunfit]

/-- Nothing sets a creation time, and a connection that exists has served few requests. -/
structure Untouched (s : State) : Prop where
  accounted : Accounted s
  createTime : ∀ conn, (s.attr conn).createTime = 0
  request_lt : ∀ conn ∈ s.live, (s.attr conn).request < 2 ^ 32

theorem untouched_start : Untouched {} := ⟨accounted_start, fun _ => rfl, by simp⟩

namespace Untouched

theorem isInvalid_iff (h : Untouched s) (nowMs conn : Nat) :
    pool.isInvalid nowMs (s.attr conn) = false ↔
      (s.attr conn).connected = true ∧ pool.maxAliveTime.toNat ≤ nowMs := by
  have hlt := pool.maxAliveTime.toNat_lt
  unfold isInvalid
  rw [h.createTime, addSize_of_lt (by omega), Bool.or_eq_false_iff, Bool.not_eq_false',
    decide_eq_false_iff_not, Nat.zero_add, Nat.not_lt]

theorem reuses_lock_iff (h : Untouched s) (now : Nat) (opens : Bool) :
    (pool.part s opens (.lock now)).2 =
        some (.delete (s.conns.takeWhile fun conn => !pool.isFit s now conn) 0
          (s.conns.find? (pool.isFit s now))) ↔
      if pool.maxAliveTime.toNat ≤ getCurrentMS now then
        ∀ conn, (s.conns.find? fun conn => (s.attr conn).connected) = some conn →
          now < s.born conn + pool.maxAliveTime.toNat
      else
        ∀ conn ∈ s.conns, (s.attr conn).connected = true →
          s.born conn + pool.maxAliveTime.toNat ≤ now := by
  have hagree := popConns_agree_iff (fun conn => pool.isInvalid (getCurrentMS now) (s.attr conn))
    (fun conn => !pool.isFit s now conn) s.conns
  simp only [Bool.not_not] at hagree
  change some (Op.delete _ _ _) = some (Op.delete _ _ _) ↔ _
  rw [Option.some_inj, Op.delete.injEq, eq_self_iff_true, true_and, hagree]
  by_cases hpassed : pool.maxAliveTime.toNat ≤ getCurrentMS now
  · -- the code keeps every connection that is connected, and those that are fit are
    have hkeeps (conn : Nat) :
        pool.isInvalid (getCurrentMS now) (s.attr conn) = !(s.attr conn).connected := by
      rw [Bool.eq_iff_iff, ← not_iff_not, Bool.not_eq_true, Bool.not_eq_true, h.isInvalid_iff,
        and_iff_left hpassed, Bool.not_eq_false']
    have hfirst : (fun conn => !pool.isInvalid (getCurrentMS now) (s.attr conn)
        || pool.isFit s now conn) = fun conn => (s.attr conn).connected := by
      funext conn
      rw [hkeeps, Bool.not_not, isFit]
      cases (s.attr conn).connected <;> rfl
    rw [if_pos hpassed, hfirst]
    refine forall₂_congr fun conn hconn => ?_
    have hconnected := List.find?_some hconn
    rw [hkeeps, hconnected, isFit, hconnected, Bool.true_and]
    simp
  · -- the code throws every connection away
    have hthrows (conn : Nat) : pool.isInvalid (getCurrentMS now) (s.attr conn) = true := by
      rw [← Bool.not_eq_false, h.isInvalid_iff]
      exact fun hkeep => hpassed hkeep.2
    rw [if_neg hpassed]
    simp only [hthrows, Bool.not_true, Bool.false_or, Bool.true_eq_false, false_and]
    constructor
    · intro hnone conn hmem hconnected
      by_contra hyoung
      have hfit : pool.isFit s now conn = true := by
        rw [isFit, hconnected, Bool.true_and, decide_eq_true_eq]
        exact Nat.lt_of_not_le hyoung
      have hsome := List.find?_isSome.mpr ⟨conn, hmem, hfit⟩
      obtain ⟨first, hfirst⟩ := Option.isSome_iff_exists.mp hsome
      exact hnone first hfirst
    · intro hold conn hconn
      have hfit := List.find?_some hconn
      rw [isFit, Bool.and_eq_true, decide_eq_true_eq] at hfit
      exact absurd (hold conn (List.mem_of_find?_eq_some hconn) hfit.1) (Nat.not_le_of_lt hfit.2)

theorem reuses_release_iff {conn : Nat} (h : Untouched s) (hlive : conn ∈ s.live) (opens : Bool) :
    ((pool.part s opens (.release conn)).2 = some (.keep conn) ↔
        pool.isFit s s.clock conn = true ∧ (s.attr conn).request + 1 < pool.maxRequest.toNat) ↔
      ((s.attr conn).connected = true → (s.attr conn).request + 1 < pool.maxRequest.toNat →
        (pool.maxAliveTime.toNat < getCurrentMS s.clock ↔
          s.clock < s.born conn + pool.maxAliveTime.toNat)) := by
  have hlt := pool.maxAliveTime.toNat_lt
  have hrequest := h.request_lt conn hlive
  have hkeep : (pool.part s opens (.release conn)).2 = some (.keep conn) ↔
      (s.attr conn).connected = true ∧ pool.maxAliveTime.toNat < getCurrentMS s.clock ∧
        (s.attr conn).request + 1 < pool.maxRequest.toNat := by
    rw [part_release hlive]
    simp only [isWornOut, h.createTime, Nat.zero_add,
      addSize_of_lt (show 0 + pool.maxAliveTime.toNat < 2 ^ 64 by omega),
      addSize_of_lt (show (s.attr conn).request + 1 < 2 ^ 64 by omega)]
    split
    · rename_i hworn
      refine iff_of_false (by simp) ?_
      intro hall
      simp only [Bool.or_eq_true, Bool.not_eq_true', decide_eq_true_eq] at hworn
      rcases hworn with (hoff | hold) | hserved
      · exact Bool.noConfusion (hoff.symm.trans hall.1)
      · omega
      · omega
    · rename_i hworn
      refine iff_of_true rfl ?_
      simp only [Bool.or_eq_true, Bool.not_eq_true', decide_eq_true_eq, not_or,
        Bool.not_eq_false, Nat.not_le] at hworn
      exact ⟨hworn.1.1, hworn.1.2, hworn.2⟩
  unfold isFit
  rw [hkeep, Bool.and_eq_true, decide_eq_true_eq]
  tauto

theorem reuses_iff (h : Untouched s) : Reuses pool s e ↔ Timely pool s e := by
  cases e with
  | part k opens =>
      unfold Reuses Timely
      dsimp only
      cases hop : s.ops[k]? with
      | none => exact Iff.rfl
      | some op =>
          cases op with
          | lock now => exact h.reuses_lock_iff now opens
          | release conn =>
              exact h.reuses_release_iff
                (h.accounted.live_of_op (List.mem_of_getElem? hop) (List.mem_singleton.mpr rfl))
                opens
          | _ => exact Iff.rfl
  | _ => exact Iff.rfl

theorem attr_release (s : State) (opens : Bool) (conn : Nat) :
    (pool.part s opens (.release conn)).1.attr = Function.update s.attr conn
      { s.attr conn with request := addSize (s.attr conn).request 1 } := by
  unfold HttpConnectionPool.part
  dsimp only
  split <;> rfl

/-- A connection that is still there after `ReleasePtr` has decided may serve again. -/
theorem request_lt_of_kept {conn : Nat} (h : Untouched s) (hlive : conn ∈ s.live) {opens : Bool}
    (hkept : conn ∈ (pool.part s opens (.release conn)).1.live) :
    addSize (s.attr conn).request 1 < pool.maxRequest.toNat := by
  rw [part_release hlive] at hkept
  by_contra hserved
  have hworn : pool.isWornOut (getCurrentMS s.clock)
      { s.attr conn with request := addSize (s.attr conn).request 1 } = true := by
    unfold isWornOut
    rw [Bool.or_eq_true, decide_eq_true_eq]
    exact Or.inr (Nat.le_of_not_lt hserved)
  dsimp only at hkept
  rw [if_pos hworn] at hkept
  exact h.accounted.once.not_mem_erase hkept

theorem part (h : Untouched s) {op : Op} (hop : op ∈ s.ops) (opens : Bool) :
    (∀ conn, ((pool.part s opens op).1.attr conn).createTime = 0) ∧
      ∀ conn ∈ (pool.part s opens op).1.live,
        ((pool.part s opens op).1.attr conn).request < 2 ^ 32 := by
  have hlive := (@part_moves pool _ _ h.accounted hop opens).live
  have hsame : op ≠ .connect → (pool.part s opens op).1.attr = s.attr →
      (∀ conn, ((pool.part s opens op).1.attr conn).createTime = 0) ∧
        ∀ conn ∈ (pool.part s opens op).1.live,
          ((pool.part s opens op).1.attr conn).request < 2 ^ 32 := by
    intro hne hattr
    rw [hattr]
    refine ⟨h.createTime, ?_⟩
    intro conn hmem
    rcases hlive conn hmem with hold | hnew
    · exact h.request_lt conn hold
    · exact absurd hnew.1 hne
  cases op with
  | lock now => exact hsame (by simp) rfl
  | delete invalid deleted ptr => cases invalid <;> exact hsame (by simp) rfl
  | connect =>
      cases opens with
      | false => exact ⟨h.createTime, h.request_lt⟩
      | true =>
          refine ⟨?_, ?_⟩
          · intro conn
            change (Function.update s.attr s.next {} conn).createTime = 0
            rw [Function.update_apply]
            split
            · rfl
            · exact h.createTime conn
          · intro conn hmem
            change (Function.update s.attr s.next {} conn).request < 2 ^ 32
            rw [Function.update_apply]
            split
            · norm_num
            · rename_i hne
              exact h.request_lt conn ((List.mem_cons.mp hmem).resolve_left hne)
  | count ptr => exact hsame (by simp) rfl
  | handOut ptr => exact hsame (by simp) rfl
  | uncount => exact hsame (by simp) rfl
  | keep ptr => exact hsame (by simp) rfl
  | release ptr =>
      have hptr : ptr ∈ s.live := h.accounted.live_of_op hop (List.mem_singleton.mpr rfl)
      have hrequests := pool.maxRequest.toNat_lt
      rw [attr_release]
      refine ⟨?_, ?_⟩
      · intro conn
        rw [Function.update_apply]
        split
        · exact h.createTime ptr
        · exact h.createTime conn
      · intro conn hmem
        rw [Function.update_apply]
        split
        · rename_i heq
          subst heq
          exact (h.request_lt_of_kept hptr hmem).trans hrequests
        · rcases hlive conn hmem with hold | hnew
          · exact h.request_lt conn hold
          · cases hnew.1

theorem step (h : Untouched s) (hstep : pool.Step s e t) : Untouched t := by
  obtain ⟨haccounted, -, hlive⟩ := step_accounted h.accounted hstep
  cases e with
  | tick now =>
      obtain ⟨-, rfl⟩ := Option.ite_some_none_eq_some.mp hstep
      exact ⟨haccounted, h.createTime, h.request_lt⟩
  | disconnect conn =>
      obtain rfl := Option.some.inj hstep
      refine ⟨haccounted, ?_, ?_⟩
      · intro conn'
        dsimp only
        rw [Function.update_apply]
        split
        · exact h.createTime conn
        · exact h.createTime conn'
      · intro conn' hmem
        dsimp only
        rw [Function.update_apply]
        split
        · rename_i heq
          subst heq
          exact h.request_lt conn' hmem
        · exact h.request_lt conn' hmem
  | getConnection =>
      obtain rfl := Option.some.inj hstep
      exact ⟨haccounted, h.createTime, h.request_lt⟩
  | release conn =>
      obtain ⟨-, rfl⟩ := Option.ite_some_none_eq_some.mp hstep
      exact ⟨haccounted, h.createTime, h.request_lt⟩
  | part k opens =>
      obtain ⟨op, hk, hpart⟩ := Option.bind_eq_some_iff.mp hstep
      obtain rfl := Option.some.inj hpart
      have hop := List.mem_of_getElem? hk
      obtain ⟨hcreate, hrequest⟩ := h.part hop opens
      exact ⟨haccounted, hcreate, hrequest⟩

end Untouched

/-- Connections are reused as the limits say exactly when at every call the truncated clock has
passed `m_maxAliveTime` and the connection in question has not reached it, or the other way
round. -/
theorem pool_reuse_policy :
    Run (Run.Guarded pool.Step (Reuses pool)) {} es s ↔
      Run (Run.Guarded pool.Step (Timely pool)) {} es s := by
  refine Run.guarded_congr (I := Untouched) ?_ untouched_start
  intro s e t hs hstep
  exact ⟨hs.step hstep, hs.reuses_iff⟩

/-- A connection that is 40 seconds old is put back although it may live for 30. -/
theorem pool_keeps_old :
    let pool : HttpConnectionPool := ⟨10, 30000, 5⟩
    ∃ s, Run pool.Step {} [.tick 1000000, .getConnection, .part 0 true, .part 0 true, .part 0 true,
        .part 0 true, .part 0 true, .tick 1040000, .release 0] s ∧
      ¬ Reuses pool s (.part 0 true) := by
  intro pool
  refine ⟨_, Run.of_steps rfl, ?_⟩
  intro h
  have hfit := (h.mp rfl).1
  exact absurd hfit (by decide)

/-! ## Size -/

/-- There are `m_maxSize` connections at most, and `m_total` says no more. -/
def WithinMax (pool : HttpConnectionPool) (s : State) : Prop :=
  s.live.length ≤ pool.maxSize.toNat ∧ s.total ≤ pool.maxSize.toNat

/-- The call is one of `ReleasePtr`. -/
def Op.releases : Op → Bool
  | .release _ | .uncount | .keep _ => true
  | .lock _ | .delete _ _ _ | .connect | .count _ | .handOut _ => false

/-- `getConnection` is called while no other call of it is under way, and while fewer than
`m_maxSize` connections are with a holder or with a call of `ReleasePtr`. -/
def Room (pool : HttpConnectionPool) (s : State) : Event → Prop
  | .getConnection =>
      (∀ op ∈ s.ops, op.releases = true) ∧
        s.held.length + s.ops.length < pool.maxSize.toNat
  | _ => True

instance (pool : HttpConnectionPool) (s : State) : (e : Event) → Decidable (Room pool s e)
  | .getConnection => inferInstanceAs (Decidable (_ ∧ _))
  | .tick _ | .disconnect _ | .release _ | .part _ _ => .isTrue trivial

/-! ### How far the calls under way can take the pool -/

/-- The connections that a call has, counts or will have. -/
def Op.share : Op → Nat
  | .lock _ => 0
  | .delete invalid deleted ptr => max (invalid.length + deleted + ptr.toList.length) 1
  | _ => 1

/-- One for a call of `getConnection` before its locked section. -/
def Op.locking : Op → Nat
  | .lock _ => 1
  | _ => 0

/-- The connections that there can be without another call of `getConnection`: of the calls that
have yet to lock, the first one takes from `m_conns` what it finds there. -/
def State.reach (s : State) : Nat :=
  s.held.length + (s.ops.map Op.share).sum
    + max (s.conns.length + ((s.ops.map Op.locking).sum - 1)) (s.ops.map Op.locking).sum

/-- What `m_total` stands for. -/
def State.counted (s : State) : Int := s.live.length + (s.ops.map Op.owed).sum

/-- Every connection is in a place, so there are as many places as connections. -/
theorem Accounted.perm (h : Accounted s) :
    (s.conns ++ s.held ++ s.ops.flatMap Op.ptrs).Perm s.live := by
  rw [List.perm_iff_count]
  intro conn
  rw [List.count_append, List.count_append, List.count_flatMap]
  exact h.places conn

/-- What a call has, with what it owes the counter, is within its share. -/
theorem ptrs_le_share (op : Op) :
    op.ptrs.length ≤ op.share ∧ (op.ptrs.length : Int) + op.owed ≤ op.share ∧
      0 ≤ (op.ptrs.length : Int) + op.owed := by
  cases op with
  | delete invalid deleted ptr =>
      simp only [Op.ptrs, Op.owed, Op.share, List.length_append]
      omega
  | _ => simp [Op.ptrs, Op.owed, Op.share]

theorem sum_ptrs_le_share (ops : List Op) :
    (ops.flatMap Op.ptrs).length ≤ (ops.map Op.share).sum ∧
      ((ops.flatMap Op.ptrs).length : Int) + (ops.map Op.owed).sum ≤ (ops.map Op.share).sum ∧
      0 ≤ ((ops.flatMap Op.ptrs).length : Int) + (ops.map Op.owed).sum := by
  induction ops with
  | nil => simp
  | cons op ops ih =>
      have hop := ptrs_le_share op
      simp only [List.flatMap_cons, List.length_append, List.map_cons, List.sum_cons]
      omega

theorem Accounted.le_reach (h : Accounted s) :
    s.live.length ≤ s.reach ∧ s.counted ≤ s.reach ∧ 0 ≤ s.counted := by
  have hlen := h.perm.length_eq
  have hshare := sum_ptrs_le_share s.ops
  rw [List.length_append, List.length_append] at hlen
  unfold State.counted State.reach
  omega

theorem length_popConns (invalid : Nat → Bool) (conns : List Nat) :
    (popConns invalid conns).1.length + (popConns invalid conns).2.1.toList.length
        + (popConns invalid conns).2.2.length = conns.length ∧
      ((popConns invalid conns).2.1 = none → (popConns invalid conns).2.2 = []) := by
  rw [popConns_eq]
  have hcut := congrArg List.length (@List.takeWhile_append_dropWhile _ invalid conns)
  rw [List.length_append] at hcut
  cases hrest : conns.dropWhile invalid with
  | nil =>
      rw [hrest] at hcut
      exact ⟨hcut, fun _ => rfl⟩
  | cons conn rest =>
      rw [hrest, List.length_cons] at hcut
      refine ⟨?_, fun hnone => absurd hnone (by simp)⟩
      simp only [List.head?_cons, Option.toList_some, List.length_singleton, List.tail_cons]
      omega

/-- The calls under way cannot take the pool further. -/
theorem reach_part_le {op : Op} {k : Nat} (hk : s.ops[k]? = some op) (opens : Bool) :
    ({ (pool.part s opens op).1 with
        ops := replaceAt s.ops k (pool.part s opens op).2 } : State).reach ≤ s.reach := by
  have hshare := sum_map_replaceAt hk (pool.part s opens op).2 Op.share
  have hlocking := sum_map_replaceAt hk (pool.part s opens op).2 Op.locking
  unfold State.reach
  dsimp only
  cases op with
  | lock now =>
      let popped := popConns (fun conn => pool.isInvalid (getCurrentMS now) (s.attr conn)) s.conns
      have hlength : popped.1.length + popped.2.1.toList.length + popped.2.2.length =
          s.conns.length ∧ (popped.2.1 = none → popped.2.2 = []) := length_popConns _ _
      have hconns : (pool.part s opens (.lock now)).1.conns = popped.2.2 := rfl
      have hheld : (pool.part s opens (.lock now)).1.held = s.held := rfl
      have hnext : (pool.part s opens (.lock now)).2.toList = [.delete popped.1 0 popped.2.1] := rfl
      rw [hnext] at hshare hlocking
      rw [hconns, hheld]
      simp only [List.map_cons, List.map_nil, List.sum_cons, List.sum_nil, Op.share,
        Op.locking] at hshare hlocking
      cases hptr : popped.2.1 with
      | none =>
          have hrest : popped.2.2.length = 0 := congrArg List.length (hlength.2 hptr)
          rw [hptr] at hshare hlength
          simp only [Option.toList_none, List.length_nil] at hshare hlength
          omega
      | some ptr =>
          rw [hptr] at hshare hlength
          simp only [Option.toList_some, List.length_singleton] at hshare hlength
          omega
  | delete invalid deleted ptr =>
      cases invalid with
      | nil =>
          cases ptr <;>
            simp only [part, Option.toList_some, Option.toList_none, List.map_cons, List.map_nil,
              List.sum_cons, List.sum_nil, Op.share, Op.locking, List.length_singleton,
              List.length_nil] at hshare hlocking ⊢ <;>
            omega
      | cons conn invalid =>
          simp only [part, Option.toList_some, List.map_cons, List.map_nil, List.sum_cons,
            List.sum_nil, Op.share, Op.locking, List.length_cons] at hshare hlocking ⊢
          simp only [State.delete, State.touch]
          omega
  | connect =>
      cases opens <;>
        simp only [part, State.create, Bool.false_eq_true, if_true, if_false, Option.toList_some,
          Option.toList_none, List.map_cons, List.map_nil, List.sum_cons, List.sum_nil, Op.share,
          Op.locking] at hshare hlocking ⊢ <;>
        omega
  | release conn =>
      have hsame : (pool.part s opens (.release conn)).1.conns = s.conns ∧
          (pool.part s opens (.release conn)).1.held = s.held := by
        unfold part
        dsimp only
        split <;> exact ⟨rfl, rfl⟩
      have hnext : ((pool.part s opens (.release conn)).2.toList.map Op.share).sum = 1 ∧
          ((pool.part s opens (.release conn)).2.toList.map Op.locking).sum = 0 := by
        unfold part
        dsimp only
        split <;> exact ⟨rfl, rfl⟩
      rw [hsame.1, hsame.2]
      rw [hnext.1] at hshare
      rw [hnext.2] at hlocking
      simp only [Op.share, Op.locking] at hshare hlocking
      omega
  | _ =>
      simp only [part, Option.toList_some, Option.toList_none, List.map_cons, List.map_nil,
        List.sum_cons, List.sum_nil, Op.share, Op.locking, List.length_cons, List.length_append,
        List.length_nil] at hshare hlocking ⊢
      omega

/-- The calls under way fit the pool. -/
structure Bounded (pool : HttpConnectionPool) (s : State) : Prop where
  accounted : Accounted s
  reach_le : s.reach ≤ pool.maxSize.toNat

theorem bounded_start (pool : HttpConnectionPool) : Bounded pool {} :=
  ⟨accounted_start, Nat.zero_le _⟩

theorem Bounded.withinMax (h : Bounded pool s) : WithinMax pool s := by
  obtain ⟨hlive, hcounted, hnonneg⟩ := h.accounted.le_reach
  have hreach := h.reach_le
  refine ⟨hlive.trans hreach, ?_⟩
  have htotal : s.total = int32 s.counted := h.accounted.total
  have hle := int32_le_natCast s.counted.toNat
  rw [Int.toNat_of_nonneg hnonneg] at hle
  omega

/-- While only `ReleasePtr` is under way, every call has one connection, or did not lower the
counter for it yet. -/
theorem sum_releases {ops : List Op} (h : ∀ op ∈ ops, op.releases = true) :
    (ops.map Op.share).sum = ops.length ∧ (ops.map Op.locking).sum = 0 := by
  induction ops with
  | nil => exact ⟨rfl, rfl⟩
  | cons op ops ih =>
      obtain ⟨hop, hops⟩ := List.forall_mem_cons.mp h
      obtain ⟨hshare, hlocking⟩ := ih hops
      rw [List.map_cons, List.sum_cons, List.map_cons, List.sum_cons, hshare, hlocking,
        List.length_cons, Nat.add_comm ops.length]
      cases op with
      | release conn => exact ⟨rfl, rfl⟩
      | uncount => exact ⟨rfl, rfl⟩
      | keep conn => exact ⟨rfl, rfl⟩
      | _ => cases hop

theorem Bounded.step (h : Bounded pool s) (hroom : Room pool s e) (hstep : pool.Step s e t) :
    Bounded pool t := by
  refine ⟨(step_accounted h.accounted hstep).1, ?_⟩
  have hreach := h.reach_le
  cases e with
  | tick now =>
      obtain ⟨-, rfl⟩ := Option.ite_some_none_eq_some.mp hstep
      exact hreach
  | disconnect conn =>
      obtain rfl := Option.some.inj hstep
      exact hreach
  | getConnection =>
      obtain rfl := Option.some.inj hstep
      obtain ⟨hreleases, hfew⟩ := hroom
      have hsums := sum_releases hreleases
      have hshare := sum_map_concat s.ops (.lock s.clock) Op.share
      have hlocking := sum_map_concat s.ops (.lock s.clock) Op.locking
      unfold State.reach at hreach ⊢
      simp only [Op.share, Op.locking] at hshare hlocking
      dsimp only
      omega
  | release conn =>
      obtain ⟨hheld, rfl⟩ := Option.ite_some_none_eq_some.mp hstep
      have hshare := sum_map_concat s.ops (.release conn) Op.share
      have hlocking := sum_map_concat s.ops (.release conn) Op.locking
      have hpos := List.length_pos_of_mem hheld
      have herase := List.length_erase_of_mem hheld
      unfold State.reach at hreach ⊢
      simp only [Op.share, Op.locking] at hshare hlocking
      dsimp only
      omega
  | part k opens =>
      obtain ⟨op, hk, hpart⟩ := Option.bind_eq_some_iff.mp hstep
      obtain rfl := Option.some.inj hpart
      exact (reach_part_le hk opens).trans hreach

/-- The size of the pool stays within `m_maxSize` as long as the calls of `getConnection` do not
overlap, and each begins while there is room for one connection more beside those that are handed
out or being released. -/
theorem pool_within_max_size (h : Run (Run.Guarded pool.Step (Room pool)) {} es s) :
    Run (Run.Ensuring pool.Step (WithinMax pool)) {} es s := by
  refine Run.ensuring_of_guarded (I := Bounded pool) ?_ h (bounded_start pool)
  intro s e t hs hroom hstep
  have ht := hs.step hroom hstep
  exact ⟨ht, ht.withinMax⟩

/-- A connection is handed out, released and handed out again. -/
def releaseAndReuse : List Event :=
  [.tick 40000, .getConnection] ++ List.replicate 5 (.part 0 true) ++ [.release 0] ++
    List.replicate 2 (.part 0 true) ++ [.getConnection] ++ List.replicate 3 (.part 0 true)

theorem pool_within_max_size_reuse :
    let pool : HttpConnectionPool := ⟨1, 30000, 5⟩
    ∃ s, Run (Run.Ensuring pool.Step (WithinMax pool)) {} releaseAndReuse s ∧
      s.held = [0] ∧ s.live = [0] := by
  intro pool
  have hexec : ((releaseAndReuse.foldlM (fun s e =>
      if decide (Room pool s e) then pool.step s e else none) {}).any fun s =>
        s.held = [0] ∧ s.live = [0]) = true := by
    decide
  obtain ⟨s, hs, hends⟩ := (Option.any_eq_true _ _).mp hexec
  obtain ⟨hheld, hlive⟩ := of_decide_eq_true hends
  have hrun := Run.guarded_of_foldlM (fun _ _ _ h => h)
    (fun _ _ _ _ => of_decide_eq_true) (.nil _) hs
  exact ⟨s, pool_within_max_size hrun, hheld, hlive⟩

/-- Two calls that overlap open two connections for a pool of one. -/
theorem pool_exceeds_max_size :
    let pool : HttpConnectionPool := ⟨1, 30000, 5⟩
    ∃ s, Run pool.Step {} [.getConnection, .getConnection, .part 0 true, .part 0 true, .part 0 true,
        .part 0 true, .part 0 true, .part 0 true, .part 0 true, .part 0 true, .part 0 true,
        .part 0 true] s ∧
      s.held.length = 2 ∧ s.ops = [] ∧ s.total = 2 ∧ ¬ WithinMax pool s := by
  intro pool
  refine ⟨_, Run.of_steps rfl, rfl, rfl, by decide +kernel, ?_⟩
  intro h
  exact absurd h.1 (by decide)

end Lyslg.Http.HttpConnectionPool
