import Lyslg.ByteArray.ZeroCopy
/-!
# Reads at a given position

Both `const` overloads take a position of their own, but measure what is left by
the distance from `m_position`, and take the block, or its size, from `m_cur`.
-/

namespace Lyslg.ByteArray

open Support.Memory Support.State

/-- Follow `next` from the head of the chain. -/
def nextLoop : List Block → Nat → Except Fault (List Block)
  | blocks, 0 => .ok blocks
  | [], _ + 1 => .error .nullBlock
  | _ :: next, count + 1 => nextLoop next count

/-- The size of the block `m_cur` points to. -/
def curSize : Call Nat := do
  let i ← derefCur
  let ba ← get
  match ba.root[i]? with
  | none => throw .nullBlock
  | some node => return node.length

/-- The loop of `getReadBuffers` when the room `ncap` in the first block is given. -/
def bufferLoopFrom (ncap : Nat) : List Block → Nat → Nat → Nat → Except Fault (List IoVec)
  | _, _, _, 0 => .ok []
  | [], _, _, _ + 1 => .error .nullBlock
  | _ :: next, i, npos, n + 1 =>
      let len := n + 1
      if len ≤ ncap then .ok [⟨i, npos, len⟩]
      else do
        let rest ← bufferLoop next (i + 1) 0 (len - ncap)
        return ⟨i, npos, ncap⟩ :: rest

/-- `ByteArray::getReadBuffers(buffers, len, position) const`. -/
def getReadBuffersAt (len position : Nat) : Call (Nat × List IoVec) := do
  let ba ← get
  let len := if ba.getReadSize < len then ba.getReadSize else len
  if len = 0 then
    return (0, [])
  let npos := position % ba.baseSize
  let count := position / ba.baseSize
  let blocks ← guarded (nextLoop ba.root count)
  let ncap := (← curSize) - npos
  let buffers ← guarded (bufferLoopFrom ncap blocks count npos len)
  return (len, buffers)

/-! ## What is promised -/

/-- `read(buf, size, position)` throws when the bytes behind `position` do not
suffice, gives them otherwise, and leaves the object alone. -/
def ReadsAt (ba : ByteArray) (size position : Nat) : Prop :=
  (ba.size - position < size →
    readAt size position ba = .error (.outOfRange "not enough len") ba) ∧
  (size ≤ ba.size - position →
    readAt size position ba = .ok (slice ba.memory position size) ba)

/-- `getReadBuffers(buffers, len, position)` hands out the bytes behind `position`
and leaves the object alone. -/
def BuffersAt (ba : ByteArray) (len position : Nat) : Prop :=
  ∃ vecs, getReadBuffersAt len position ba = .ok (min len (ba.size - position), vecs) ba ∧
    totalLen vecs = min len (ba.size - position) ∧
    gather ba.root vecs (totalLen vecs)
      = .ok (slice ba.memory position (min len (ba.size - position)))

/-- The byte of the cursor's block at the offset that `position` has in its own. -/
def cursorAddr (ba : ByteArray) (position : Nat) : Nat :=
  ba.position / ba.baseSize * ba.baseSize + position % ba.baseSize

/-- When `read` at a position does not show that it starts from the cursor. -/
def ReadsAtCursor (ba : ByteArray) (size position : Nat) : Prop :=
  (ba.getReadSize < size ∧ ba.size - position < size) ∨
  (size ≤ ba.getReadSize ∧ size ≤ ba.size - position ∧ ba.position < ba.capacity ∧
    slice ba.memory (ba.cursorAddr position) size = slice ba.memory position size)

/-! ## The loops -/

section Blocks

variable {b : Nat} {blocks : List Block}

theorem nextLoop_eq {count : Nat} (hcount : count ≤ blocks.length) :
    nextLoop blocks count = .ok (blocks.drop count) := by
  induction blocks generalizing count with
  | nil =>
      obtain rfl : count = 0 := by simpa using hcount
      rfl
  | cons node next ih =>
      cases count with
      | zero => rfl
      | succ count =>
          rw [nextLoop, List.drop_succ_cons]
          exact ih (Nat.le_of_succ_le_succ hcount)

theorem bufferLoopFrom_eq (hblocks : ∀ node ∈ blocks, node.length = b) (i npos len : Nat) :
    bufferLoopFrom (b - npos) blocks i npos len = bufferLoop blocks i npos len := by
  cases blocks with
  | nil => cases len <;> rfl
  | cons node next =>
      have hnode := hblocks node (by simp)
      cases len with
      | zero => rfl
      | succ n =>
          rw [bufferLoopFrom, bufferLoop, hnode]

/-- A read over the end of the chain comes to the null block. -/
theorem readLoop_overrun (hblocks : ∀ node ∈ blocks, node.length = b) {npos size : Nat}
    (hnpos : npos ≤ b) (hsize : 0 < size) (hover : blocks.length * b < npos + size) :
    readLoop blocks npos size = .error .nullBlock := by
  induction blocks generalizing npos size with
  | nil =>
      obtain ⟨n, rfl⟩ : ∃ n, size = n + 1 := ⟨size - 1, by omega⟩
      rw [readLoop]
  | cons node next ih =>
      have hnode := hblocks node (by simp)
      rw [List.length_cons, Nat.add_mul, Nat.one_mul] at hover
      obtain ⟨n, rfl⟩ : ∃ n, size = n + 1 := ⟨size - 1, by omega⟩
      have hloop := ih (fun n hn => hblocks n (by simp [hn])) (Nat.zero_le b)
        (by omega : 0 < n + 1 - (node.length - npos)) (by omega)
      rw [readLoop]
      simp only [if_neg (by omega : ¬ n + 1 ≤ node.length - npos),
        load_of_le (by omega : npos + (node.length - npos) ≤ node.length), ok_bind, hloop,
        error_bind]

end Blocks

/-! ## Reading at a position -/

section Calls

variable {ba : ByteArray}

theorem readAt_throws {size position : Nat} (hsize : ba.getReadSize < size) :
    readAt size position ba = .error (.outOfRange "not enough len") ba := by
  rw [readAt]
  simp only [get_bind, if_pos hsize, throw_bind]

theorem readAt_at_end (h : WellFormed ba) {size position : Nat} (hsize : size ≤ ba.getReadSize)
    (hend : ¬ ba.position < ba.capacity) : readAt size position ba = .error .nullBlock ba := by
  have hcur : ba.cur = none := by rw [h.cur_cases, if_neg hend]
  rw [readAt]
  simp only [get_bind, if_neg (Nat.not_lt.mpr hsize)]
  exact bind_error (by simp only [derefCur, hcur])

theorem room_from_block (h : WellFormed ba) {i npos size : Nat} :
    npos + size ≤ (ba.root.drop i).length * ba.baseSize ↔
      npos + size ≤ ba.capacity - i * ba.baseSize := by
  rw [List.length_drop, Nat.sub_mul, ← h.capacity_eq]

/-- Inside the chain the read starts in the cursor's block. -/
theorem readAt_inside (h : WellFormed ba) {size position : Nat} (hsize : size ≤ ba.getReadSize)
    (hlt : ba.position < ba.capacity)
    (hfit : ba.cursorAddr position + size ≤ ba.capacity ∨ size = 0) :
    readAt size position ba = .ok (slice ba.memory (ba.cursorAddr position) size) ba := by
  have hindex := h.index_lt hlt
  have hblock : ba.position / ba.baseSize * ba.baseSize ≤ ba.position := Nat.div_mul_le_self _ _
  have haddr : ba.cursorAddr position
      = ba.position / ba.baseSize * ba.baseSize + position % ba.baseSize := rfl
  have hloop := readLoop_spec h.base_pos
    (fun n (hn : n ∈ ba.root.drop (ba.position / ba.baseSize)) =>
      h.blocks n (List.mem_of_mem_drop hn))
    (Nat.mod_lt position h.base_pos) size
    (hfit.imp (fun hfit => (room_from_block h).mpr (by omega)) id)
  rw [slice_from_block h.blocks (by omega), ← haddr] at hloop
  rw [readAt]
  simp only [get_bind, if_neg (Nat.not_lt.mpr hsize)]
  rw [derefCur_bind (h.cur_some hlt), guarded_bind hloop]
  rfl

theorem readAt_outside (h : WellFormed ba) {size position : Nat} (hsize : size ≤ ba.getReadSize)
    (hlt : ba.position < ba.capacity) (hpos : 0 < size)
    (hover : ba.capacity < ba.cursorAddr position + size) :
    readAt size position ba = .error .nullBlock ba := by
  have hblock : ba.position / ba.baseSize * ba.baseSize ≤ ba.position := Nat.div_mul_le_self _ _
  have haddr : ba.cursorAddr position
      = ba.position / ba.baseSize * ba.baseSize + position % ba.baseSize := rfl
  have hloop := readLoop_overrun
    (fun n (hn : n ∈ ba.root.drop (ba.position / ba.baseSize)) =>
      h.blocks n (List.mem_of_mem_drop hn))
    (Nat.mod_lt position h.base_pos).le hpos
    (Nat.lt_of_not_le fun hle => by have := (room_from_block h).mp hle; omega)
  rw [readAt]
  simp only [get_bind, if_neg (Nat.not_lt.mpr hsize)]
  rw [derefCur_bind (h.cur_some hlt)]
  exact bind_error (by simp only [guarded, hloop])

theorem readsAt_iff (h : WellFormed ba) {size position : Nat} :
    ReadsAt ba size position ↔ ReadsAtCursor ba size position := by
  have hcap := h.size_le
  have hmem := h.memory_length
  constructor
  · rintro ⟨hshort, hlong⟩
    by_cases hsize : size ≤ ba.getReadSize
    · have hwant : size ≤ ba.size - position := by
        by_contra hlt
        by_cases hcur : ba.position < ba.capacity
        · by_cases hover : ba.capacity < ba.cursorAddr position + size
          · have hthrow := hshort (by omega)
            rw [readAt_outside h hsize hcur (by omega) hover] at hthrow
            cases hthrow
          · have hthrow := hshort (by omega)
            rw [readAt_inside h hsize hcur (Or.inl (by omega))] at hthrow
            cases hthrow
        · have hthrow := hshort (by omega)
          rw [readAt_at_end h hsize hcur] at hthrow
          cases hthrow
      have hok := hlong hwant
      have hcur : ba.position < ba.capacity := by
        by_contra hend
        rw [readAt_at_end h hsize hend] at hok
        cases hok
      refine Or.inr ⟨hsize, hwant, hcur, ?_⟩
      by_cases hover : 0 < size ∧ ba.capacity < ba.cursorAddr position + size
      · rw [readAt_outside h hsize hcur hover.1 hover.2] at hok
        cases hok
      · rw [readAt_inside h hsize hcur (by omega)] at hok
        exact (EStateM.Result.ok.inj hok).1
    · refine Or.inl ⟨by omega, ?_⟩
      by_contra hwant
      have hok := hlong (by omega)
      rw [readAt_throws (by omega)] at hok
      cases hok
  · rintro (⟨hsize, hwant⟩ | ⟨hsize, hwant, hcur, heq⟩)
    · exact ⟨fun _ => readAt_throws hsize, fun hle => absurd hle (by omega)⟩
    · refine ⟨fun hlt => absurd hlt (by omega), fun _ => ?_⟩
      have hfit : ba.cursorAddr position + size ≤ ba.capacity ∨ size = 0 := by
        by_cases hzero : size = 0
        · exact Or.inr hzero
        · -- the bytes asked for are all there, so those at the cursor are too
          have hlen := congrArg List.length heq
          rw [length_slice ba.memory position size (by omega), slice, List.length_take,
            List.length_drop] at hlen
          omega
      rw [readAt_inside h hsize hcur hfit, heq]

/-! ## Buffers at a position -/

theorem curSize_eq (h : WellFormed ba) (hlt : ba.position < ba.capacity) :
    curSize ba = .ok ba.baseSize ba := by
  have hindex := h.index_lt hlt
  have hnode := h.blocks _ (List.getElem_mem hindex)
  rw [curSize, derefCur_bind (h.cur_some hlt), get_bind, List.getElem?_eq_getElem hindex]
  simp only [pure_apply, hnode]

theorem bufferLoop_at (h : WellFormed ba) {n position : Nat} (hfit : position + n ≤ ba.capacity) :
    ∃ vecs, bufferLoop (ba.root.drop (position / ba.baseSize)) (position / ba.baseSize)
        (position % ba.baseSize) n = .ok vecs ∧
      Contiguous ba.baseSize position vecs ∧ totalLen vecs = n := by
  have hdm := Nat.div_add_mod' position ba.baseSize
  have hroom : position % ba.baseSize + n
      ≤ (ba.root.drop (position / ba.baseSize)).length * ba.baseSize :=
    (room_from_block h).mpr (by omega)
  have hspec := bufferLoop_spec (fun node hnode => h.blocks node (List.mem_of_mem_drop hnode))
    (position / ba.baseSize) (Nat.mod_lt position h.base_pos).le n (Or.inl hroom)
  rwa [hdm] at hspec

/-- When the cursor leaves as many bytes as `position`, the buffers are those of the
plain loop from `position` on. -/
theorem getReadBuffersAt_eq (h : WellFormed ba) {len position n : Nat}
    (havail : min len (ba.size - ba.position) = n) (hwant : min len (ba.size - position) = n) :
    ∃ vecs, bufferLoop (ba.root.drop (position / ba.baseSize)) (position / ba.baseSize)
        (position % ba.baseSize) n = .ok vecs ∧
      getReadBuffersAt len position ba = .ok (n, vecs) ba ∧
      totalLen vecs = n ∧ gather ba.root vecs (totalLen vecs) =
        .ok (slice ba.memory position n) := by
  have hcap := h.size_le
  have hread : ba.getReadSize = ba.size - ba.position := rfl
  have hclamp : (if ba.getReadSize < len then ba.getReadSize else len) = n := by
    split <;> omega
  rw [getReadBuffersAt, get_bind, hclamp]
  by_cases hzero : n = 0
  · subst hzero
    rw [slice_zero]
    exact ⟨[], by rw [bufferLoop], rfl, rfl, rfl⟩
  · obtain ⟨vecs, hloop, hcont, htotal⟩ :=
      bufferLoop_at h (by omega : position + n ≤ ba.capacity)
    have hindex : position / ba.baseSize ≤ ba.root.length := by
      apply Nat.div_le_of_le_mul
      rw [Nat.mul_comm, ← h.capacity_eq]
      omega
    have hfrom := bufferLoopFrom_eq
      (fun node (hnode : node ∈ ba.root.drop (position / ba.baseSize)) =>
        h.blocks node (List.mem_of_mem_drop hnode)) (position / ba.baseSize)
      (position % ba.baseSize) n
    refine ⟨vecs, hloop, ?_, htotal, ?_⟩
    · simp only [if_neg hzero]
      rw [guarded_bind (nextLoop_eq hindex), bind_ok (curSize_eq h (by omega)),
        guarded_bind (hfrom.trans hloop), pure_apply]
    · rw [htotal]
      exact gather_spec h.blocks hcont (by omega) (by rw [← h.capacity_eq]; omega)

/-- Whatever comes back was measured from the cursor. -/
theorem getReadBuffersAt_fst {ba' : ByteArray} {len position n : Nat} {vecs : List IoVec}
    (hrun : getReadBuffersAt len position ba = .ok (n, vecs) ba') :
    n = min len (ba.size - ba.position) := by
  have hread : ba.getReadSize = ba.size - ba.position := rfl
  have hclamp : (if ba.getReadSize < len then ba.getReadSize else len)
      = min len (ba.size - ba.position) := by
    split <;> omega
  rw [getReadBuffersAt, get_bind, hclamp] at hrun
  by_cases hzero : min len (ba.size - ba.position) = 0
  · simp only [if_pos hzero] at hrun
    rw [hzero]
    exact (congrArg Prod.fst (EStateM.Result.ok.inj hrun).1).symm
  · simp only [if_neg hzero] at hrun
    obtain ⟨_, _, _, hrun⟩ := bind_inv hrun
    obtain ⟨_, _, _, hrun⟩ := bind_inv hrun
    obtain ⟨_, _, _, hrun⟩ := bind_inv hrun
    exact (congrArg Prod.fst (EStateM.Result.ok.inj hrun).1).symm

theorem buffersAt_iff (h : WellFormed ba) {len position : Nat} :
    BuffersAt ba len position ↔
      min len (ba.size - ba.position) = min len (ba.size - position) := by
  constructor
  · rintro ⟨_, hrun, _, _⟩
    exact (getReadBuffersAt_fst hrun).symm
  · intro heq
    obtain ⟨vecs, _, hrun, htotal, hgather⟩ := getReadBuffersAt_eq h heq rfl
    exact ⟨vecs, hrun, htotal, hgather⟩

end Calls

/-- The value or the exception of a call, without the object. -/
def answer {α : Type} (x : Call α) (ba : ByteArray) : Except Fault α :=
  match x ba with
  | .ok a _ => .ok a
  | .error f _ => .error f

theorem ReadsAt.answer_eq {ba : ByteArray} {size position : Nat} (h : ReadsAt ba size position) :
    answer (readAt size position) ba =
      if size ≤ ba.size - position then .ok (slice ba.memory position size)
      else .error (.outOfRange "not enough len") := by
  by_cases hsize : size ≤ ba.size - position
  · rw [if_pos hsize, answer, h.2 hsize]
  · rw [if_neg hsize, answer, h.1 (by omega)]

/-- The positional calls do what their position says exactly when the cursor does not
show: the read when the cursor's block has the same bytes at the same offset, the
buffers when the cursor leaves as many bytes.  There the cursor makes no difference. -/
theorem positional_iff {base : Nat} (hbase : 1 ≤ base) {ba : ByteArray} (h : Lifetime base ba)
    (position : Nat) :
    (∀ size, ReadsAt ba size position ↔ ReadsAtCursor ba size position) ∧
    (∀ len, BuffersAt ba len position ↔
      min len (ba.size - ba.position) = min len (ba.size - position)) ∧
    ∀ p, p ≤ ba.size →
      (∀ size, ReadsAtCursor ba size position → ReadsAtCursor (movedTo ba p) size position →
        answer (readAt size position) (movedTo ba p) = answer (readAt size position) ba) ∧
      ∀ len, min len (ba.size - ba.position) = min len (ba.size - position) →
        min len (ba.size - p) = min len (ba.size - position) →
        answer (getReadBuffersAt len position) (movedTo ba p)
          = answer (getReadBuffersAt len position) ba := by
  obtain ⟨hwf, _⟩ := h.wellFormed hbase
  refine ⟨fun _ => readsAt_iff hwf, fun _ => buffersAt_iff hwf, fun p hp => ?_⟩
  have hsize : (movedTo ba p).size = ba.size := Nat.max_eq_left hp
  have hmoved := moved_movedTo hwf (hp.trans hwf.size_le)
  constructor
  · intro size hhere hthere
    rw [((readsAt_iff hwf).mpr hhere).answer_eq,
      ((readsAt_iff hmoved.wellFormed).mpr hthere).answer_eq, hsize, hmoved.memory_eq]
  · intro len hhere hthere
    obtain ⟨vecs, hloop, hrun, _⟩ := getReadBuffersAt_eq hwf hhere rfl
    obtain ⟨vecs', hloop', hrun', _⟩ := getReadBuffersAt_eq hmoved.wellFormed
      (n := min len (ba.size - position)) (by rw [hsize]; exact hthere) (by rw [hsize])
    have hsame : vecs = vecs' := Except.ok.inj (hloop.symm.trans hloop')
    rw [answer, answer, hrun, hrun', hsame]

/-- Four bytes in two blocks of two, the cursor at the start of the second one. -/
def secondBlock : ByteArray :=
  { new (fun _ _ => 0) 2 with
    root := [[1, 2], [3, 4]], position := 2, size := 4, capacity := 4, cur := some 1 }

theorem lifetime_secondBlock : Lifetime 2 secondBlock :=
  .returns (.setPosition 2)
  (.returns (.write (fun _ _ => 0) [1, 2, 3, 4]) (.new fun _ _ => 0) rfl) rfl

/-- From there, two bytes at position `0` are those at the cursor, and the buffers of
four bytes at position `0` come to two only. -/
theorem positional_follows_cursor :
    ¬ ∀ ba, Lifetime 2 ba → ∀ position, position ≤ ba.size →
      (∀ size, ReadsAt ba size position) ∧ ∀ len, BuffersAt ba len position := by
  intro hall
  obtain ⟨_, hok⟩ := (hall secondBlock lifetime_secondBlock 0 (by decide)).1 2
  have hrun : readAt 2 0 secondBlock = .ok [3, 4] secondBlock := rfl
  rw [hrun] at hok
  exact absurd (EStateM.Result.ok.inj (hok (by decide))).1 (by decide)

/-- Within the cursor's block the read is right. -/
theorem positional_iff_same_block : ReadsAt secondBlock 1 3 ∧ ¬ BuffersAt secondBlock 4 0 := by
  have hthree := positional_iff (by decide : 1 ≤ 2) lifetime_secondBlock 3
  have hzero := positional_iff (by decide : 1 ≤ 2) lifetime_secondBlock 0
  refine ⟨(hthree.1 1).mpr (by unfold ReadsAtCursor; decide), fun hbuffers => ?_⟩
  exact absurd ((hzero.2.1 4).mp hbuffers) (by decide)

end Lyslg.ByteArray
