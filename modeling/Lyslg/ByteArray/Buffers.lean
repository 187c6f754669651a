import Lyslg.ByteArray.Refinement
/-!
# Buffers for scatter and gather

`getWriteBuffers` and `getReadBuffers` hand out the bytes at the cursor as a
list of `iovec`s, one for each block.  A list of them is `Contiguous` when it
runs through one window of the joined bytes, and then the kernel's scatter and
gather over it are one access to that window.
-/

namespace Lyslg.ByteArray

open Support.Memory Support.State

/-- `struct iovec`: a pointer into a block, and a length. -/
structure IoVec where
  block : Nat
  offset : Nat
  len : Nat
  deriving DecidableEq, Repr

/-- The loop of `getWriteBuffers` and of `getReadBuffers`, from block `i` on. -/
def bufferLoop : List Block → Nat → Nat → Nat → Except Fault (List IoVec)
  | _, _, _, 0 => .ok []
  | [], _, _, _ + 1 => .error .nullBlock
  | node :: next, i, npos, n + 1 =>
      let len := n + 1
      let ncap := node.length - npos
      if len ≤ ncap then .ok [⟨i, npos, len⟩]
      else do
        let rest ← bufferLoop next (i + 1) 0 (len - ncap)
        return ⟨i, npos, ncap⟩ :: rest

/-- `ByteArray::getWriteBuffers`: its result and the buffers it pushes. -/
def getWriteBuffers (garbage : Garbage) (len : Nat) : Call (Nat × List IoVec) := do
  if len = 0 then
    return (0, [])
  modify (addCapacity garbage len)
  let i ← derefCur
  let ba ← get
  let npos := ba.position % ba.baseSize
  let buffers ← guarded (bufferLoop (ba.root.drop i) i npos len)
  return (len, buffers)

/-- `ByteArray::getReadBuffers(buffers, len)`. -/
def getReadBuffers (len : Nat) : Call (Nat × List IoVec) := do
  let ba ← get
  let len := if ba.getReadSize < len then ba.getReadSize else len
  if len = 0 then
    return (0, [])
  let i ← derefCur
  let npos := ba.position % ba.baseSize
  let buffers ← guarded (bufferLoop (ba.root.drop i) i npos len)
  return (len, buffers)

/-- What `recvmsg` does with the bytes it received: it fills the buffers one
after the other. -/
def scatter : List IoVec → List UInt8 → List Block → Except Fault (List Block)
  | _, [], blocks => .ok blocks
  | [], _ :: _, _ => .error .outOfBounds
  | v :: vs, b :: bs, blocks =>
      match blocks[v.block]? with
      | none => .error .nullBlock
      | some node => do
          let node' ← store node v.offset ((b :: bs).take v.len)
          scatter vs ((b :: bs).drop v.len) (blocks.set v.block node')

/-- What `sendmsg` takes when it sends `n` bytes of the buffers. -/
def gather (blocks : List Block) : List IoVec → Nat → Except Fault (List UInt8)
  | _, 0 => .ok []
  | [], _ + 1 => .error .outOfBounds
  | v :: vs, n + 1 =>
      match blocks[v.block]? with
      | none => .error .nullBlock
      | some node => do
          let bytes ← load node v.offset (min v.len (n + 1))
          let rest ← gather blocks vs (n + 1 - v.len)
          return bytes ++ rest

/-- The bytes a list of buffers holds. -/
def totalLen (vecs : List IoVec) : Nat := (vecs.map IoVec.len).sum

/-! ## Windows of the joined bytes -/

/-- Over blocks of `b` bytes the buffers run through `[addr, addr + totalLen)`. -/
def Contiguous (b : Nat) : Nat → List IoVec → Prop
  | _, [] => True
  | addr, v :: vs => addr = v.block * b + v.offset ∧ v.offset + v.len ≤ b ∧
      Contiguous b (addr + v.len) vs

section Blocks

variable {b : Nat} {blocks : List Block}

theorem bufferLoop_spec (hblocks : ∀ node ∈ blocks, node.length = b) (i : Nat)
    {npos : Nat} (hnpos : npos ≤ b) (len : Nat) (hfit : npos + len ≤ blocks.length * b ∨ len = 0) :
    ∃ vecs, bufferLoop blocks i npos len = .ok vecs ∧ Contiguous b (i * b + npos) vecs ∧
      totalLen vecs = len := by
  induction blocks generalizing i npos len with
  | nil =>
      have hzero : len = 0 := by
        simp only [List.length_nil, Nat.zero_mul] at hfit
        omega
      subst hzero
      exact ⟨[], by simp [bufferLoop], trivial, rfl⟩
  | cons node next ih =>
      have hnode := hblocks node (by simp)
      have hnext : ∀ n ∈ next, n.length = b := fun n hn => hblocks n (by simp [hn])
      cases len with
      | zero => exact ⟨[], by simp [bufferLoop], trivial, rfl⟩
      | succ n =>
          have hfit' : npos + (n + 1) ≤ next.length * b + b := by
            rcases hfit with hfit | hzero
            · rwa [List.length_cons, Nat.add_mul, Nat.one_mul] at hfit
            · omega
          rw [bufferLoop]
          by_cases hin : n + 1 ≤ node.length - npos
          · simp only [if_pos hin]
            exact ⟨_, rfl, ⟨rfl, by simp only; omega, trivial⟩, by simp [totalLen]⟩
          · obtain ⟨vecs, hloop, hcont, htotal⟩ :=
              ih hnext (i + 1) (Nat.zero_le b) (n + 1 - (node.length - npos)) (Or.inl (by omega))
            simp only [if_neg hin, hloop]
            refine ⟨_, rfl, ⟨rfl, by simp only; omega, ?_⟩, ?_⟩
            · have haddr : (i + 1) * b + 0 = i * b + npos + (node.length - npos) := by
                rw [Nat.add_mul, Nat.one_mul]
                omega
              rwa [haddr] at hcont
            · have hsum : totalLen (⟨i, npos, node.length - npos⟩ :: vecs)
                  = node.length - npos + totalLen vecs := by simp [totalLen]
              rw [hsum, htotal]
              omega

/-- Block `k` stands at `k * b` in the joined bytes. -/
theorem flatten_split {k : Nat} {node : Block} (hblocks : ∀ node ∈ blocks, node.length = b)
    (hk : blocks[k]? = some node) :
    ∃ pre post, blocks = pre ++ node :: post ∧ pre.length = k ∧ pre.flatten.length = k * b := by
  obtain ⟨hlt, hget⟩ := List.getElem?_eq_some_iff.mp hk
  have hpre : (blocks.take k).length = k := by
    rw [List.length_take]
    omega
  refine ⟨blocks.take k, blocks.drop (k + 1), ?_, hpre, ?_⟩
  · rw [← hget, List.getElem_cons_drop, List.take_append_drop]
  · rw [length_flatten_blocks fun n hn => hblocks n (List.mem_of_mem_take hn), hpre]

theorem slice_in_block {k off n : Nat} {node : Block}
    (hblocks : ∀ node ∈ blocks, node.length = b) (hk : blocks[k]? = some node)
    (hfit : off + n ≤ b) : slice node off n = slice blocks.flatten (k * b + off) n := by
  have hnode := hblocks node (List.mem_of_getElem? hk)
  obtain ⟨pre, post, rfl, _, hpre⟩ := flatten_split hblocks hk
  rw [List.flatten_append, List.flatten_cons, ← hpre, slice_append_right,
    slice_append_left _ _ _ _ (by omega)]

theorem splice_in_block {k off : Nat} {node : Block} {bytes : List UInt8}
    (hblocks : ∀ node ∈ blocks, node.length = b) (hk : blocks[k]? = some node)
    (hfit : off + bytes.length ≤ b) :
    (blocks.set k (splice node off bytes)).flatten
      = splice blocks.flatten (k * b + off) bytes := by
  have hnode := hblocks node (List.mem_of_getElem? hk)
  obtain ⟨pre, post, rfl, hlen, hpre⟩ := flatten_split hblocks hk
  rw [← hlen, List.set_append_right _ _ (Nat.le_refl _), Nat.sub_self, List.set_cons_zero, hlen,
    List.flatten_append, List.flatten_cons, List.flatten_append, List.flatten_cons, ← hpre,
    splice_append_right, splice_append_left _ _ _ _ (by omega)]

theorem block_exists {k : Nat} (hk : k < blocks.length) : ∃ node, blocks[k]? = some node :=
  ⟨blocks[k], List.getElem?_eq_getElem hk⟩

theorem block_index_lt {k off n addr : Nat} (haddr : addr = k * b + off) (hn : 0 < n)
    (hfit : addr + n ≤ blocks.length * b) : k < blocks.length := by
  by_contra hge
  have hmul := Nat.mul_le_mul_right b (Nat.le_of_not_lt hge)
  omega

/-- Filling contiguous buffers overwrites one window. -/
theorem scatter_spec (hblocks : ∀ node ∈ blocks, node.length = b) {vecs : List IoVec} {addr : Nat}
    (hcont : Contiguous b addr vecs) {bytes : List UInt8} (hlen : bytes.length ≤ totalLen vecs)
    (hfit : addr + bytes.length ≤ blocks.length * b) :
    ∃ blocks', scatter vecs bytes blocks = .ok blocks' ∧
      blocks'.flatten = splice blocks.flatten addr bytes ∧
      blocks'.length = blocks.length ∧ ∀ node ∈ blocks', node.length = b := by
  induction vecs generalizing blocks addr bytes with
  | nil =>
      have hnil : bytes = [] := List.length_eq_zero_iff.mp (by simpa [totalLen] using hlen)
      subst hnil
      exact ⟨blocks, by simp [scatter], by simp, rfl, hblocks⟩
  | cons v vs ih =>
      obtain ⟨haddr, hvec, hvs⟩ := hcont
      cases hbytes : bytes with
      | nil => exact ⟨blocks, by simp [scatter], by simp, rfl, hblocks⟩
      | cons x xs =>
          rw [← hbytes]
          have hpos : 0 < bytes.length := by simp [hbytes]
          obtain ⟨node, hnode⟩ := block_exists (block_index_lt haddr hpos hfit)
          have hnodeLen := hblocks node (List.mem_of_getElem? hnode)
          have htake : (bytes.take v.len).length ≤ v.len := List.length_take_le _ _
          have hdrop : (bytes.drop v.len).length = bytes.length - v.len := List.length_drop
          have hsum : totalLen (v :: vs) = v.len + totalLen vs := by simp [totalLen]
          have hflat := splice_in_block hblocks hnode
            (by omega : v.offset + (bytes.take v.len).length ≤ b)
          have hset : ∀ n ∈ blocks.set v.block (splice node v.offset (bytes.take v.len)),
              n.length = b := by
            intro n hn
            rcases List.mem_or_eq_of_mem_set hn with hn | rfl
            · exact hblocks n hn
            · rw [length_splice _ _ _ (by omega), hnodeLen]
          have hrest : addr + v.len + (bytes.drop v.len).length
              ≤ (blocks.set v.block (splice node v.offset (bytes.take v.len))).length * b ∨
              bytes.drop v.len = [] := by
            rw [List.length_set, ← List.length_eq_zero_iff]
            omega
          have hstep : scatter (v :: vs) bytes blocks = scatter vs (bytes.drop v.len)
              (blocks.set v.block (splice node v.offset (bytes.take v.len))) := by
            rw [hbytes, scatter, hnode, ← hbytes]
            simp only [store_of_le (by omega : v.offset + (bytes.take v.len).length ≤ node.length)]
            rfl
          rcases hrest with hrest | hdone
          · obtain ⟨blocks', hrun, hmem, hcount, hlens⟩ := ih hset hvs (by omega) hrest
            refine ⟨blocks', hstep.trans hrun, ?_, by rw [hcount, List.length_set], hlens⟩
            rw [hmem, hflat, ← haddr]
            by_cases hlong : v.len ≤ bytes.length
            · have hfull : (bytes.take v.len).length = v.len := by
                rw [List.length_take]
                omega
              have hjoin := splice_splice_adjacent blocks.flatten addr (bytes.take v.len)
                (bytes.drop v.len) (by rw [length_flatten_blocks hblocks]; omega)
              rwa [hfull, List.take_append_drop] at hjoin
            · rw [List.drop_eq_nil_of_le (by omega), splice_nil, List.take_of_length_le (by omega)]
          · refine ⟨_, hstep.trans (by rw [hdone]; simp [scatter]), ?_, List.length_set, hset⟩
            have hshort : bytes.length ≤ v.len := List.drop_eq_nil_iff.mp hdone
            rw [hflat, ← haddr, List.take_of_length_le hshort]

theorem gather_spec (hblocks : ∀ node ∈ blocks, node.length = b) {vecs : List IoVec} {addr : Nat}
    (hcont : Contiguous b addr vecs) {n : Nat} (hlen : n ≤ totalLen vecs)
    (hfit : addr + n ≤ blocks.length * b) :
    gather blocks vecs n = .ok (slice blocks.flatten addr n) := by
  induction vecs generalizing addr n with
  | nil =>
      have hzero : n = 0 := by simpa [totalLen] using hlen
      subst hzero
      simp [gather]
  | cons v vs ih =>
      obtain ⟨haddr, hvec, hvs⟩ := hcont
      cases n with
      | zero => simp [gather]
      | succ n =>
          obtain ⟨node, hnode⟩ := block_exists (block_index_lt haddr (Nat.succ_pos n) hfit)
          have hnodeLen := hblocks node (List.mem_of_getElem? hnode)
          have hsum : totalLen (v :: vs) = v.len + totalLen vs := by simp [totalLen]
          have hfirst := slice_in_block hblocks hnode
            (by omega : v.offset + min v.len (n + 1) ≤ b)
          rw [gather, hnode]
          simp only [load_of_le (by omega : v.offset + min v.len (n + 1) ≤ node.length), hfirst,
            ← haddr]
          by_cases hmore : v.len ≤ n + 1
          · have hrest := ih hvs (n := n + 1 - v.len) (by omega) (by omega)
            have hjoin := slice_append_slice blocks.flatten addr v.len (n + 1 - v.len)
            rw [Nat.add_sub_cancel' hmore] at hjoin
            rw [hrest, Nat.min_eq_left hmore, ← hjoin]
            rfl
          · rw [(by omega : n + 1 - v.len = 0), Nat.min_eq_right (by omega)]
            simp only [gather]
            change Except.ok (slice blocks.flatten addr (n + 1) ++ []) = _
            rw [List.append_nil]

end Blocks

/-! ## Buffers at the cursor -/

section Calls

variable {ba : ByteArray}

theorem bufferLoop_at_cursor (h : WellFormed ba) {n : Nat} (hfit : ba.position + n ≤ ba.capacity) :
    ∃ vecs, bufferLoop (ba.root.drop (ba.position / ba.baseSize)) (ba.position / ba.baseSize)
        (ba.position % ba.baseSize) n = .ok vecs ∧
      Contiguous ba.baseSize ba.position vecs ∧ totalLen vecs = n := by
  have hspec := bufferLoop_spec
    (fun node hnode => h.blocks node (List.mem_of_mem_drop hnode)) (ba.position / ba.baseSize)
    (Nat.mod_lt ba.position h.base_pos).le n
    (Or.inl (by rw [List.length_drop]; exact room_from_cursor h n hfit))
  rwa [Nat.div_add_mod'] at hspec

theorem getWriteBuffers_spec (h : WellFormed ba) (garbage : Garbage) {len : Nat} (hlen : 0 < len) :
    ∃ vecs, getWriteBuffers garbage len ba = .ok (len, vecs) (addCapacity garbage len ba) ∧
      Contiguous ba.baseSize ba.position vecs ∧ totalLen vecs = len := by
  obtain ⟨_, _, hwf, hbase, hpos, _, _, hleast⟩ := addCapacity_spec h garbage len
  have hroom : (addCapacity garbage len ba).position +
      len ≤ (addCapacity garbage len ba).capacity := by
    rw [hpos]
    exact hleast.1.2.2
  obtain ⟨vecs, hloop, hcont, htotal⟩ := bufferLoop_at_cursor hwf hroom
  rw [hbase, hpos] at hcont
  refine ⟨vecs, ?_, hcont, htotal⟩
  rw [getWriteBuffers]
  simp only [if_neg (by omega : ¬ len = 0), modify_bind]
  rw [derefCur_bind (hwf.cur_some (by omega)), get_bind, guarded_bind hloop, pure_apply]

theorem getReadBuffers_spec (h : WellFormed ba) (len : Nat) :
    ∃ vecs, getReadBuffers len ba = .ok (min len ba.getReadSize, vecs) ba ∧
      Contiguous ba.baseSize ba.position vecs ∧ totalLen vecs = min len ba.getReadSize := by
  have hsize := h.size_le
  have hle := h.position_le
  have hread : ba.getReadSize = ba.size - ba.position := rfl
  have hclamp : (if ba.getReadSize < len then ba.getReadSize else len) =
      min len ba.getReadSize := by
    split <;> omega
  rw [getReadBuffers]
  simp only [get_bind, hclamp]
  by_cases hzero : min len ba.getReadSize = 0
  · rw [hzero]
    exact ⟨[], rfl, trivial, rfl⟩
  · obtain ⟨vecs, hloop, hcont, htotal⟩ :=
      bufferLoop_at_cursor h (by omega : ba.position + min len ba.getReadSize ≤ ba.capacity)
    refine ⟨vecs, ?_, hcont, htotal⟩
    rw [if_neg hzero, derefCur_bind (h.cur_some (by omega)), guarded_bind hloop, pure_apply]

/-- `ba'` is `ba` after `bytes` were stored at the cursor, in a chain that may
have grown by more than they need. -/
structure Filled (ba : ByteArray) (bytes : List UInt8) (ba' : ByteArray) : Prop where
  wellFormed : WellFormed ba'
  baseSize_eq : ba'.baseSize = ba.baseSize
  endian_eq : ba'.endian = ba.endian
  position_eq : ba'.position = ba.position + bytes.length
  size_eq : ba'.size = max ba.size (ba.position + bytes.length)
  memory_eq : ∃ fresh, (ba.memory ++ fresh).length = ba'.capacity ∧
    ba'.memory = splice (ba.memory ++ fresh) ba.position bytes

theorem filled_addCapacity (h : WellFormed ba) (garbage : Garbage) (n : Nat) :
    Filled ba [] (addCapacity garbage n ba) := by
  obtain ⟨fresh, hmem, hwf, hbase, hpos, hsize, hendian, _⟩ := addCapacity_spec h garbage n
  have hle := h.position_le
  refine ⟨hwf, hbase, hendian, hpos, ?_, fresh, ?_, ?_⟩
  · rw [hsize, List.length_nil, Nat.max_eq_left (by omega)]
  · rw [← hmem, hwf.memory_length]
  · rw [hmem, splice_nil]

theorem filled_self (h : WellFormed ba) : Filled ba [] ba := by
  have hgrown := filled_addCapacity h (fun _ _ => 0) 0
  rwa [addCapacity_eq_self _ (Nat.zero_le _)] at hgrown

theorem Filled.trans {ba ba' ba'' : ByteArray} {a b : List UInt8}
    (h₁ : Filled ba a ba') (h₂ : Filled ba' b ba'') : Filled ba (a ++ b) ba'' := by
  have hpos := h₁.position_eq
  have hpos' := h₂.position_eq
  obtain ⟨fresh, hlen, hmem⟩ := h₁.memory_eq
  obtain ⟨fresh', hlen', hmem'⟩ := h₂.memory_eq
  have hend := h₁.wellFormed.position_le.trans h₁.wellFormed.size_le
  have hend' := h₂.wellFormed.position_le.trans h₂.wellFormed.size_le
  have hcap : ba'.memory.length = (ba.memory ++ fresh).length := by
    rw [hlen, h₁.wellFormed.memory_length]
  rw [List.length_append] at hlen'
  refine ⟨h₂.wellFormed, h₂.baseSize_eq.trans h₁.baseSize_eq, h₂.endian_eq.trans h₁.endian_eq,
    ?_, ?_, fresh ++ fresh', ?_, ?_⟩
  · rw [hpos', hpos, List.length_append]
    omega
  · rw [h₂.size_eq, h₁.size_eq, hpos, List.length_append]
    omega
  · rw [← List.append_assoc, List.length_append]
    omega
  · rw [hmem', hmem, hpos, ← splice_append_left _ _ _ _ (by omega), List.append_assoc,
      splice_splice_adjacent]
    rw [← List.append_assoc, List.length_append]
    omega

/-- Filling the buffers at the cursor and moving over the bytes. -/
theorem filled_scatter (h : WellFormed ba) {vecs : List IoVec}
    (hcont : Contiguous ba.baseSize ba.position vecs) {bytes : List UInt8}
    (hlen : bytes.length ≤ totalLen vecs) (hfit : ba.position + bytes.length ≤ ba.capacity) :
    ∃ root ba', scatter vecs bytes ba.root = .ok root ∧
      setPosition (ba.position + bytes.length) { ba with root := root } = .ok () ba' ∧
      Filled ba bytes ba' := by
  obtain ⟨root, hrun, hmem, hcount, hlens⟩ :=
    scatter_spec h.blocks hcont hlen (by rw [← h.capacity_eq]; exact hfit)
  have hwf : WellFormed { ba with root := root } :=
    ⟨h.base_pos, hlens, by rw [hcount]; exact h.root_pos, by rw [hcount]; exact h.capacity_eq,
      h.position_le, h.size_le, by rw [follow_of_length hcount]; exact h.cur_eq⟩
  obtain ⟨ba', hseek, hm⟩ := setPosition_spec hwf hfit
  refine ⟨root, ba', hrun, hseek, hm.wellFormed, hm.baseSize_eq, hm.endian_eq, hm.position_eq,
    hm.size_eq, [], ?_, ?_⟩
  · rw [List.append_nil, h.memory_length, hm.capacity_eq]
  · rw [List.append_nil, hm.memory_eq]
    exact hmem

end Calls

end Lyslg.ByteArray
