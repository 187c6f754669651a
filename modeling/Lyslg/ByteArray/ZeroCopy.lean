import Lyslg.ByteArray.Lifetime
/-!
# Zero-copy access agrees with plain access

`SocketStream` fills the buffers of `getWriteBuffers`, or sends those of
`getReadBuffers`, and then moves the cursor itself.  Both ways come to the state
of a plain `write` or `read`, except that a plain read of no byte at all is not
possible at the end of the last block.
-/

namespace Lyslg.ByteArray

open Support.Memory Support.State

/-- The bytes written so far, `[0, m_size)`. -/
def contents (ba : ByteArray) : List UInt8 := slice ba.memory 0 ba.size

/-- No difference that a client can see in position, size and contents. -/
structure Agrees (ba ba' : ByteArray) : Prop where
  position_eq : ba.position = ba'.position
  size_eq : ba.size = ba'.size
  contents_eq : ba.contents = ba'.contents

section Contents

variable {ba ba' ba'' : ByteArray} {bytes : List UInt8}

theorem Filled.contents_eq (h : WellFormed ba) (hf : Filled ba bytes ba') :
    ba'.contents = splice ba.contents ba.position bytes := by
  obtain ⟨fresh, hlen, hmem⟩ := hf.memory_eq
  have hroom := hf.wellFormed.position_le.trans hf.wellFormed.size_le
  have hsize := h.size_le
  have hmemory := h.memory_length
  have hlength : (ba.memory ++ fresh).length = ba.memory.length + fresh.length :=
    List.length_append
  rw [hf.position_eq] at hroom
  rw [contents, hmem, hf.size_eq,
    slice_splice_front _ _ _ _ h.position_le (by omega),
    slice_append_left _ _ _ _ (by omega), ← contents]

theorem Wrote.filled (hw : Wrote ba bytes ba') : Filled ba bytes ba' :=
  ⟨hw.wellFormed, hw.baseSize_eq, hw.endian_eq, hw.position_eq, hw.size_eq, hw.memory_eq⟩

/-- Two ways to put the same bytes at the cursor. -/
theorem Filled.agrees (h : WellFormed ba) (h₁ : Filled ba bytes ba') (h₂ : Filled ba bytes ba'') :
    Agrees ba' ba'' :=
  ⟨h₁.position_eq.trans h₂.position_eq.symm, h₁.size_eq.trans h₂.size_eq.symm,
    (h₁.contents_eq h).trans (h₂.contents_eq h).symm⟩

end Contents

/-! ## Filling the write buffers -/

/-- The client fills the first bytes of the buffers and moves the cursor over them. -/
theorem fill_writeBuffers {ba : ByteArray} (h : WellFormed ba) (garbage : Garbage) {len : Nat}
    {bytes : List UInt8} (hbytes : bytes.length ≤ len) :
    ∃ vecs grown root filled,
      getWriteBuffers garbage len ba = .ok (len, vecs) grown ∧
      totalLen vecs = len ∧
      scatter vecs bytes grown.root = .ok root ∧
      setPosition (grown.position + bytes.length) { grown with root := root } = .ok () filled ∧
      Filled ba bytes filled := by
  by_cases hlen : len = 0
  · subst hlen
    have hnil : bytes = [] := List.length_eq_zero_iff.mp (by omega)
    subst hnil
    have hend := h.position_le.trans h.size_le
    have hstay := setPosition_eq h (v := ba.position + 0) hend
    rw [Nat.add_zero, movedTo_position h] at hstay
    exact ⟨[], ba, ba.root, ba, rfl, rfl, by rw [scatter], hstay, filled_self h⟩
  · obtain ⟨vecs, hrun, hcont, htotal⟩ :=
      getWriteBuffers_spec h garbage (by omega : 0 < len)
    have hgrown := filled_addCapacity h garbage len
    have hpos : (addCapacity garbage len ba).position = ba.position := hgrown.position_eq
    obtain ⟨_, _, _, _, _, _, _, hleast⟩ := addCapacity_spec h garbage len
    have hroom := hleast.1.2.2
    rw [← hpos, ← hgrown.baseSize_eq] at hcont
    obtain ⟨root, filled, hscatter, hseek, hfilled⟩ :=
      filled_scatter hgrown.wellFormed hcont (by omega : bytes.length ≤ _) (by omega)
    have hall := hgrown.trans hfilled
    rw [List.nil_append] at hall
    exact ⟨vecs, _, root, filled, hrun, htotal, hscatter, hseek, hall⟩

/-! ## Sending the read buffers -/

theorem bufferLoop_len_pos {b : Nat} {blocks : List Block}
    (hblocks : ∀ node ∈ blocks, node.length = b) (i : Nat) {npos : Nat}
    (hnpos : npos < b) {len : Nat}
    {vecs : List IoVec} (hloop : bufferLoop blocks i npos len = .ok vecs) :
    ∀ v ∈ vecs, 0 < v.len := by
  induction blocks generalizing i npos len vecs with
  | nil =>
      cases len with
      | zero =>
          rw [bufferLoop] at hloop
          cases hloop
          simp
      | succ n =>
          rw [bufferLoop] at hloop
          cases hloop
  | cons node next ih =>
      have hnode := hblocks node (by simp)
      cases len with
      | zero =>
          rw [bufferLoop] at hloop
          cases hloop
          simp
      | succ n =>
          rw [bufferLoop] at hloop
          by_cases hin : n + 1 ≤ node.length - npos
          · simp only [if_pos hin] at hloop
            cases hloop
            simp
          · simp only [if_neg hin] at hloop
            obtain ⟨rest, hrest, heq⟩ := ok_of_bind hloop
            cases heq
            have hlater := ih (fun n hn => hblocks n (by simp [hn])) (i + 1) (by omega) hrest
            intro v hv
            rcases List.mem_cons.mp hv with rfl | hv
            · simp only
              omega
            · exact hlater v hv

theorem guarded_inv {α : Type} {x : Except Fault α} {a : α} {ba ba' : ByteArray}
    (h : guarded x ba = .ok a ba') : x = .ok a := by
  unfold guarded at h
  split at h
  · cases h
    rfl
  · cases h

theorem getReadBuffers_len_pos {ba ba' : ByteArray} (h : WellFormed ba) {len total : Nat}
    {vecs : List IoVec} (hrun : getReadBuffers len ba = .ok (total, vecs) ba') :
    ∀ v ∈ vecs, 0 < v.len := by
  rw [getReadBuffers, get_bind] at hrun
  dsimp only at hrun
  generalize (if ba.getReadSize < len then ba.getReadSize else len) = n at hrun
  by_cases hn : n = 0
  · rw [if_pos hn] at hrun
    cases hrun
    simp
  · rw [if_neg hn] at hrun
    obtain ⟨i, ba₁, _, hrun⟩ := bind_inv hrun
    obtain ⟨buffers, ba₂, hloop, hrun⟩ := bind_inv hrun
    cases hrun
    exact bufferLoop_len_pos (fun node hnode => h.blocks node (List.mem_of_mem_drop hnode)) i
      (Nat.mod_lt _ h.base_pos) (guarded_inv hloop)

/-- The read buffers are the next bytes, in pieces none of which is empty. -/
theorem getReadBuffers_exact {ba : ByteArray} (h : WellFormed ba) (len : Nat) :
    ∃ vecs, getReadBuffers len ba = .ok (min len (ba.size - ba.position), vecs) ba ∧
      totalLen vecs = min len (ba.size - ba.position) ∧
      gather ba.root vecs (totalLen vecs)
        = .ok (slice ba.memory ba.position (min len (ba.size - ba.position))) ∧
      ∀ v ∈ vecs, 0 < v.len := by
  obtain ⟨vecs, hrun, hcont, htotal⟩ := getReadBuffers_spec h len
  have hread : ba.getReadSize = ba.size - ba.position := rfl
  have hsize := h.size_le
  have hle := h.position_le
  rw [hread] at hrun htotal
  refine ⟨vecs, hrun, htotal, ?_, getReadBuffers_len_pos h hrun⟩
  rw [htotal]
  exact gather_spec h.blocks hcont (by omega) (by rw [← h.capacity_eq]; omega)

/-! ## Agreement -/

/-- Filling the write buffers of `len` bytes with `bytes` has the effect of `write`. -/
def WriteAgrees (ba : ByteArray) (len : Nat) (bytes : List UInt8) : Prop :=
  ∀ garbage garbage', ∃ vecs grown root filled written,
    getWriteBuffers garbage len ba = .ok (len, vecs) grown ∧
    totalLen vecs = len ∧
    scatter vecs bytes grown.root = .ok root ∧
    setPosition (grown.position + bytes.length) { grown with root := root } = .ok () filled ∧
    write garbage' bytes ba = .ok () written ∧
    Agrees filled written

/-- The read buffers of `len` bytes are the next bytes, and moving over `n` of them
leaves the state that `read` leaves. -/
def ReadAgrees (ba : ByteArray) (len n : Nat) : Prop :=
  ∃ vecs after,
    getReadBuffers len ba = .ok (min len (ba.size - ba.position), vecs) ba ∧
    totalLen vecs = min len (ba.size - ba.position) ∧
    gather ba.root vecs (totalLen vecs)
      = .ok (slice ba.memory ba.position (min len (ba.size - ba.position))) ∧
    (∀ v ∈ vecs, 0 < v.len) ∧
    setPosition (ba.position + n) ba = .ok () after ∧
    read n ba = .ok (slice ba.memory ba.position n) after

theorem writeAgrees {ba : ByteArray} (h : WellFormed ba) {len : Nat} {bytes : List UInt8}
    (hbytes : bytes.length ≤ len) : WriteAgrees ba len bytes := by
  intro garbage garbage'
  obtain ⟨vecs, grown, root, filled, hget, htotal, hscatter, hseek, hfilled⟩ :=
    fill_writeBuffers h garbage hbytes
  obtain ⟨written, hwrite, hwrote⟩ := write_spec h garbage' bytes
  exact ⟨vecs, grown, root, filled, written, hget, htotal, hscatter, hseek, hwrite,
    hfilled.agrees h hwrote.filled⟩

theorem readAgrees_iff {ba : ByteArray} (h : WellFormed ba) {len n : Nat}
    (hn : n ≤ min len (ba.size - ba.position)) :
    ReadAgrees ba len n ↔ 0 < n ∨ ba.position < ba.capacity := by
  have hread : ba.getReadSize = ba.size - ba.position := rfl
  have hsize := h.size_le
  have hle := h.position_le
  constructor
  · rintro ⟨_, after, _, _, _, _, _, hrun⟩
    by_contra hnone
    obtain rfl : n = 0 := by omega
    rw [read_zero_at_end h (by omega)] at hrun
    cases hrun
  · intro hcur
    obtain ⟨vecs, hget, htotal, hgather, hpos⟩ := getReadBuffers_exact h len
    refine ⟨vecs, _, hget, htotal, hgather, hpos, setPosition_eq h (by omega), ?_⟩
    by_cases hzero : n = 0
    · subst hzero
      rw [Nat.add_zero, movedTo_position h, slice_zero]
      exact read_zero h (by omega)
    · exact read_eq h (by omega) (by omega)

/-- Filling the write buffers always agrees with `write`.  Moving over `n` bytes of
the read buffers agrees with `read` but for `n = 0` at the end of the capacity. -/
theorem zeroCopy_agrees_iff {base : Nat} (hbase : 1 ≤ base) {ba : ByteArray}
    (h : Lifetime base ba) :
    (∀ len bytes, bytes.length ≤ len → WriteAgrees ba len bytes) ∧
      ∀ len n, n ≤ min len (ba.size - ba.position) →
        (ReadAgrees ba len n ↔ 0 < n ∨ ba.position < ba.capacity) := by
  obtain ⟨hwf, _⟩ := h.wellFormed hbase
  exact ⟨fun _ _ hbytes => writeAgrees hwf hbytes, fun _ _ hn => readAgrees_iff hwf hn⟩

/-- A block of two bytes, filled to its end. -/
def fullBlock : ByteArray :=
  { new (fun _ _ => 0) 2 with root := [[1, 2]], position := 2, size := 2, cur := none }

theorem lifetime_fullBlock : Lifetime 2 fullBlock :=
  .returns (.write (fun _ _ => 0) [1, 2]) (.new fun _ _ => 0) rfl

/-- Moving over no byte works there, and reading no byte does not. -/
theorem zeroCopy_disagrees :
    ¬ ∀ ba, Lifetime 2 ba → ∀ len n, n ≤ min len (ba.size - ba.position) → ReadAgrees ba len n := by
  intro hall
  obtain ⟨_, _, _, _, _, _, _, hrun⟩ := hall fullBlock lifetime_fullBlock 0 0 (by decide)
  have hfault : read 0 fullBlock = .error .nullBlock fullBlock := rfl
  rw [hfault] at hrun
  cases hrun

/-- Two bytes into three blocks of two, from the middle of the first one on. -/
theorem zeroCopy_agrees_iff_straddling :
    let ba := { new (fun _ _ => 0) 2 with root := [[1, 0]], position := 1, size := 1 }
    WriteAgrees ba 5 [8, 9] ∧ (ReadAgrees ba 3 0 ↔ 0 < 0 ∨ 1 < 2) := by
  intro ba
  have hlife : Lifetime 2 ba :=
    .returns (.write (fun _ _ => 0) [1]) (.new fun _ _ => 0) rfl
  have h := zeroCopy_agrees_iff (by decide : 1 ≤ 2) hlife
  exact ⟨h.1 5 [8, 9] (by decide), h.2 3 0 (by decide)⟩

end Lyslg.ByteArray
