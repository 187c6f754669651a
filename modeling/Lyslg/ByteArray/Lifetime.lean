import Lyslg.ByteArray.Buffers
import Lyslg.ByteArray.RoundTrip
/-!
# The states a `ByteArray` goes through

Clients may call any member function at any time, and may store into the buffers
they were given.  A call that throws leaves the object as it was at the throw and
the client goes on with it, while undefined behaviour has no state after it.
-/

namespace Lyslg.ByteArray

open Support.Memory Support.State Support.Words

/-- The member functions that may change the object. -/
inductive Member where
  | write (garbage : Garbage) (buf : List UInt8)
  | read (size : Nat)
  | setPosition (v : Nat)
  | clear
  | setIsLittleEndian (val : Bool)
  | getWriteBuffers (garbage : Garbage) (len : Nat)
  | writeItem (garbage garbage' : Garbage) (item : Item)
  | writeStringVint (garbage garbage' : Garbage) (value : List UInt8)
  | readItem (kind : Kind)
  | readStringVint

/-- The call, without the value it returns. -/
def Member.call : Member → Call Unit
  | .write garbage buf => ByteArray.write garbage buf
  | .read size => do let _ ← ByteArray.read size
  | .setPosition v => ByteArray.setPosition v
  | .clear => ByteArray.clear
  | .setIsLittleEndian val => ByteArray.setIsLittleEndian val
  | .getWriteBuffers garbage len => do let _ ← ByteArray.getWriteBuffers garbage len
  | .writeItem garbage garbage' item => ByteArray.writeItem garbage garbage' item
  | .writeStringVint garbage garbage' value => ByteArray.writeStringVint garbage garbage' value
  | .readItem kind => do let _ ← ByteArray.readItem kind
  | .readStringVint => do let _ ← ByteArray.readStringVint

/-- The states of an object constructed with block size `base`. -/
inductive Lifetime (base : Nat) : ByteArray → Prop where
  | new (garbage : Garbage) : Lifetime base (new garbage base)
  | returns {ba ba' : ByteArray} (m : Member) (h : Lifetime base ba)
      (hcall : m.call ba = .ok () ba') : Lifetime base ba'
  | throws {ba ba' : ByteArray} (m : Member) (what : String) (h : Lifetime base ba)
      (hcall : m.call ba = .error (.outOfRange what) ba') : Lifetime base ba'
  | fill {ba : ByteArray} {root : List Block} (vecs : List IoVec) (bytes : List UInt8)
      (h : Lifetime base ba) (hfill : scatter vecs bytes ba.root = .ok root) :
      Lifetime base { ba with root := root }

/-! ## Reads of any size -/

section Reads

variable {ba : ByteArray}

theorem read_zero (h : WellFormed ba) (hlt : ba.position < ba.capacity) :
    read 0 ba = .ok [] ba := by
  have hcur := h.cur_eq
  rw [read]
  simp only [get_bind, if_neg (Nat.not_lt_zero _)]
  rw [derefCur_bind (h.cur_some hlt), guarded_bind (a := ([], 0)) (by rw [readLoop])]
  simp only [modify_bind, pure_apply]
  rw [follow_add, Nat.add_zero, Nat.add_zero, ← hcur]

/-- The block at the cursor is dereferenced before any look at the size. -/
theorem read_zero_at_end (h : WellFormed ba) (hend : ¬ ba.position < ba.capacity) :
    read 0 ba = .error .nullBlock ba := by
  have hcur : ba.cur = none := by rw [h.cur_cases, if_neg hend]
  rw [read]
  simp only [get_bind, if_neg (Nat.not_lt_zero _)]
  exact bind_error (by simp only [derefCur, hcur])

/-- A read is in step when it asks for a byte or the cursor stands in a block. -/
theorem read_in_step (h : WellFormed ba) {size : Nat} (hsize : size ≤ ba.getReadSize)
    (hcur : 0 < size ∨ ba.position < ba.capacity) :
    ∃ ba', read size ba = .ok (slice ba.memory ba.position size) ba' ∧
      Moved ba (ba.position + size) ba' := by
  by_cases hpos : 0 < size
  · exact read_spec h hpos hsize
  · obtain rfl : size = 0 := by omega
    rw [slice_zero]
    exact ⟨ba, read_zero h (by omega), moved_self h⟩

end Reads

/-! ## Every call keeps the invariant -/

/-- The call keeps the invariant and the block size, whether it returns or throws. -/
def Keeps {α : Type} (x : Call α) : Prop :=
  ∀ ba, WellFormed ba →
    (∀ a ba', x ba = .ok a ba' → WellFormed ba' ∧ ba'.baseSize = ba.baseSize) ∧
    ∀ what ba', x ba = .error (.outOfRange what) ba' →
      WellFormed ba' ∧ ba'.baseSize = ba.baseSize

theorem keeps_of_ok {α : Type} {x : Call α}
    (h : ∀ ba, WellFormed ba →
      ∃ a ba', x ba = .ok a ba' ∧ WellFormed ba' ∧ ba'.baseSize = ba.baseSize) : Keeps x := by
  intro ba hwf
  obtain ⟨a, ba', hrun, hkept⟩ := h ba hwf
  rw [hrun]
  constructor
  · intro _ _ heq
    cases heq
    exact hkept
  · intro _ _ heq
    cases heq

theorem keeps_of_error {α : Type} {x : Call α} {ba : ByteArray} (hwf : WellFormed ba) {f : Fault}
    (hrun : x ba = .error f ba) :
    (∀ a ba', x ba = .ok a ba' → WellFormed ba' ∧ ba'.baseSize = ba.baseSize) ∧
      ∀ what ba', x ba = .error (.outOfRange what) ba' →
        WellFormed ba' ∧ ba'.baseSize = ba.baseSize := by
  rw [hrun]
  constructor
  · intro _ _ heq
    cases heq
  · intro _ _ heq
    cases heq
    exact ⟨hwf, rfl⟩

theorem keeps_pure {α : Type} (a : α) : Keeps (pure a : Call α) :=
  keeps_of_ok fun ba hwf => ⟨a, ba, rfl, hwf, rfl⟩

theorem keeps_get : Keeps (get : Call ByteArray) :=
  keeps_of_ok fun ba hwf => ⟨ba, ba, rfl, hwf, rfl⟩

theorem Keeps.bind {α β : Type} {x : Call α} {f : α → Call β} (hx : Keeps x)
    (hf : ∀ a, Keeps (f a)) : Keeps (x >>= f) := by
  intro ba hwf
  cases hrun : x ba with
  | error e ba₁ =>
      rw [bind_error hrun]
      constructor
      · intro _ _ heq
        cases heq
      · intro what _ heq
        cases heq
        exact (hx ba hwf).2 what ba₁ hrun
  | ok a ba₁ =>
      obtain ⟨hwf₁, hbase₁⟩ := (hx ba hwf).1 a ba₁ hrun
      rw [bind_ok hrun, ← hbase₁]
      exact hf a ba₁ hwf₁

theorem keeps_write (garbage : Garbage) (buf : List UInt8) : Keeps (write garbage buf) := by
  apply keeps_of_ok
  intro ba hwf
  obtain ⟨ba', hrun, hw⟩ := write_spec hwf garbage buf
  exact ⟨(), ba', hrun, hw.wellFormed, hw.baseSize_eq⟩

theorem keeps_read (size : Nat) : Keeps (read size) := by
  intro ba hwf
  by_cases hsize : size ≤ ba.getReadSize
  · by_cases hcur : 0 < size ∨ ba.position < ba.capacity
    · obtain ⟨ba', hrun, hm⟩ := read_in_step hwf hsize hcur
      rw [hrun]
      constructor
      · intro _ _ heq
        cases heq
        exact ⟨hm.wellFormed, hm.baseSize_eq⟩
      · intro _ _ heq
        cases heq
    · obtain rfl : size = 0 := by omega
      exact keeps_of_error hwf (read_zero_at_end hwf (by omega))
  · exact keeps_of_error hwf (read_throws size (by omega))

theorem keeps_setPosition (v : Nat) : Keeps (setPosition v) := by
  intro ba hwf
  by_cases hv : v ≤ ba.capacity
  · obtain ⟨ba', hrun, hm⟩ := setPosition_spec hwf hv
    rw [hrun]
    constructor
    · intro _ _ heq
      cases heq
      exact ⟨hm.wellFormed, hm.baseSize_eq⟩
    · intro _ _ heq
      cases heq
  · exact keeps_of_error hwf (setPosition_throws (by omega))

theorem keeps_clear : Keeps clear := by
  apply keeps_of_ok
  intro ba hwf
  obtain ⟨ba', hrun, hwf', hbase, _⟩ := clear_spec hwf
  exact ⟨(), ba', hrun, hwf', hbase⟩

theorem keeps_setIsLittleEndian (val : Bool) : Keeps (setIsLittleEndian val) :=
  keeps_of_ok fun _ hwf => ⟨(), _, rfl, hwf.withEndian _, rfl⟩

theorem keeps_getWriteBuffers (garbage : Garbage) (len : Nat) :
    Keeps (getWriteBuffers garbage len) := by
  apply keeps_of_ok
  intro ba hwf
  by_cases hlen : len = 0
  · subst hlen
    exact ⟨_, ba, rfl, hwf, rfl⟩
  · obtain ⟨vecs, hrun, _⟩ := getWriteBuffers_spec hwf garbage (by omega : 0 < len)
    obtain ⟨_, _, hwf', hbase, _⟩ := addCapacity_spec hwf garbage len
    exact ⟨_, _, hrun, hwf', hbase⟩

theorem keeps_writeFixed (garbage : Garbage) (n value : Nat) : Keeps (writeFixed garbage n value) :=
  keeps_get.bind fun _ => keeps_write garbage _

theorem keeps_readFixed (n : Nat) : Keeps (readFixed n) :=
  (keeps_read n).bind fun _ => keeps_get.bind fun _ => keeps_pure _

theorem keeps_readFuint8 : Keeps readFuint8 :=
  (keeps_read 1).bind fun _ => keeps_pure _

theorem keeps_readVarintLoop (width : Nat) (shifts : List Nat) (result : Nat) :
    Keeps (readVarintLoop width shifts result) := by
  induction shifts generalizing result with
  | nil => exact keeps_pure result
  | cons i is ih =>
      rw [readVarintLoop]
      refine keeps_readFuint8.bind fun b => ?_
      split
      · exact keeps_pure _
      · exact ih _

theorem keeps_readUint64 : Keeps readUint64 :=
  (keeps_readVarintLoop 64 _ 0).bind fun _ => keeps_pure _

theorem keeps_readUint32 : Keeps readUint32 :=
  (keeps_readVarintLoop 32 _ 0).bind fun _ => keeps_pure _

theorem Keeps.map {α β : Type} {x : Call α} (hx : Keeps x) (f : α → β) :
    Keeps (do return f (← x)) :=
  hx.bind fun _ => keeps_pure _

theorem keeps_writeItem (garbage garbage' : Garbage) (item : Item) :
    Keeps (writeItem garbage garbage' item) := by
  cases item with
  | stringF16 s => exact (keeps_writeFixed garbage _ _).bind fun _ => keeps_write garbage' s
  | stringF32 s => exact (keeps_writeFixed garbage _ _).bind fun _ => keeps_write garbage' s
  | stringF64 s => exact (keeps_writeFixed garbage _ _).bind fun _ => keeps_write garbage' s
  | fint8 v => exact keeps_write garbage (leBytes 1 v.toBitVec.toNat)
  | fuint8 v => exact keeps_write garbage (leBytes 1 v.toNat)
  | int32 v => exact keeps_write garbage (varint (encodeZigzag32 v).toNat)
  | uint32 v => exact keeps_write garbage (varint v.toNat)
  | int64 v => exact keeps_write garbage (varint (encodeZigzag64 v).toNat)
  | uint64 v => exact keeps_write garbage (varint v.toNat)
  | _ => exact keeps_writeFixed garbage _ _

theorem keeps_readItem (kind : Kind) : Keeps (readItem kind) := by
  cases kind with
  | fint8 => exact ((keeps_read 1).map _).map _
  | fuint8 => exact keeps_readFuint8.map _
  | int32 => exact (keeps_readUint32.map _).map _
  | uint32 => exact keeps_readUint32.map _
  | int64 => exact (keeps_readUint64.map _).map _
  | uint64 => exact keeps_readUint64.map _
  | stringF16 => exact (((keeps_readFixed 2).map _).bind fun _ => keeps_read _).map _
  | stringF32 => exact (((keeps_readFixed 4).map _).bind fun _ => keeps_read _).map _
  | stringF64 => exact (((keeps_readFixed 8).map _).bind fun _ => keeps_read _).map _
  | _ => exact ((keeps_readFixed _).map _).map _

theorem Member.keeps (m : Member) : Keeps m.call := by
  cases m with
  | write garbage buf => exact keeps_write garbage buf
  | read size => exact (keeps_read size).map fun _ => ()
  | setPosition v => exact keeps_setPosition v
  | clear => exact keeps_clear
  | setIsLittleEndian val => exact keeps_setIsLittleEndian val
  | getWriteBuffers garbage len => exact (keeps_getWriteBuffers garbage len).map fun _ => ()
  | writeItem garbage garbage' item => exact keeps_writeItem garbage garbage' item
  | writeStringVint garbage garbage' value =>
      exact (keeps_writeFixed garbage _ _).bind fun _ => keeps_write garbage' value
  | readItem kind => exact (keeps_readItem kind).map fun _ => ()
  | readStringVint =>
      exact (keeps_readUint64.bind fun len => keeps_read len.toNat).map fun _ => ()

/-- Storing into the blocks changes neither their number nor their lengths. -/
theorem scatter_lengths {vecs : List IoVec} {bytes : List UInt8} {blocks blocks' : List Block}
    (h : scatter vecs bytes blocks = .ok blocks') :
    blocks'.map List.length = blocks.map List.length := by
  induction vecs generalizing bytes blocks with
  | nil =>
      cases bytes with
      | nil =>
          rw [scatter] at h
          cases h
          rfl
      | cons b bs =>
          rw [scatter] at h
          cases h
  | cons v vs ih =>
      cases bytes with
      | nil =>
          rw [scatter] at h
          cases h
          rfl
      | cons b bs =>
          rw [scatter] at h
          cases hblock : blocks[v.block]? with
          | none =>
              rw [hblock] at h
              cases h
          | some node =>
              rw [hblock] at h
              obtain ⟨node', hstore, hrest⟩ := ok_of_bind h
              have hlen : node'.length = node.length := by
                unfold store at hstore
                split at hstore
                · cases hstore
                  exact length_splice _ _ _ ‹_›
                · cases hstore
              obtain ⟨hlt, hget⟩ := List.getElem?_eq_some_iff.mp hblock
              have hlt' : v.block < (blocks.map List.length).length := by simpa using hlt
              have hsame : (blocks.map List.length)[v.block] = node.length := by
                rw [List.getElem_map, hget]
              rw [ih hrest, List.map_set, hlen, ← hsame, List.set_getElem_self]

theorem WellFormed.fill {ba : ByteArray} (h : WellFormed ba) {vecs : List IoVec}
    {bytes : List UInt8}
    {root : List Block} (hfill : scatter vecs bytes ba.root = .ok root) :
    WellFormed { ba with root := root } := by
  have hlens := scatter_lengths hfill
  have hcount : root.length = ba.root.length := by
    have := congrArg List.length hlens
    simpa using this
  refine ⟨h.base_pos, ?_, by rw [hcount]; exact h.root_pos, by rw [hcount]; exact h.capacity_eq,
    h.position_le, h.size_le, by rw [follow_of_length hcount]; exact h.cur_eq⟩
  intro node hnode
  have hmem : node.length ∈ root.map List.length := List.mem_map_of_mem hnode
  rw [hlens, List.mem_map] at hmem
  obtain ⟨node', hnode', hlen⟩ := hmem
  rw [← hlen]
  exact h.blocks node' hnode'

/-- The invariant holds over the whole life of the object. -/
theorem Lifetime.wellFormed {base : Nat} (hbase : 1 ≤ base) {ba : ByteArray}
    (h : Lifetime base ba) : WellFormed ba ∧ ba.baseSize = base := by
  induction h with
  | new garbage => exact ⟨wellFormed_new garbage hbase, rfl⟩
  | returns m _ hcall ih =>
      obtain ⟨hwf, heq⟩ := (m.keeps _ ih.1).1 _ _ hcall
      exact ⟨hwf, heq.trans ih.2⟩
  | throws m what _ hcall ih =>
      obtain ⟨hwf, heq⟩ := (m.keeps _ ih.1).2 what _ hcall
      exact ⟨hwf, heq.trans ih.2⟩
  | fill vecs bytes _ hfill ih => exact ⟨ih.1.fill hfill, ih.2⟩

end Lyslg.ByteArray
