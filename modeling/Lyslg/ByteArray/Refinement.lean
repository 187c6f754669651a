import Lyslg.ByteArray.Flat
import Lyslg.ByteArray.Loops
import Lyslg.Support.Run
import Lyslg.Support.State
/-!
# `ByteArray` refines the flat store

`WellFormed` is the invariant of the block list.  Every call keeps it and has a
specification over the joined bytes `memory`; the run theorem assembles these
into a forward simulation from a fresh `ByteArray`.
-/

namespace Lyslg.ByteArray

open Support.Memory Support.State Support

/-- All bytes of the chain, in order. -/
def memory (ba : ByteArray) : List UInt8 := ba.root.flatten

/-- The flat store a block list stands for. -/
def flat (ba : ByteArray) : FlatStore := ⟨ba.memory, ba.position, ba.size⟩

/-- The invariant of the block list. -/
structure WellFormed (ba : ByteArray) : Prop where
  base_pos : 0 < ba.baseSize
  blocks : ∀ node ∈ ba.root, node.length = ba.baseSize
  root_pos : 0 < ba.root.length
  capacity_eq : ba.capacity = ba.root.length * ba.baseSize
  position_le : ba.position ≤ ba.size
  size_le : ba.size ≤ ba.capacity
  cur_eq : ba.cur = follow ba.root 0 (ba.position / ba.baseSize)

namespace WellFormed

variable {ba : ByteArray}

theorem memory_length (h : WellFormed ba) : ba.memory.length = ba.capacity := by
  rw [memory, length_flatten_blocks h.blocks, h.capacity_eq]

theorem index_lt (h : WellFormed ba) (hpos : ba.position < ba.capacity) :
    ba.position / ba.baseSize < ba.root.length := by
  rw [Nat.div_lt_iff_lt_mul h.base_pos, ← h.capacity_eq]
  exact hpos

/-- `m_cur` is the block the position lies in, and null exactly at the end of
the capacity. -/
theorem cur_cases (h : WellFormed ba) :
    ba.cur = if ba.position < ba.capacity then some (ba.position / ba.baseSize) else none := by
  rw [h.cur_eq, follow, Nat.zero_add]
  by_cases hpos : ba.position < ba.capacity
  · rw [if_pos (h.index_lt hpos), if_pos hpos]
  · have hge : ¬ ba.position / ba.baseSize < ba.root.length := by
      rw [Nat.div_lt_iff_lt_mul h.base_pos, ← h.capacity_eq]
      exact hpos
    rw [if_neg hge, if_neg hpos]

theorem cur_some (h : WellFormed ba) (hpos : ba.position < ba.capacity) :
    ba.cur = some (ba.position / ba.baseSize) := by
  rw [h.cur_cases, if_pos hpos]

end WellFormed

theorem follow_add (root : List Block) (i moved : Nat) :
    follow root i moved = follow root 0 (i + moved) := by
  rw [follow, follow, Nat.zero_add]

theorem follow_of_length {root root' : List Block} (h : root.length = root'.length)
    (i moved : Nat) : follow root i moved = follow root' i moved := by
  rw [follow, follow, h]

/-- The index of the block after an access of `n` bytes. -/
theorem index_advance {b : Nat} (hb : 0 < b) (p n : Nat) :
    p / b + (p % b + n) / b = (p + n) / b := by
  rw [Nat.add_comm (p / b), ← Nat.add_mul_div_left _ _ hb]
  congr 1
  have := Nat.div_add_mod p b
  omega

theorem derefCur_bind {α : Type} {ba : ByteArray} {i : Nat} {f : Nat → Call α}
    (h : ba.cur = some i) : (derefCur >>= f) ba = f i ba :=
  bind_ok (by simp only [derefCur, h])

theorem guarded_bind {α β : Type} {x : Except Fault α} {a : α} {f : α → Call β} {ba : ByteArray}
    (h : x = .ok a) : (guarded x >>= f) ba = f a ba :=
  bind_ok (by simp only [guarded, h])

/-! ## The chain seen from the cursor -/

section Cursor

variable {ba : ByteArray} {i : Nat}

theorem flatten_take (hblocks : ∀ node ∈ ba.root, node.length = ba.baseSize)
    (hi : i ≤ ba.root.length) : (ba.root.take i).flatten.length = i * ba.baseSize := by
  rw [length_flatten_blocks fun n hn => hblocks n (List.mem_of_mem_take hn), List.length_take,
    Nat.min_eq_left hi]

theorem memory_eq_take_drop (ba : ByteArray) (i : Nat) :
    ba.memory = (ba.root.take i).flatten ++ (ba.root.drop i).flatten := by
  rw [memory, ← List.flatten_append, List.take_append_drop]

theorem slice_from_block (hblocks : ∀ node ∈ ba.root, node.length = ba.baseSize)
    (hi : i ≤ ba.root.length) (npos n : Nat) :
    slice (ba.root.drop i).flatten npos n = slice ba.memory (i * ba.baseSize + npos) n := by
  rw [memory_eq_take_drop ba i, ← flatten_take hblocks hi, slice_append_right]

theorem splice_from_block (hblocks : ∀ node ∈ ba.root, node.length = ba.baseSize)
    (hi : i ≤ ba.root.length) (npos : Nat) (buf : List UInt8) :
    (ba.root.take i).flatten ++ splice (ba.root.drop i).flatten npos buf =
      splice ba.memory (i * ba.baseSize + npos) buf := by
  rw [memory_eq_take_drop ba i, ← flatten_take hblocks hi, splice_append_right]

/-- The bytes from the cursor to the end of the chain. -/
theorem room_from_cursor (h : WellFormed ba) (n : Nat) (hfit : ba.position + n ≤ ba.capacity) :
    ba.position % ba.baseSize + n ≤
      (ba.root.length - ba.position / ba.baseSize) * ba.baseSize := by
  have hdm := Nat.div_add_mod ba.position ba.baseSize
  rw [Nat.sub_mul, ← h.capacity_eq, Nat.mul_comm (ba.position / ba.baseSize)]
  omega

end Cursor

/-! ## Growing -/

/-- Blocks of `b` bytes needed for `n` bytes, as `addCapacity` counts them. -/
def blocksFor (b n : Nat) : Nat := (n + b - 1) / b

theorem blocksFor_bounds {b : Nat} (hb : 0 < b) (n : Nat) :
    n ≤ blocksFor b n * b ∧ blocksFor b n * b < n + b := by
  have hdm := Nat.div_add_mod (n + b - 1) b
  have hlt := Nat.mod_lt (n + b - 1) hb
  rw [Nat.mul_comm] at hdm
  unfold blocksFor
  omega

theorem blocksFor_pos {b n : Nat} (hb : 0 < b) (hn : 0 < n) : 0 < blocksFor b n := by
  have hbounds := blocksFor_bounds hb n
  by_contra hzero
  rw [(by omega : blocksFor b n = 0)] at hbounds
  omega

theorem isLeast_capacities_self {b old need : Nat} (hold : b ∣ old) (h : need ≤ old) :
    IsLeast (FlatStore.capacities b old need) old :=
  ⟨⟨hold, Nat.le_refl _, h⟩, fun _ hc => hc.2.1⟩

theorem isLeast_capacities_grow {b old need : Nat} (hb : 0 < b) (hold : b ∣ old)
    (h : old ≤ need) :
    IsLeast (FlatStore.capacities b old need) (old + blocksFor b (need - old) * b) := by
  obtain ⟨hlow, hhigh⟩ := blocksFor_bounds hb (need - old)
  constructor
  · exact ⟨Nat.dvd_add hold (Nat.dvd_mul_left b _), Nat.le_add_right _ _, by omega⟩
  · -- a smaller multiple of `b` lies a whole block lower and misses `need`
    rintro c ⟨hc, _, hneed⟩
    by_contra hlt
    have hdvd : b ∣ old + blocksFor b (need - old) * b - c :=
      Nat.dvd_sub (Nat.dvd_add hold (Nat.dvd_mul_left b _)) hc
    have hgap := Nat.le_of_dvd (by omega) hdvd
    omega

/-- The state after `addCapacity` had to append `count` blocks. -/
def grown (garbage : Garbage) (count : Nat) (ba : ByteArray) : ByteArray :=
  { ba with
    root := ba.root ++ (List.range count).map fun k => newNode (garbage k) ba.baseSize
    capacity := ba.capacity + count * ba.baseSize
    cur := if ba.getCapacity = 0 then some ba.root.length else ba.cur }

theorem addCapacity_eq_self {ba : ByteArray} (garbage : Garbage) {n : Nat}
    (hfit : n ≤ ba.getCapacity) : addCapacity garbage n ba = ba := by
  rw [addCapacity]
  by_cases hn : n = 0
  · rw [if_pos hn]
  · rw [if_neg hn, if_pos hfit]

theorem addCapacity_eq_grown {ba : ByteArray} (hb : 0 < ba.baseSize) (garbage : Garbage)
    {n : Nat} (hfit : ba.getCapacity < n) :
    addCapacity garbage n ba =
      grown garbage (blocksFor ba.baseSize (n - ba.getCapacity)) ba := by
  have hcount := blocksFor_pos hb (by omega : 0 < n - ba.getCapacity)
  rw [addCapacity, if_neg (by omega)]
  simp only [if_neg (by omega : ¬ n ≤ ba.getCapacity), appendNodes_eq]
  rw [← blocksFor, grown]
  by_cases hfull : ba.getCapacity = 0
  · rw [if_pos hfull, if_pos hfull, follow, if_pos]
    · simp
    · simp only [List.length_append, List.length_map, List.length_range]
      omega
  · rw [if_neg hfull, if_neg hfull]

theorem wellFormed_grown {ba : ByteArray} (h : WellFormed ba) (garbage : Garbage) {count : Nat}
    (hcount : 0 < count) : WellFormed (grown garbage count ba) where
  base_pos := h.base_pos
  blocks := by
    intro node hnode
    rcases List.mem_append.mp hnode with hnode | hnode
    · exact h.blocks node hnode
    · obtain ⟨k, _, rfl⟩ := List.mem_map.mp hnode
      simp [newNode, grown]
  root_pos := by
    have := h.root_pos
    simp only [grown, List.length_append]
    omega
  capacity_eq := by
    simp only [grown, List.length_append, List.length_map, List.length_range, Nat.add_mul,
      h.capacity_eq]
  position_le := h.position_le
  size_le := h.size_le.trans (Nat.le_add_right _ _)
  cur_eq := by
    have hle := h.position_le.trans h.size_le
    simp only [grown, follow, List.length_append, List.length_map, List.length_range,
      Nat.zero_add]
    by_cases hfull : ba.getCapacity = 0
    · -- at a full chain the cursor moves to the first new block
      have hpos : ba.position = ba.root.length * ba.baseSize := by
        rw [← h.capacity_eq]
        rw [getCapacity] at hfull
        omega
      rw [if_pos hfull, hpos, Nat.mul_div_cancel _ h.base_pos, if_pos (by omega)]
    · have hlt : ba.position < ba.capacity := by
        rw [getCapacity] at hfull
        omega
      have hindex := h.index_lt hlt
      rw [if_neg hfull, h.cur_some hlt, if_pos (by omega)]

/-- What `addCapacity` does: it appends `fresh` bytes, keeps the invariant and
grows to the least capacity that holds `n` bytes at the cursor. -/
theorem addCapacity_spec {ba : ByteArray} (h : WellFormed ba) (garbage : Garbage) (n : Nat) :
    ∃ fresh, (addCapacity garbage n ba).memory = ba.memory ++ fresh ∧
      WellFormed (addCapacity garbage n ba) ∧
      (addCapacity garbage n ba).baseSize = ba.baseSize ∧
      (addCapacity garbage n ba).position = ba.position ∧
      (addCapacity garbage n ba).size = ba.size ∧
      (addCapacity garbage n ba).endian = ba.endian ∧
      IsLeast (FlatStore.capacities ba.baseSize ba.capacity (ba.position + n))
        (addCapacity garbage n ba).capacity := by
  have hle := h.position_le.trans h.size_le
  have hdvd : ba.baseSize ∣ ba.capacity := ⟨ba.root.length, by rw [h.capacity_eq, Nat.mul_comm]⟩
  have hcap : ba.getCapacity = ba.capacity - ba.position := rfl
  by_cases hfit : n ≤ ba.getCapacity
  · rw [addCapacity_eq_self garbage hfit]
    exact ⟨[], by simp, h, rfl, rfl, rfl, rfl, isLeast_capacities_self hdvd (by omega)⟩
  · rw [addCapacity_eq_grown h.base_pos garbage (by omega)]
    have hcount := blocksFor_pos h.base_pos (by omega : 0 < n - ba.getCapacity)
    refine ⟨_, List.flatten_append, wellFormed_grown h garbage hcount, rfl, rfl, rfl, rfl, ?_⟩
    have hgrow := isLeast_capacities_grow h.base_pos hdvd (by omega : ba.capacity ≤ ba.position + n)
    rwa [(by omega : ba.position + n - ba.capacity = n - ba.getCapacity)] at hgrow

/-! ## What the calls do -/

/-- `ba'` is `ba` after `buf` was written at the cursor. -/
structure Wrote (ba : ByteArray) (buf : List UInt8) (ba' : ByteArray) : Prop where
  wellFormed : WellFormed ba'
  baseSize_eq : ba'.baseSize = ba.baseSize
  endian_eq : ba'.endian = ba.endian
  position_eq : ba'.position = ba.position + buf.length
  size_eq : ba'.size = max ba.size (ba.position + buf.length)
  capacity_least :
    IsLeast (FlatStore.capacities ba.baseSize ba.capacity (ba.position + buf.length)) ba'.capacity
  memory_eq : ∃ fresh, (ba.memory ++ fresh).length = ba'.capacity ∧
    ba'.memory = splice (ba.memory ++ fresh) ba.position buf

/-- `ba'` is `ba` with only the cursor moved, to `p`. -/
structure Moved (ba : ByteArray) (p : Nat) (ba' : ByteArray) : Prop where
  wellFormed : WellFormed ba'
  baseSize_eq : ba'.baseSize = ba.baseSize
  endian_eq : ba'.endian = ba.endian
  capacity_eq : ba'.capacity = ba.capacity
  memory_eq : ba'.memory = ba.memory
  position_eq : ba'.position = p
  size_eq : ba'.size = max ba.size p

theorem moved_self {ba : ByteArray} (h : WellFormed ba) : Moved ba ba.position ba :=
  ⟨h, rfl, rfl, rfl, rfl, rfl, by rw [Nat.max_eq_left h.position_le]⟩

theorem Moved.trans {ba ba' ba'' : ByteArray} {p q : Nat} (h₁ : Moved ba p ba')
    (h₂ : Moved ba' q ba'') (hpq : p ≤ q) : Moved ba q ba'' :=
  ⟨h₂.wellFormed, h₂.baseSize_eq.trans h₁.baseSize_eq, h₂.endian_eq.trans h₁.endian_eq,
    h₂.capacity_eq.trans h₁.capacity_eq, h₂.memory_eq.trans h₁.memory_eq, h₂.position_eq,
    by rw [h₂.size_eq, h₁.size_eq]; omega⟩

section Calls

variable {ba : ByteArray}

/-- The state `write` leaves when no block is missing. -/
theorem write_of_room (garbage : Garbage) {buf : List UInt8}
    (hbuf : 0 < buf.length) {grown : ByteArray} (hgrown : addCapacity garbage buf.length ba = grown)
    (hwf : WellFormed grown) (hfit : grown.position + buf.length ≤ grown.capacity) :
    ∃ ba', write garbage buf ba = .ok () ba' ∧ WellFormed ba' ∧
      ba'.baseSize = grown.baseSize ∧ ba'.endian = grown.endian ∧
      ba'.position = grown.position + buf.length ∧
      ba'.size = max grown.size (grown.position + buf.length) ∧
      ba'.capacity = grown.capacity ∧
      ba'.memory = splice grown.memory grown.position buf := by
  have hlt : grown.position < grown.capacity := by omega
  have hindex := hwf.index_lt hlt
  let i := grown.position / grown.baseSize
  have hdm := Nat.div_add_mod' grown.position grown.baseSize
  obtain ⟨blocks, hloop, hflat, hlen, hlens⟩ :=
    writeLoop_spec hwf.base_pos
      (fun n (hn : n ∈ grown.root.drop i) => hwf.blocks n (List.mem_of_mem_drop hn))
      (Nat.mod_lt grown.position hwf.base_pos) buf
      (Or.inl (by rw [List.length_drop]; exact room_from_cursor hwf buf.length hfit))
  have hrootLen : (grown.root.take i ++ blocks).length = grown.root.length := by
    rw [List.length_append, hlen, List.length_take, List.length_drop]
    omega
  have hmemory : (grown.root.take i ++ blocks).flatten
      = splice grown.memory grown.position buf := by
    rw [List.flatten_append, hflat, splice_from_block hwf.blocks (by omega), hdm]
  refine ⟨{ grown with
      root := grown.root.take i ++ blocks
      cur := follow grown.root i ((grown.position % grown.baseSize + buf.length) / grown.baseSize)
      position := grown.position + buf.length
      size := max grown.size (grown.position + buf.length) }, ?_, ?_, rfl, rfl, rfl, rfl, rfl, ?_⟩
  · rw [write]
    simp only [if_neg (by omega : ¬ buf.length = 0), modify_bind, hgrown]
    rw [derefCur_bind (hwf.cur_some hlt), get_bind, guarded_bind hloop]
    simp only [modify_bind, modify_apply]
    congr 1
    by_cases hgrow : grown.size < grown.position + buf.length
    · rw [if_pos hgrow, Nat.max_eq_right (by omega)]
    · rw [if_neg hgrow, Nat.max_eq_left (by omega)]
  · refine ⟨hwf.base_pos, ?_, ?_, ?_, Nat.le_max_right _ _, Nat.max_le.mpr ⟨hwf.size_le, hfit⟩, ?_⟩
    · intro node hnode
      rcases List.mem_append.mp hnode with hnode | hnode
      · exact hwf.blocks node (List.mem_of_mem_take hnode)
      · exact hlens node hnode
    · rw [hrootLen]; exact hwf.root_pos
    · rw [hrootLen]; exact hwf.capacity_eq
    · rw [follow_add, index_advance hwf.base_pos, follow_of_length hrootLen.symm]
  · exact hmemory

/-- `write` never throws, and it overwrites exactly the window at the cursor. -/
theorem write_spec (h : WellFormed ba) (garbage : Garbage) (buf : List UInt8) :
    ∃ ba', write garbage buf ba = .ok () ba' ∧ Wrote ba buf ba' := by
  by_cases hbuf : buf.length = 0
  · have hnil : buf = [] := List.length_eq_zero_iff.mp hbuf
    subst hnil
    have hle := h.position_le
    have hdvd : ba.baseSize ∣ ba.capacity :=
      ⟨ba.root.length, by rw [h.capacity_eq, Nat.mul_comm]⟩
    refine ⟨ba, rfl, h, rfl, rfl, rfl, ?_, ?_, [], by simp [h.memory_length]⟩
    · rw [List.length_nil, Nat.max_eq_left (by omega)]
    · exact isLeast_capacities_self hdvd (by have := h.size_le; simp only [List.length_nil]; omega)
  · obtain ⟨fresh, hmem, hwf, hbase, hpos, hsize, hendian, hleast⟩ :=
      addCapacity_spec h garbage buf.length
    have hroom : (addCapacity garbage buf.length ba).position + buf.length
        ≤ (addCapacity garbage buf.length ba).capacity := by
      rw [hpos]
      exact hleast.1.2.2
    obtain ⟨ba', hrun, hwf', hbase', hendian', hpos', hsize', hcap', hmem'⟩ :=
      write_of_room garbage (by omega) rfl hwf hroom
    refine ⟨ba', hrun, hwf', hbase'.trans hbase, hendian'.trans hendian, ?_, ?_, ?_, fresh, ?_, ?_⟩
    · rw [hpos', hpos]
    · rw [hsize', hsize, hpos]
    · rw [hcap']; exact hleast
    · rw [← hmem, hwf.memory_length, hcap']
    · rw [hmem', hmem, hpos]

theorem read_throws (n : Nat) (hn : ba.getReadSize < n) :
    read n ba = .error (.outOfRange "not enough len") ba := by
  rw [read]
  simp only [get_bind, if_pos hn, throw_bind]

theorem readLoop_at_cursor (h : WellFormed ba) {n : Nat} (hfit : ba.position + n ≤ ba.capacity) :
    readLoop (ba.root.drop (ba.position / ba.baseSize)) (ba.position % ba.baseSize) n =
      .ok (slice ba.memory ba.position n, (ba.position % ba.baseSize + n) / ba.baseSize) := by
  have hdm := Nat.div_add_mod' ba.position ba.baseSize
  have hindex : ba.position / ba.baseSize ≤ ba.root.length := by
    apply Nat.div_le_of_le_mul
    rw [Nat.mul_comm, ← h.capacity_eq]
    omega
  rw [readLoop_spec h.base_pos (fun n hn => h.blocks n (List.mem_of_mem_drop hn))
      (Nat.mod_lt _ h.base_pos) n
      (Or.inl (by rw [List.length_drop]; exact room_from_cursor h n hfit)),
    slice_from_block h.blocks hindex, hdm]

/-- The object with the cursor at `p`, counting the bytes before `p` as written. -/
def movedTo (ba : ByteArray) (p : Nat) : ByteArray :=
  { ba with
    position := p
    size := max ba.size p
    cur := follow ba.root 0 (p / ba.baseSize) }

theorem movedTo_position (h : WellFormed ba) : movedTo ba ba.position = ba := by
  rw [movedTo, Nat.max_eq_left h.position_le, ← h.cur_eq]

theorem moved_movedTo (h : WellFormed ba) {p : Nat} (hp : p ≤ ba.capacity) :
    Moved ba p (movedTo ba p) where
  wellFormed :=
    ⟨h.base_pos, h.blocks, h.root_pos, h.capacity_eq, Nat.le_max_right _ _,
      Nat.max_le.mpr ⟨h.size_le, hp⟩, rfl⟩
  baseSize_eq := rfl
  endian_eq := rfl
  capacity_eq := rfl
  memory_eq := rfl
  position_eq := rfl
  size_eq := rfl

theorem read_eq (h : WellFormed ba) {n : Nat} (hpos : 1 ≤ n) (hn : n ≤ ba.getReadSize) :
    read n ba = .ok (slice ba.memory ba.position n) (movedTo ba (ba.position + n)) := by
  have hle := h.position_le
  have hsize := h.size_le
  have hread : ba.getReadSize = ba.size - ba.position := rfl
  rw [read]
  simp only [get_bind, if_neg (by omega : ¬ ba.getReadSize < n)]
  rw [derefCur_bind (h.cur_some (by omega)),
    guarded_bind (readLoop_at_cursor h (by omega))]
  simp only [modify_bind, pure_apply]
  rw [follow_add, index_advance h.base_pos, movedTo,
    Nat.max_eq_left (by omega : ba.position + n ≤ ba.size)]

theorem read_spec (h : WellFormed ba) {n : Nat} (hpos : 1 ≤ n) (hn : n ≤ ba.getReadSize) :
    ∃ ba', read n ba = .ok (slice ba.memory ba.position n) ba' ∧
      Moved ba (ba.position + n) ba' := by
  have hsize := h.size_le
  have hread : ba.getReadSize = ba.size - ba.position := rfl
  exact ⟨_, read_eq h hpos hn, moved_movedTo h (by omega)⟩

theorem setPosition_throws {v : Nat} (hv : ba.capacity < v) :
    setPosition v ba = .error (.outOfRange "set_position out of range") ba := by
  rw [setPosition]
  simp only [get_bind, if_pos hv, throw_bind]

theorem setPosition_eq (h : WellFormed ba) {v : Nat} (hv : v ≤ ba.capacity) :
    setPosition v ba = .ok () (movedTo ba v) := by
  have hne : ba.root ≠ [] := List.length_pos_iff.mp h.root_pos
  rw [setPosition]
  simp only [get_bind, if_neg (by omega : ¬ ba.capacity < v), modify_bind]
  rw [guarded_bind (seekLoop_spec h.base_pos h.blocks hne (by rw [← h.capacity_eq]; exact hv))]
  simp only [modify_apply, movedTo]
  congr 1
  by_cases hgrow : ba.size < v
  · rw [if_pos hgrow, Nat.max_eq_right (by omega)]
  · rw [if_neg hgrow, Nat.max_eq_left (by omega)]

theorem setPosition_spec (h : WellFormed ba) {v : Nat} (hv : v ≤ ba.capacity) :
    ∃ ba', setPosition v ba = .ok () ba' ∧ Moved ba v ba' :=
  ⟨_, setPosition_eq h hv, moved_movedTo h hv⟩

theorem clear_spec (h : WellFormed ba) :
    ∃ ba', clear ba = .ok () ba' ∧ WellFormed ba' ∧ ba'.baseSize = ba.baseSize ∧
      ba'.endian = ba.endian ∧
      ba'.flat = { mem := ba.memory.take ba.baseSize, pos := 0, size := 0 } := by
  have hlen : (ba.root.take 1).length = 1 := by
    rw [List.length_take, Nat.min_eq_left h.root_pos]
  have hflat := flatten_take h.blocks (i := 1) h.root_pos
  refine ⟨_, rfl, ⟨h.base_pos, fun n hn => h.blocks n (List.mem_of_mem_take hn), ?_, ?_,
    Nat.le_refl _, Nat.zero_le _, ?_⟩, rfl, rfl, ?_⟩
  · change 0 < (ba.root.take 1).length
    omega
  · change ba.baseSize = (ba.root.take 1).length * ba.baseSize
    rw [hlen, Nat.one_mul]
  · change some 0 = follow (ba.root.take 1) 0 (0 / ba.baseSize)
    rw [follow, hlen, Nat.zero_div, if_pos (by omega)]
  · change FlatStore.mk (ba.root.take 1).flatten 0 0 = _
    rw [Nat.one_mul] at hflat
    rw [memory_eq_take_drop ba 1, List.take_left' hflat]

theorem toString_spec (h : WellFormed ba) :
    toString ba = .ok (slice ba.memory ba.position (ba.size - ba.position)) ba := by
  have hle := h.position_le
  have hsize := h.size_le
  have hread : ba.getReadSize = ba.size - ba.position := rfl
  rw [toString]
  simp only [get_bind]
  by_cases hempty : ba.getReadSize = 0
  · rw [if_pos hempty, (by omega : ba.size - ba.position = 0), slice_zero]
    rfl
  · rw [if_neg hempty, readAt]
    simp only [get_bind, if_neg (Nat.lt_irrefl ba.getReadSize)]
    rw [derefCur_bind (h.cur_some (by omega)),
      guarded_bind (readLoop_at_cursor h (by omega))]
    rfl

end Calls

/-! ## The simulation -/

theorem wellFormed_new (garbage : Garbage) {base : Nat} (hbase : 1 ≤ base) :
    WellFormed (new garbage base) where
  base_pos := hbase
  blocks := by simp [new, newNode]
  root_pos := by simp [new]
  capacity_eq := by simp [new]
  position_le := Nat.le_refl _
  size_le := Nat.zero_le _
  cur_eq := by simp [new, follow]

theorem Moved.flat_eq {ba ba' : ByteArray} {p : Nat} (h : Moved ba p ba') :
    ba'.flat = { mem := ba.memory, pos := p, size := max ba.size p } := by
  rw [flat, h.memory_eq, h.position_eq, h.size_eq]

theorem Wrote.step {ba ba' : ByteArray} {buf : List UInt8} (h : WellFormed ba)
    (hw : Wrote ba buf ba') (garbage : Garbage) :
    FlatStore.Step ba.baseSize ba.flat (.write garbage buf, .done) ba'.flat := by
  obtain ⟨fresh, hcap, hmem⟩ := hw.memory_eq
  have hlen := h.memory_length
  have hle := h.position_le.trans h.size_le
  have hlen' := hw.wellFormed.memory_length
  have hroom : ba.position + buf.length ≤ (ba.memory ++ fresh).length := by
    rw [hcap]
    exact hw.capacity_least.1.2.2
  refine ⟨rfl, hw.position_eq, hw.size_eq, ?_, ?_, ?_⟩
  · change IsLeast (FlatStore.capacities ba.baseSize ba.memory.length _) ba'.memory.length
    rw [hlen, hlen']
    exact hw.capacity_least
  · change slice ba'.memory ba.position buf.length = buf
    rw [hmem, slice_splice_same _ _ _ hroom]
  · intro i hi hout
    change ba'.memory[i]? = ba.memory[i]?
    have hi' : i < ba.memory.length := hi
    have hout' : i < ba.position ∨ ba.position + buf.length ≤ i := hout
    rw [hmem, getElem?_splice _ _ _ _ hroom, if_neg (by omega), List.getElem?_append_left hi']

/-- One call, from a well-formed block list: what the client sees is a step of
the flat store, and a throw changes no field. -/
theorem exec_refines {ba : ByteArray} (h : WellFormed ba) (op : Op) :
    WellFormed (exec ba op).2 ∧ (exec ba op).2.baseSize = ba.baseSize ∧
      FlatStore.Step ba.baseSize ba.flat (op, (exec ba op).1) (exec ba op).2.flat ∧
      ∀ e, (exec ba op).1 = .fault e → (exec ba op).2 = ba := by
  have hread : ba.getReadSize = ba.size - ba.position := rfl
  cases op with
  | write garbage buf =>
      obtain ⟨ba', hrun, hw⟩ := write_spec h garbage buf
      simp only [exec, hrun, exec.report]
      exact ⟨hw.wellFormed, hw.baseSize_eq, hw.step h garbage, by simp⟩
  | read n hn =>
      by_cases hfit : n ≤ ba.getReadSize
      · obtain ⟨ba', hrun, hm⟩ := read_spec h hn hfit
        have hmax : max ba.size (ba.position + n) = ba.size := by
          have := h.position_le
          omega
        simp only [exec, hrun, exec.report]
        refine ⟨hm.wellFormed, hm.baseSize_eq, ⟨fun hlt => absurd hlt ?_, fun _ => ⟨rfl, ?_⟩⟩,
          by simp⟩
        · exact Nat.not_lt.mpr hfit
        · rw [hm.flat_eq, hmax]
          rfl
      · simp only [exec, read_throws n (Nat.lt_of_not_le hfit), exec.report]
        exact ⟨h, trivial, ⟨fun _ => ⟨rfl, rfl⟩, fun hle => absurd hle hfit⟩, fun _ _ => trivial⟩
  | setPosition v =>
      by_cases hv : v ≤ ba.capacity
      · obtain ⟨ba', hrun, hm⟩ := setPosition_spec h hv
        simp only [exec, hrun, exec.report]
        refine ⟨hm.wellFormed, hm.baseSize_eq, ⟨fun hlt => ?_, fun _ => ⟨rfl, hm.flat_eq⟩⟩, by simp⟩
        have hlen : ba.memory.length < v := hlt
        rw [h.memory_length] at hlen
        omega
      · simp only [exec, setPosition_throws (Nat.lt_of_not_le hv), exec.report]
        refine ⟨h, trivial, ⟨fun _ => ⟨rfl, rfl⟩, fun hle => absurd ?_ hv⟩, fun _ _ => trivial⟩
        rw [← h.memory_length]
        exact hle
  | clear =>
      obtain ⟨ba', hrun, hwf, hbase, _, hflat⟩ := clear_spec h
      simp only [exec, hrun, exec.report]
      exact ⟨hwf, hbase, ⟨rfl, hflat⟩, by simp⟩
  | toString =>
      simp only [exec, toString_spec h, exec.report]
      exact ⟨h, trivial, ⟨rfl, rfl⟩, fun _ _ => trivial⟩

/-- Every run of calls keeps the invariant and is a run of the flat store. -/
theorem runOps_refines {ba : ByteArray} (h : WellFormed ba) (ops : List Op) :
    WellFormed (runOps ba ops).2 ∧ (runOps ba ops).2.baseSize = ba.baseSize ∧
      Run (FlatStore.Step ba.baseSize) ba.flat (runOps ba ops).1 (runOps ba ops).2.flat := by
  induction ops generalizing ba with
  | nil => exact ⟨h, rfl, .nil _⟩
  | cons op ops ih =>
      obtain ⟨hwf, hbase, hstep, _⟩ := exec_refines h op
      obtain ⟨hwf', hbase', hrun⟩ := ih hwf
      rw [hbase] at hrun hbase'
      exact ⟨hwf', hbase', .cons hstep hrun⟩

/-- From a fresh `ByteArray`, any sequence of calls behaves as on one flat
memory, and the block pointers stay consistent with the position. -/
theorem runOps_simulates_flatStore (garbage : Garbage) {base : Nat} (hbase : 1 ≤ base)
    (ops : List Op) :
    let start := new garbage base
    let last := (runOps start ops).2
    Run (FlatStore.Step base) start.flat (runOps start ops).1 last.flat ∧
      start.memory.length = base ∧ start.position = 0 ∧ start.size = 0 ∧
      last.memory.length = last.capacity ∧
      last.position ≤ last.size ∧ last.size ≤ last.capacity ∧
      last.cur = (if last.position < last.capacity then some (last.position / base) else none) ∧
      ∀ op e, (exec last op).1 = .fault e → (exec last op).2 = last := by
  intro start last
  have hstart : WellFormed start := wellFormed_new garbage hbase
  obtain ⟨hwf, hbaseEq, hrun⟩ := runOps_refines hstart ops
  have hcur := hwf.cur_cases
  rw [hbaseEq] at hcur
  refine ⟨hrun, hstart.memory_length, rfl, rfl, hwf.memory_length, hwf.position_le, hwf.size_le,
    hcur, ?_⟩
  exact fun op => (exec_refines hwf op).2.2.2

/-- A run over three blocks of two bytes that ends in the middle of the second. -/
theorem runOps_simulates_flatStore_two :
    let start := new (fun _ _ => 0) 2
    let ops := [.write (fun _ _ => 0) [1, 2, 3, 4, 5], .setPosition 1, .read 2 (by decide)]
    Run (FlatStore.Step 2) start.flat (runOps start ops).1 (runOps start ops).2.flat ∧
      (runOps start ops).2.cur = some 1 :=
  have h := runOps_simulates_flatStore (fun _ _ => 0) (by decide : 1 ≤ 2)
    [.write (fun _ _ => 0) [1, 2, 3, 4, 5], .setPosition 1, .read 2 (by decide)]
  ⟨h.1, h.2.2.2.2.2.2.2.1.trans rfl⟩

end Lyslg.ByteArray
