import Lyslg.ByteArray.Strings
import Lyslg.Support.Machine
/-!
# Saving to a file and loading from one

`writeToFile` writes one piece from each block.  It takes the offset off the
remaining length instead of off the block, so a short rest that starts inside a
block goes wrong.  `readFromFile` is a sequence of writes.
-/

namespace Lyslg.ByteArray

open Support.Memory Support.State Support.Machine

/-- The loop of `writeToFile` over the chain from block `i` on: the pieces handed to
`ofs.write` and what the file holds then.  A write that starts before its block,
runs over its end or has a negative length is out of bounds. -/
def fileLoop (baseSize : Nat) :
    List Block → Nat → Nat → Nat → Except Fault (List IoVec × List UInt8)
  | _, _, _, 0 => .ok ([], [])
  | [], _, _, _ + 1 => .error .nullBlock
  | node :: next, i, pos, n + 1 =>
      let readSize := n + 1
      let diff := int32 (pos % baseSize : Nat)
      let len : Int := (if baseSize < readSize then baseSize else readSize : Nat) - diff
      if diff < 0 ∨ len < 0 then .error .outOfBounds
      else do
        let bytes ← load node diff.toNat len.toNat
        let (pieces, file) ← fileLoop baseSize next (i + 1) (pos + len.toNat) (readSize - len.toNat)
        return (⟨i, diff.toNat, len.toNat⟩ :: pieces, bytes ++ file)

/-- `ByteArray::writeToFile`: `none` when the file cannot be opened. -/
def writeToFile (opens : Bool) : Call (Option (List IoVec × List UInt8)) := do
  if !opens then
    return none
  let ba ← get
  let blocks := match ba.cur with
    | none => []
    | some i => ba.root.drop i
  let i := ba.cur.getD ba.root.length
  let written ← guarded (fileLoop ba.baseSize blocks i ba.position ba.getReadSize)
  return some written

/-- The loop of `readFromFile`, of at most `passes` passes: whether it saw the end of
the file.  `ifs.read` meets the end when it cannot fill the buffer. -/
def readFileLoop (garbage : Nat → Garbage) : Nat → List UInt8 → Call Bool
  | 0, _ => return false
  | passes + 1, file => do
      let ba ← get
      let buff := file.take ba.baseSize
      write (garbage passes) buff
      if buff.length < ba.baseSize then
        return true
      else
        readFileLoop garbage passes (file.drop ba.baseSize)

/-- `ByteArray::readFromFile`, when `passes` passes of its loop are enough. -/
def readFromFile (garbage : Nat → Garbage) (passes : Nat) (file : Option (List UInt8)) :
    Call (Option Bool) :=
  match file with
  | none => return some false
  | some file => do
      let atEnd ← readFileLoop garbage passes file
      return if atEnd then some true else none

/-! ## Saving -/

/-- The file holds the readable bytes, in pieces that run through them in order. -/
def Saves (ba : ByteArray) : Prop :=
  ∃ pieces, writeToFile true ba = .ok (some (pieces, ba.readable)) ba ∧
    Contiguous ba.baseSize ba.position pieces ∧ totalLen pieces = ba.getReadSize

section Blocks

variable {b : Nat} {blocks : List Block}

/-- One pass of the loop: a piece of `min b readSize` bytes less the offset. -/
theorem fileLoop_pass {node : Block} {next : List Block} (hnode : node.length = b)
    (i pos readSize k : Nat) (hread : 0 < readSize) (hoff : pos % b < 2 ^ 31)
    (hk : pos % b + k = min b readSize) :
    fileLoop b (node :: next) i pos readSize = (do
      let (pieces, file) ← fileLoop b next (i + 1) (pos + k) (readSize - k)
      return (⟨i, pos % b, k⟩ :: pieces, slice node (pos % b) k ++ file)) := by
  obtain ⟨n, rfl⟩ : ∃ n, readSize = n + 1 := ⟨readSize - 1, by omega⟩
  have hmin : (if b < n + 1 then b else n + 1 : Nat) = min b (n + 1) := by
    split <;> omega
  have hlen : ((min b (n + 1) : Nat) : Int) - (pos % b : Nat) = k := by omega
  rw [fileLoop]
  simp only [int32_natCast hoff, hmin, hlen, Int.toNat_natCast]
  rw [if_neg (by omega), load_of_le (by omega)]
  rfl

/-- From offset `off` of block `i` on, the loop writes the next `readSize` bytes. -/
def SavesFrom (b : Nat) (blocks : List Block) (i off readSize : Nat) : Prop :=
  ∃ pieces, fileLoop b blocks i (i * b + off) readSize =
    .ok (pieces, slice blocks.flatten off readSize) ∧
    Contiguous b (i * b + off) pieces ∧ totalLen pieces = readSize

theorem savesFrom_zero (i off : Nat) : SavesFrom b blocks i off 0 :=
  ⟨[], by rw [fileLoop, slice_zero], trivial, rfl⟩

/-- A pass that takes the rest of its block. -/
theorem SavesFrom.fill {node : Block} {next : List Block} (hnode : node.length = b)
    {i off readSize : Nat}
    (hoff : off < b) (hint : off < 2 ^ 31) (hread : b ≤ readSize)
    (h : SavesFrom b next (i + 1) 0 (readSize - (b - off))) :
    SavesFrom b (node :: next) i off readSize := by
  obtain ⟨pieces, hloop, hcont, htotal⟩ := h
  have hmod : (i * b + off) % b = off := by
    rw [Nat.mul_add_mod_self_right, Nat.mod_eq_of_lt hoff]
  have hnext : (i + 1) * b + 0 = i * b + off + (b - off) := by
    rw [Nat.add_mul, Nat.one_mul]
    omega
  have hpass :=
    @fileLoop_pass b node next hnode i (i * b + off) readSize (b - off) (by omega) (by omega)
    (by omega)
  rw [hnext] at hloop hcont
  rw [hmod, hloop] at hpass
  refine ⟨⟨i, off, b - off⟩ :: pieces, hpass.trans ?_, ⟨rfl, by simp only; omega, hcont⟩, ?_⟩
  · rw [List.flatten_cons, slice_append_straddle _ _ _ _ (by omega) (by omega), hnode]
    rfl
  · have hsum : totalLen (⟨i, off, b - off⟩ :: pieces) = b - off + totalLen pieces := by
      simp [totalLen]
    rw [hsum, htotal]
    omega

/-- From a block boundary on every piece is right. -/
theorem savesFrom_boundary (hb : 0 < b) (hblocks : ∀ node ∈ blocks, node.length = b) (i : Nat)
    {readSize : Nat} (hfit : readSize ≤ blocks.length * b) : SavesFrom b blocks i 0 readSize := by
  induction blocks generalizing i readSize with
  | nil =>
      obtain rfl : readSize = 0 := by simpa using hfit
      exact savesFrom_zero i 0
  | cons node next ih =>
      have hnode := hblocks node (by simp)
      rw [List.length_cons, Nat.add_mul, Nat.one_mul] at hfit
      by_cases hzero : readSize = 0
      · subst hzero
        exact savesFrom_zero i 0
      · by_cases hread : b ≤ readSize
        · have hnext := ih (fun n hn => hblocks n (by simp [hn])) (i + 1)
            (by omega : readSize - (b - 0) ≤ next.length * b)
          exact SavesFrom.fill hnode hb (by omega) hread hnext
        · -- the last piece, shorter than its block
          have hmod : (i * b + 0) % b = 0 := by rw [Nat.add_zero, Nat.mul_mod_left]
          have hpass := @fileLoop_pass b node next hnode i (i * b + 0) readSize readSize (by omega)
            (by omega) (by omega)
          rw [hmod, Nat.sub_self, fileLoop] at hpass
          refine ⟨[⟨i, 0, readSize⟩], hpass.trans ?_, ⟨rfl, by simp only; omega, trivial⟩,
            by simp [totalLen]⟩
          rw [List.flatten_cons, slice_append_left _ _ _ _ (by omega)]
          simp only [ok_bind, List.append_nil]
          rfl

/-- A pass that returned, taken apart. -/
theorem fileLoop_inv {i pos readSize : Nat} {pieces : List IoVec} {file : List UInt8}
    (hread : 0 < readSize) (hloop : fileLoop b blocks i pos readSize = .ok (pieces, file)) :
    ∃ next v rest file', pieces = v :: rest ∧ v.block = i ∧
      (v.offset : Int) = int32 (pos % b : Nat) ∧ v.offset + v.len = min b readSize ∧
      fileLoop b next (i + 1) (pos + v.len) (readSize - v.len) = .ok (rest, file') := by
  obtain ⟨n, rfl⟩ : ∃ n, readSize = n + 1 := ⟨readSize - 1, by omega⟩
  have hmin : (if b < n + 1 then b else n + 1 : Nat) = min b (n + 1) := by
    split <;> omega
  cases blocks with
  | nil =>
      rw [fileLoop] at hloop
      cases hloop
  | cons node next =>
      rw [fileLoop] at hloop
      simp only [hmin] at hloop
      by_cases hbad : int32 (pos % b : Nat) < 0 ∨ ((min b (n + 1) : Nat) : Int) - int32
        (pos % b : Nat) < 0
      · rw [if_pos hbad] at hloop
        cases hloop
      · rw [if_neg hbad] at hloop
        obtain ⟨bytes, _, hloop⟩ := ok_of_bind hloop
        obtain ⟨⟨rest, file'⟩, hrest, hloop⟩ := ok_of_bind hloop
        cases hloop
        refine ⟨next, _, rest, file', rfl, rfl, ?_, ?_, hrest⟩
        · simp only
          omega
        · simp only
          omega

/-- The first piece stands at the offset of the position only while that fits an
`int`, and a rest of less than a block that starts inside one is cut short. -/
theorem fileLoop_contiguous_inv {i off readSize : Nat} {pieces : List IoVec}
    {file : List UInt8} (hread : 0 < readSize)
    (hloop : fileLoop b blocks i (i * b + off) readSize = .ok (pieces, file))
    (hcont : Contiguous b (i * b + off) pieces) : off < 2 ^ 31 ∧ (off = 0 ∨ b ≤ readSize) := by
  obtain ⟨next, v, rest, file', rfl, hblock, hdiff, hlen, hrest⟩ := fileLoop_inv hread hloop
  obtain ⟨haddr, _, hcont'⟩ := hcont
  rw [hblock] at haddr
  have hint := (int32_range ((i * b + off) % b : Nat)).2
  generalize int32 ((i * b + off) % b : Nat) = diff at hdiff hint
  have hoffset : v.offset = off := by omega
  refine ⟨by omega, ?_⟩
  by_contra hshort
  -- the next piece would have to stand in the next block, behind a gap
  obtain ⟨next', v', rest', file'', rfl, hblock', -, -, -⟩ :=
    fileLoop_inv (by omega : 0 < readSize - v.len) hrest
  obtain ⟨haddr', _, _⟩ := hcont'
  rw [hblock', Nat.add_mul, Nat.one_mul] at haddr'
  omega

end Blocks

section Calls

variable {ba : ByteArray}

/-- The loop starts in the block of the position, also behind the last block. -/
theorem writeToFile_eq (h : WellFormed ba) :
    writeToFile true ba =
      (do
        let written ← guarded (fileLoop ba.baseSize (ba.root.drop (ba.position / ba.baseSize))
          (ba.position / ba.baseSize) ba.position ba.getReadSize)
        return some written : Call (Option (List IoVec × List UInt8))) ba := by
  have hle := h.position_le.trans h.size_le
  have hcur := h.cur_cases
  by_cases hlt : ba.position < ba.capacity
  · rw [if_pos hlt] at hcur
    simp only [writeToFile, Bool.not_true, Bool.false_eq_true, if_false, get_bind, hcur,
      Option.getD_some]
  · have hend : ba.position / ba.baseSize = ba.root.length := by
      rw [(by omega : ba.position = ba.capacity), h.capacity_eq, Nat.mul_div_cancel _ h.base_pos]
    rw [if_neg hlt] at hcur
    simp only [writeToFile, Bool.not_true, Bool.false_eq_true, if_false, get_bind, hcur,
      Option.getD_none, hend, List.drop_length]

/-- What is saved is what was promised exactly from a block boundary on, or with at
least a block to go and an offset that fits an `int`. -/
theorem saves_iff (h : WellFormed ba) :
    Saves ba ↔ ba.getReadSize = 0 ∨ ba.position % ba.baseSize = 0 ∨
      ba.position % ba.baseSize < 2 ^ 31 ∧ ba.baseSize ≤ ba.getReadSize := by
  have hcap := h.size_le
  have hle := h.position_le
  have hread : ba.getReadSize = ba.size - ba.position := rfl
  have hdm := Nat.div_add_mod' ba.position ba.baseSize
  have hmod := Nat.mod_lt ba.position h.base_pos
  have hindex : ba.position / ba.baseSize ≤ ba.root.length := by
    apply Nat.div_le_of_le_mul
    rw [Nat.mul_comm, ← h.capacity_eq]
    omega
  have hslice := slice_from_block h.blocks hindex (ba.position % ba.baseSize) ba.getReadSize
  have hreadable : ba.readable = slice ba.memory ba.position ba.getReadSize := rfl
  rw [hdm, ← hreadable] at hslice
  have hfit := room_from_cursor h ba.getReadSize (by omega)
  rw [← List.length_drop] at hfit
  have hblocks : ∀ node ∈ ba.root.drop (ba.position / ba.baseSize), node.length = ba.baseSize :=
    fun node hnode => h.blocks node (List.mem_of_mem_drop hnode)
  have hsaves : SavesFrom ba.baseSize (ba.root.drop (ba.position / ba.baseSize))
      (ba.position / ba.baseSize) (ba.position % ba.baseSize) ba.getReadSize → Saves ba := by
    rintro ⟨pieces, hloop, hcont, htotal⟩
    rw [hdm, hslice] at hloop
    rw [hdm] at hcont
    refine ⟨pieces, ?_, hcont, htotal⟩
    rw [writeToFile_eq h, guarded_bind hloop, pure_apply]
  constructor
  · rintro ⟨pieces, hrun, hcont, htotal⟩
    by_cases hzero : ba.getReadSize = 0
    · exact Or.inl hzero
    · rw [writeToFile_eq h] at hrun
      obtain ⟨written, ba', hloop, hrun⟩ := bind_inv hrun
      cases hrun
      have hwritten : fileLoop ba.baseSize (ba.root.drop (ba.position / ba.baseSize))
          (ba.position / ba.baseSize)
          (ba.position / ba.baseSize * ba.baseSize + ba.position % ba.baseSize) ba.getReadSize
            = .ok (pieces, ba.readable) := by
        rw [hdm]
        exact guarded_inv hloop
      rw [← hdm] at hcont
      obtain ⟨hint, hshape⟩ := fileLoop_contiguous_inv (Nat.pos_of_ne_zero hzero) hwritten hcont
      exact Or.inr (hshape.imp id fun hlong => ⟨hint, hlong⟩)
  · rintro (hzero | hoff | ⟨hint, hlong⟩)
    · apply hsaves
      rw [hzero]
      exact savesFrom_zero _ _
    · apply hsaves
      rw [hoff] at hfit ⊢
      exact savesFrom_boundary h.base_pos hblocks _ (by omega)
    · apply hsaves
      obtain ⟨node, next, hnext⟩ : ∃ node next,
          ba.root.drop (ba.position / ba.baseSize) = node :: next := by
        cases hdrop : ba.root.drop (ba.position / ba.baseSize) with
        | nil =>
            rw [hdrop, List.length_nil, Nat.zero_mul] at hfit
            omega
        | cons node next => exact ⟨node, next, rfl⟩
      rw [hnext] at hfit hblocks ⊢
      rw [List.length_cons, Nat.add_mul, Nat.one_mul] at hfit
      exact SavesFrom.fill (hblocks node (by simp)) hmod hint hlong
        (savesFrom_boundary h.base_pos (fun n hn => hblocks n (by simp [hn])) _ (by omega))

end Calls

/-! ## Loading -/

theorem readFileLoop_spec {ba : ByteArray} (h : WellFormed ba) (garbage : Nat → Garbage)
    {passes : Nat} {file : List UInt8} (hpasses : file.length < passes * ba.baseSize) :
    ∃ ba', readFileLoop garbage passes file ba = .ok true ba' ∧ Wrote ba file ba' := by
  induction passes generalizing ba file with
  | zero => omega
  | succ passes ih =>
      obtain ⟨ba₁, hrun, hw⟩ := write_spec h (garbage passes) (file.take ba.baseSize)
      have hlen : (file.take ba.baseSize).length = min ba.baseSize file.length := List.length_take
      rw [readFileLoop, get_bind, bind_ok hrun]
      by_cases heof : (file.take ba.baseSize).length < ba.baseSize
      · rw [if_pos heof]
        rw [List.take_of_length_le (by omega)] at hw
        exact ⟨ba₁, rfl, hw⟩
      · have hrest : (file.drop ba.baseSize).length = file.length - ba.baseSize := List.length_drop
        rw [Nat.add_mul, Nat.one_mul] at hpasses
        have hpasses' : (file.drop ba.baseSize).length < passes * ba₁.baseSize := by
          rw [hw.baseSize_eq]
          omega
        obtain ⟨ba₂, hloop, hw'⟩ := ih hw.wellFormed hpasses'
        have hall := hw.trans hw'
        rw [List.take_append_drop] at hall
        rw [if_neg heof]
        exact ⟨ba₂, hloop, hall⟩

/-- Loading `file` has the effect of one write of its bytes. -/
def LoadsAsWrite (ba : ByteArray) (file : List UInt8) : Prop :=
  ∀ garbage garbage' passes, file.length < passes * ba.baseSize →
    ∃ loaded written, readFromFile garbage passes (some file) ba = .ok (some true) loaded ∧
      write garbage' file ba = .ok () written ∧
      Agrees loaded written ∧ loaded.capacity = written.capacity ∧
      loaded.baseSize = written.baseSize ∧ loaded.endian = written.endian

theorem loadsAsWrite {ba : ByteArray} (h : WellFormed ba) (file : List UInt8) :
    LoadsAsWrite ba file := by
  intro garbage garbage' passes hpasses
  obtain ⟨loaded, hload, hloaded⟩ := readFileLoop_spec h garbage hpasses
  obtain ⟨written, hwrite, hwritten⟩ := write_spec h garbage' file
  refine ⟨loaded, written, ?_, hwrite, hloaded.filled.agrees h hwritten.filled,
    hloaded.capacity_least.unique hwritten.capacity_least,
    hloaded.baseSize_eq.trans hwritten.baseSize_eq.symm,
    hloaded.endian_eq.trans hwritten.endian_eq.symm⟩
  rw [readFromFile, bind_ok hload, if_pos rfl]
  rfl

/-- Loading always has the effect of a write.  The file it loads holds the readable
bytes, in proper pieces, exactly when there are none, when the position is at a block
boundary, or when a whole block is left behind an offset that fits an `int`. -/
theorem file_roundTrip_iff {base : Nat} (hbase : 1 ≤ base) {ba : ByteArray} (h : Lifetime base ba) :
    (Saves ba ↔ ba.getReadSize = 0 ∨ ba.position % base = 0 ∨
      ba.position % base < 2 ^ 31 ∧ base ≤ ba.getReadSize) ∧
    ∀ other, 1 ≤ other → ∀ ba', Lifetime other ba' → ∀ file, LoadsAsWrite ba' file := by
  obtain ⟨hwf, hbaseSize⟩ := h.wellFormed hbase
  constructor
  · rw [← hbaseSize]
    exact saves_iff hwf
  · intro other hother ba' h' file
    exact loadsAsWrite (h'.wellFormed hother).1 file

/-- Three bytes in a block of four, the cursor behind the first. -/
def insideBlock : ByteArray :=
  { new (fun _ _ => 0) 4 with root := [[1, 2, 3, 0]], position := 1, size := 3 }

theorem lifetime_insideBlock : Lifetime 4 insideBlock :=
  .returns (.setPosition 1) (.returns (.write (fun _ _ => 0) [1, 2, 3]) (.new fun _ _ => 0) rfl) rfl

/-- Of its two readable bytes one is written, and then the null block is dereferenced. -/
theorem file_not_saved : ¬ ∀ ba, Lifetime 4 ba → Saves ba := by
  intro hall
  obtain ⟨hwf, _⟩ := lifetime_insideBlock.wellFormed (by decide)
  have hsaves := (saves_iff hwf).mp (hall insideBlock lifetime_insideBlock)
  exact absurd hsaves (by decide)

/-- Saved from the start, and loaded into blocks of another size. -/
theorem file_roundTrip_iff_start :
    let ba := { insideBlock with position := 0 }
    Saves ba ∧ LoadsAsWrite (new (fun _ _ => 0) 2) [1, 2, 3] := by
  intro ba
  have hlife : Lifetime 4 ba := .returns (.setPosition 0) lifetime_insideBlock rfl
  have h := file_roundTrip_iff (by decide : 1 ≤ 4) hlife
  exact ⟨h.1.mpr (by decide), h.2 2 (by decide) _ (.new fun _ _ => 0) _⟩

end Lyslg.ByteArray
