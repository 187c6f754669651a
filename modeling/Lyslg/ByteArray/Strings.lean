import Lyslg.ByteArray.ZeroCopy
/-!
# Strings behind a length

The fixed-width prefixes lose a string that is too long for them.  An empty
string is read back with a read of no byte, which needs a block at the cursor.
The varint reader never meets a varint, since the writer puts a word there.
-/

namespace Lyslg.ByteArray

open Support.Memory Support.State Support.Words

/-! ## The three prefixes of fixed width -/

/-- The accessor pairs `writeStringF16`/`readStringF16` and so on. -/
inductive LengthPrefix where
  | f16 | f32 | f64
  deriving DecidableEq, Repr

namespace LengthPrefix

/-- The bytes of the prefix. -/
def width : LengthPrefix → Nat
  | f16 => 2
  | f32 => 4
  | f64 => 8

def writeString (garbage garbage' : Garbage) (value : List UInt8) : LengthPrefix → Call Unit
  | f16 => writeStringF16 garbage garbage' value
  | f32 => writeStringF32 garbage garbage' value
  | f64 => writeStringF64 garbage garbage' value

def readString : LengthPrefix → Call (List UInt8)
  | f16 => readStringF16
  | f32 => readStringF32
  | f64 => readStringF64

/-- The first half of `readString`. -/
def readLen : LengthPrefix → Call Nat
  | f16 => do return (← readFuint16).toNat
  | f32 => do return (← readFuint32).toNat
  | f64 => do return (← readFuint64).toNat

theorem writeString_eq (garbage garbage' : Garbage) (value : List UInt8) (p : LengthPrefix) :
    p.writeString garbage garbage' value =
      (do writeFixed garbage p.width (value.length % 256 ^ p.width); write garbage' value) := by
  cases p <;> rfl

theorem readString_eq (p : LengthPrefix) : p.readString = (do read (← p.readLen)) := by
  cases p <;>
    simp only [readString, readLen, readStringF16, readStringF32, readStringF64,
      bind_assoc, pure_bind]

theorem reads_len (e : Endian) (p : LengthPrefix) {n : Nat} (hn : n < 256 ^ p.width) :
    Reads p.readLen e (fixedBytes e p.width n) n := by
  cases p with
  | f16 =>
      have hlen : (UInt16.ofNat n).toNat = n := UInt16.toNat_ofNat_of_lt' hn
      have h := (reads_fuint16 e (.ofNat n)).map UInt16.toNat hlen
      rwa [hlen] at h
  | f32 =>
      have hlen : (UInt32.ofNat n).toNat = n := UInt32.toNat_ofNat_of_lt' hn
      have h := (reads_fuint32 e (.ofNat n)).map UInt32.toNat hlen
      rwa [hlen] at h
  | f64 =>
      have hlen : (UInt64.ofNat n).toNat = n := UInt64.toNat_ofNat_of_lt' hn
      have h := (reads_fuint64 e (.ofNat n)).map UInt64.toNat hlen
      rwa [hlen] at h

end LengthPrefix

/-! ## Writing twice -/

theorem Wrote.trans {ba ba' ba'' : ByteArray} {a b : List UInt8} (h₁ : Wrote ba a ba')
    (h₂ : Wrote ba' b ba'') : Wrote ba (a ++ b) ba'' := by
  have hall := h₁.filled.trans h₂.filled
  refine ⟨hall.wellFormed, hall.baseSize_eq, hall.endian_eq, hall.position_eq, hall.size_eq, ?_,
    hall.memory_eq⟩
  have hleast := h₂.capacity_least
  rw [h₁.baseSize_eq, h₁.position_eq] at hleast
  obtain ⟨⟨_, hold, _⟩, hmin⟩ := h₁.capacity_least
  obtain ⟨⟨hdvd', hold', hneed'⟩, hmin'⟩ := hleast
  rw [List.length_append, ← Nat.add_assoc]
  exact ⟨⟨hdvd', hold.trans hold', hneed'⟩, fun c ⟨hdvd, hle, hneed⟩ =>
    hmin' ⟨hdvd, hmin ⟨hdvd, hle, by omega⟩, hneed⟩⟩

/-- A write ends at the end of the capacity when it comes to a block boundary that
the chain had not reached before. -/
theorem Wrote.at_end_iff {ba ba' : ByteArray} {bytes : List UInt8} (hw : Wrote ba bytes ba') :
    ba'.position = ba'.capacity ↔ ba.baseSize ∣ ba.position + bytes.length ∧
      ba.capacity ≤ ba.position + bytes.length := by
  obtain ⟨⟨hdvd, hold, hneed⟩, hmin⟩ := hw.capacity_least
  rw [hw.position_eq]
  constructor
  · intro heq
    rw [heq]
    exact ⟨hdvd, hold⟩
  · rintro ⟨hdvd', hle⟩
    have := hmin ⟨hdvd', hle, Nat.le_refl _⟩
    omega

theorem wrote_writeFixed {ba : ByteArray} (h : WellFormed ba) (garbage : Garbage) (n value : Nat) :
    ∃ ba', writeFixed garbage n value ba = .ok () ba' ∧
      Wrote ba (fixedBytes ba.endian n value) ba' := by
  rw [writeFixed_eq]
  exact write_spec h garbage _

/-! ## Round trips of strings -/

section Back

variable {ba written : ByteArray} {pre s : List UInt8}

/-- What lies at the cursor after going back to the start of a write. -/
theorem Wrote.readable_back (h : WellFormed ba) (hw : Wrote ba (pre ++ s) written) :
    ∃ rest, (movedTo written ba.position).readable = pre ++ (s ++ rest) ∧
      WellFormed (movedTo written ba.position) ∧
      setPosition ba.position written = .ok () (movedTo written ba.position) := by
  have hpos := hw.position_eq
  have hle := hw.wellFormed.position_le
  have hcap := hw.wellFormed.size_le
  have hm := moved_movedTo hw.wellFormed (p := ba.position) (by omega)
  have hwindow := (hw.appended h).window
  refine ⟨slice written.memory written.position (written.size - written.position), ?_,
    hm.wellFormed, setPosition_eq hw.wellFormed (by omega)⟩
  rw [readable, hm.memory_eq, hm.position_eq, hm.size_eq, Nat.max_eq_left (by omega),
    ← List.append_assoc]
  conv_rhs => rw [← hwindow, hpos]
  rw [slice_append_slice]
  congr 1
  omega

end Back

/-- A string comes back when it is written, the cursor set back and the string read. -/
def Returns (write : Call Unit) (read : Call (List UInt8)) (s : List UInt8)
    (ba : ByteArray) : Prop :=
  ∃ written back last, write ba = .ok () written ∧
    setPosition ba.position written = .ok () back ∧ read back = .ok s last

section Prefixed

variable {ba : ByteArray} (p : LengthPrefix)

/-- After the prefix was read back, the string is next, and its length is known up
to the width of the prefix. -/
theorem prefixed_back (h : WellFormed ba) (garbage garbage' : Garbage) (s : List UInt8) :
    ∃ written back mid, p.writeString garbage garbage' s ba = .ok () written ∧
      setPosition ba.position written = .ok () back ∧
      p.readString back = read (s.length % 256 ^ p.width) mid ∧
      WellFormed mid ∧ s.length ≤ mid.getReadSize ∧
      (∀ n ≤ s.length, slice mid.memory mid.position n = s.take n) ∧
      (s = [] → (mid.position = mid.capacity ↔
        ba.baseSize ∣ ba.position + p.width ∧ ba.capacity ≤ ba.position + p.width)) := by
  have hmod : s.length % 256 ^ p.width < 256 ^ p.width :=
    Nat.mod_lt _ (Nat.pow_pos (by omega))
  obtain ⟨ba₁, hrun₁, hw₁⟩ := wrote_writeFixed h garbage p.width (s.length % 256 ^ p.width)
  obtain ⟨written, hrun₂, hw₂⟩ := write_spec hw₁.wellFormed garbage' s
  have hw := hw₁.trans hw₂
  obtain ⟨rest, hreadable, hwf, hseek⟩ := hw.readable_back h
  obtain ⟨mid, hlen, hc⟩ := p.reads_len ba.endian hmod _ (s ++ rest) hwf
    (hw.endian_eq.trans rfl) hreadable
  have hnext := hc.readable_eq hwf hreadable
  have hcount := hc.wellFormed.length_readable
  rw [hnext, List.length_append] at hcount
  have hread : mid.getReadSize = mid.size - mid.position := rfl
  refine ⟨written, _, mid, ?_, hseek, ?_, hc.wellFormed, by omega, ?_, ?_⟩
  · rw [p.writeString_eq, bind_ok hrun₁]
    exact hrun₂
  · rw [p.readString_eq, bind_ok hlen]
  · intro n hn
    have hpre := slice_slice mid.memory mid.position (mid.size - mid.position) 0 n (by omega)
    rw [← readable, hnext, Nat.add_zero, slice, List.drop_zero,
      List.take_append_of_le_length hn] at hpre
    exact hpre.symm
  · intro hnil
    subst hnil
    have hiff := hw.at_end_iff
    rw [List.append_nil, length_fixedBytes] at hiff
    have hpos : mid.position = written.position := by
      rw [hc.position_eq, length_fixedBytes, hw.position_eq, List.append_nil, length_fixedBytes]
      rfl
    have hcap : mid.capacity = written.capacity := by
      rw [← hc.wellFormed.memory_length, hc.memory_eq, ← hw.wellFormed.memory_length]
      rfl
    rw [hpos, hcap, hiff]

theorem returns_prefixed_iff (h : WellFormed ba) (garbage garbage' : Garbage) (s : List UInt8) :
    Returns (p.writeString garbage garbage' s) p.readString s ba ↔
      s.length < 256 ^ p.width ∧
        (s = [] →
          ¬ (ba.baseSize ∣ ba.position + p.width ∧ ba.capacity ≤ ba.position + p.width)) := by
  obtain ⟨written, back, mid, hwrite, hseek, hreadString, hwf, hsize, hnext, hend⟩ :=
    prefixed_back p h garbage garbage' s
  have hle := hwf.position_le.trans hwf.size_le
  have hmodle := Nat.mod_le s.length (256 ^ p.width)
  constructor
  · rintro ⟨written', back', last, hwrite', hseek', hread⟩
    rw [hwrite] at hwrite'
    cases hwrite'
    rw [hseek] at hseek'
    cases hseek'
    rw [hreadString] at hread
    by_cases hcur : 0 < s.length % 256 ^ p.width ∨ mid.position < mid.capacity
    · obtain ⟨after, hrun, _⟩ := read_in_step hwf (by omega) hcur
      rw [hnext _ hmodle, hread] at hrun
      have hlen : s.length = s.length % 256 ^ p.width := by
        have htake := congrArg List.length (EStateM.Result.ok.inj hrun).1
        rw [List.length_take] at htake
        omega
      refine ⟨hlen ▸ Nat.mod_lt _ (Nat.pow_pos (by omega)), fun hnil => ?_⟩
      rw [← hend hnil]
      subst hnil
      simp only [List.length_nil, Nat.zero_mod] at hcur
      omega
    · have hzero : s.length % 256 ^ p.width = 0 := by omega
      rw [hzero, read_zero_at_end hwf (by omega)] at hread
      cases hread
  · rintro ⟨hshort, hnil⟩
    have hlen := Nat.mod_eq_of_lt hshort
    have hcur : 0 < s.length ∨ mid.position < mid.capacity := by
      rcases Nat.eq_zero_or_pos s.length with hzero | hpos
      · have hempty : s = [] := List.length_eq_zero_iff.mp hzero
        have hne := (hend hempty).not.mpr (hnil hempty)
        omega
      · exact Or.inl hpos
    obtain ⟨last, hrun, _⟩ := read_in_step hwf hsize hcur
    rw [hnext _ (Nat.le_refl _), List.take_length] at hrun
    exact ⟨written, back, last, hwrite, hseek, by rw [hreadString, hlen, hrun]⟩

end Prefixed

/-- A read that the readable bytes allow succeeds but for a read of no byte at the
end of the capacity.  So a string comes back if its length fits the prefix, but
for an empty one whose prefix fills the chain exactly. -/
theorem reads_safe_iff {base : Nat} (hbase : 1 ≤ base) {ba : ByteArray} (h : Lifetime base ba) :
    (∀ size, size ≤ ba.getReadSize →
      ((∃ after, read size ba = .ok (slice ba.memory ba.position size) after) ↔
        0 < size ∨ ba.position < ba.capacity)) ∧
      ∀ (p : LengthPrefix) garbage garbage' s,
        (Returns (p.writeString garbage garbage' s) p.readString s ba ↔
          s.length < 256 ^ p.width ∧
            (s = [] → ¬ (base ∣ ba.position + p.width ∧ ba.capacity ≤ ba.position + p.width))) := by
  obtain ⟨hwf, hbaseSize⟩ := h.wellFormed hbase
  have hle := hwf.position_le.trans hwf.size_le
  constructor
  · intro size hsize
    constructor
    · rintro ⟨after, hrun⟩
      by_contra hnone
      obtain rfl : size = 0 := by omega
      rw [read_zero_at_end hwf (by omega)] at hrun
      cases hrun
    · intro hcur
      obtain ⟨after, hrun, _⟩ := read_in_step hwf hsize hcur
      exact ⟨after, hrun⟩
  · intro p garbage garbage' s
    rw [← hbaseSize]
    exact returns_prefixed_iff p hwf garbage garbage' s

/-- The prefix of an empty string fills the first block, and reading it back
dereferences the null block behind. -/
theorem reads_unsafe :
    ¬ ∀ ba, Lifetime 2 ba →
      (∀ size, size ≤ ba.getReadSize →
        ∃ after, read size ba = .ok (slice ba.memory ba.position size) after) ∧
      ∀ garbage garbage' s, Returns (writeStringF16 garbage garbage' s) readStringF16 s ba := by
  intro hall
  obtain ⟨_, hrun⟩ := (hall fullBlock lifetime_fullBlock).1 0 (by decide)
  have hfault : read 0 fullBlock = .error .nullBlock fullBlock := rfl
  rw [hfault] at hrun
  cases hrun

/-- Blocks of four bytes leave room behind the prefix, blocks of two do not. -/
theorem reads_safe_iff_empty :
    let g : Garbage := fun _ _ => 0
    Returns (writeStringF16 g g []) readStringF16 [] (new g 4) ∧
      ¬ Returns (writeStringF16 g g []) readStringF16 [] (new g 2) := by
  intro g
  have hfour := (reads_safe_iff (by decide : 1 ≤ 4) (.new g)).2 .f16 g g []
  have htwo := (reads_safe_iff (by decide : 1 ≤ 2) (.new g)).2 .f16 g g []
  exact ⟨hfour.mpr (by decide), fun hreturns => absurd (htwo.mp hreturns) (by decide)⟩

/-! ## The varint prefix -/

theorem read_inv {ba ba' : ByteArray} (h : WellFormed ba) {size : Nat} {bytes : List UInt8}
    (hrun : read size ba = .ok bytes ba') :
    bytes.length = size ∧ slice ba.memory ba.position size = bytes ∧ Consumed ba size ba' := by
  have hread : ba.getReadSize = ba.size - ba.position := rfl
  have hle := h.position_le
  have hcap := h.size_le
  by_cases hsize : size ≤ ba.getReadSize
  · by_cases hcur : 0 < size ∨ ba.position < ba.capacity
    · obtain ⟨after, hok, hm⟩ := read_in_step h hsize hcur
      rw [hrun] at hok
      cases hok
      refine ⟨length_slice _ _ _ (by rw [h.memory_length]; omega), rfl, hm.wellFormed,
        hm.endian_eq, hm.memory_eq, ?_, hm.position_eq⟩
      rw [hm.size_eq, Nat.max_eq_left (by omega)]
    · obtain rfl : size = 0 := by omega
      rw [read_zero_at_end h (by omega)] at hrun
      cases hrun
  · rw [read_throws size (by omega)] at hrun
    cases hrun

theorem readFuint8_inv {ba ba' : ByteArray} (h : WellFormed ba) {b : UInt8}
    (hrun : readFuint8 ba = .ok b ba') :
    slice ba.memory ba.position 1 = [b] ∧ Consumed ba 1 ba' := by
  obtain ⟨bytes, ba₁, hread, heq⟩ := bind_inv hrun
  cases heq
  obtain ⟨hlen, hslice, hc⟩ := read_inv h hread
  obtain ⟨x, rfl⟩ := List.length_eq_one_iff.mp hlen
  rw [leValue, leValue, Nat.mul_zero, Nat.add_zero, UInt8.ofNat_toNat]
  exact ⟨hslice, hc⟩

/-- A varint of `bytes` that ends inside the word: every byte but the last has its
top bit set, and the value has no bits above those of the last byte. -/
theorem readVarintLoop_inv {width j m result v : Nat} {ba ba' : ByteArray} (h : WellFormed ba)
    (hresult : result < 2 ^ (7 * j))
    (hrun : readVarintLoop width (List.range' (7 * j) m 7) result ba = .ok v ba') :
    ∃ bytes : List UInt8, Consumed ba bytes.length ba' ∧
      slice ba.memory ba.position bytes.length = bytes ∧
      (bytes.length < m → 7 * (j + bytes.length) ≤ width →
        ∃ init last, bytes = init ++ [last] ∧ (∀ b ∈ init, 128 ≤ b.toNat) ∧
          v < (last.toNat + 1) * 2 ^ (7 * (j + init.length))) := by
  induction m generalizing j result ba with
  | zero =>
      rw [List.range'_zero, readVarintLoop] at hrun
      cases hrun
      exact ⟨[], ⟨h, rfl, rfl, rfl, rfl⟩, slice_zero _ _, fun hlt => absurd hlt (Nat.lt_irrefl 0)⟩
  | succ m ih =>
      rw [List.range'_succ, readVarintLoop] at hrun
      obtain ⟨b, ba₁, hbyte, hrest⟩ := bind_inv hrun
      obtain ⟨hslice, hc⟩ := readFuint8_inv h hbyte
      by_cases hlast : b < 0x80
      · rw [if_pos hlast] at hrest
        cases hrest
        have hb : b.toNat < 128 := UInt8.lt_iff_toNat_lt.mp hlast
        refine ⟨[b], hc, hslice, fun _ hwidth => ⟨[], b, rfl, by simp, ?_⟩⟩
        have hfit : b.toNat * 2 ^ (7 * j) < 2 ^ width := by
          calc b.toNat * 2 ^ (7 * j) < 2 ^ 7 * 2 ^ (7 * j) :=
                Nat.mul_lt_mul_of_pos_right hb (Nat.two_pow_pos _)
            _ = 2 ^ (7 * (j + 1)) := by rw [← Nat.pow_add]; congr 1; omega
            _ ≤ 2 ^ width := Nat.pow_le_pow_right (by omega) hwidth
        have hgroup := or_group hresult hfit
        simp only [List.length_nil, Nat.add_zero, Nat.add_mul, Nat.one_mul]
        omega
      · rw [if_neg hlast] at hrest
        have hb : 128 ≤ b.toNat := by
          have := UInt8.lt_iff_toNat_lt.not.mp hlast
          exact Nat.le_of_not_lt this
        have hlow : b.toNat &&& 0x7f < 2 ^ 7 := by
          rw [and_low_seven]
          exact Nat.mod_lt _ (by omega)
        have hgroup : ((b.toNat &&& 0x7f) <<< (7 * j)) % 2 ^ width < 2 ^ (7 * (j + 1)) := by
          calc ((b.toNat &&& 0x7f) <<< (7 * j)) % 2 ^ width
              ≤ (b.toNat &&& 0x7f) <<< (7 * j) := Nat.mod_le _ _
            _ = (b.toNat &&& 0x7f) * 2 ^ (7 * j) := Nat.shiftLeft_eq _ _
            _ < 2 ^ 7 * 2 ^ (7 * j) := Nat.mul_lt_mul_of_pos_right hlow (Nat.two_pow_pos _)
            _ = 2 ^ (7 * (j + 1)) := by rw [← Nat.pow_add]; congr 1; omega
        have hnext := Nat.or_lt_two_pow
          (hresult.trans (Nat.pow_lt_pow_right (by omega) (by omega : 7 * j < 7 * (j + 1)))) hgroup
        obtain ⟨bytes, hc', hslice', htail⟩ := ih hc.wellFormed hnext hrest
        refine ⟨b :: bytes, ?_, ?_, ?_⟩
        · rw [List.length_cons, Nat.add_comm]
          exact hc.trans hc'
        · rw [hc.memory_eq, hc.position_eq] at hslice'
          rw [List.length_cons, Nat.add_comm, ← slice_append_slice, hslice, hslice']
          rfl
        · intro hlt hwidth
          rw [List.length_cons] at hlt hwidth
          obtain ⟨init, last, rfl, hinit, hv⟩ := htail (by omega) (by omega)
          refine ⟨b :: init, last, rfl, ?_, ?_⟩
          · intro x hx
            rcases List.mem_cons.mp hx with rfl | hx
            · exact hb
            · exact hinit x hx
          · rw [List.length_cons, (by omega : j + (init.length + 1) = j + 1 + init.length)]
            exact hv

/-- An eight-byte word in either byte order, read as a varint of its eight bytes, is
larger than the value of that varint. -/
theorem fixedBytes_not_varint {e : Endian} {n : Nat} (hn : n < 256 ^ 8)
    {init : List UInt8} {last : UInt8}
    (hbytes : fixedBytes e 8 n = init ++ [last]) (hinit : ∀ b ∈ init, 128 ≤ b.toNat) :
    (last.toNat + 1) * 2 ^ (7 * init.length) ≤ n := by
  have hlen : init.length = 7 := by
    have h := congrArg List.length hbytes
    rw [length_fixedBytes, List.length_append, List.length_singleton] at h
    omega
  have hvalue := leValue_leBytes hn
  have hlast := last.toNat_lt
  rw [hlen]
  cases e with
  | little =>
      -- the last byte but one outweighs what the varint has below its last byte
      have hlow := le_leValue (k := 6) hlen hinit
      have heq : leBytes 8 n = init ++ [last] := hbytes
      rw [heq, leValue_append, hlen, leValue, leValue] at hvalue
      simp only [Nat.reducePow, Nat.reduceMul] at hlow hvalue ⊢
      omega
  | big =>
      -- the first byte is the most significant one and has its top bit set
      have hlen' : init.reverse.length = 6 + 1 := by rw [List.length_reverse, hlen]
      have hlow := le_leValue hlen' fun b hb => hinit b (List.mem_reverse.mp hb)
      have heq : (leBytes 8 n).reverse = init ++ [last] := hbytes
      rw [List.reverse_eq_iff, List.reverse_append] at heq
      rw [heq, leValue_append, List.reverse_singleton, leValue, leValue] at hvalue
      simp only [List.length_singleton, Nat.reducePow, Nat.reduceMul] at hlow hvalue ⊢
      omega

/-- No string comes back from behind the varint prefix with the cursor where the
write ended: the writer's length is a word of eight bytes. -/
theorem stringVint_never_returns {base : Nat} (hbase : 1 ≤ base) {ba : ByteArray}
    (h : Lifetime base ba) (garbage garbage' : Garbage) (s : List UInt8) :
    ¬ ∃ written back last, writeStringVint garbage garbage' s ba = .ok () written ∧
      setPosition ba.position written = .ok () back ∧
      readStringVint back = .ok s last ∧ last.position = written.position := by
  obtain ⟨hwf, _⟩ := h.wellFormed hbase
  rintro ⟨written, back, last, hwrite, hseek, hread, hend⟩
  have hn : (UInt64.ofNat s.length).toNat < 256 ^ 8 := (UInt64.ofNat s.length).toNat_lt
  -- the write
  obtain ⟨ba₁, hrun₁, hw₁⟩ := wrote_writeFixed hwf garbage 8 (UInt64.ofNat s.length).toNat
  obtain ⟨ba₂, hrun₂, hw₂⟩ := write_spec hw₁.wellFormed garbage' s
  have hwritten : written = ba₂ := by
    have hrun : writeStringVint garbage garbage' s ba = .ok () ba₂ := by
      rw [writeStringVint]
      exact (bind_ok hrun₁).trans hrun₂
    rw [hwrite] at hrun
    cases hrun
    rfl
  subst hwritten
  have hw := hw₁.trans hw₂
  have hlen := hw.position_eq
  rw [List.length_append, length_fixedBytes] at hlen
  -- the read
  obtain ⟨rest, hreadable, hwfBack, hseek'⟩ := hw.readable_back hwf
  rw [hseek'] at hseek
  cases hseek
  obtain ⟨len, mid, hlenRun, hstring⟩ := bind_inv hread
  obtain ⟨v, mid', hloop, heq⟩ := bind_inv hlenRun
  cases heq
  obtain ⟨bytes, hc, hslice, htail⟩ := readVarintLoop_inv hwfBack (j := 0) (by omega) hloop
  obtain ⟨hstringLen, _, hc'⟩ := read_inv hc.wellFormed hstring
  have hpos : (movedTo written ba.position).position = ba.position := rfl
  have hcount : bytes.length = 8 := by
    rw [hc'.position_eq, hc.position_eq, hpos] at hend
    omega
  -- so the varint read is the whole word, and its value the length
  have hword : bytes = fixedBytes ba.endian 8 (UInt64.ofNat s.length).toNat := by
    have hwindow := (hw.appended hwf).window
    rw [List.length_append, length_fixedBytes, ← slice_append_slice] at hwindow
    have hfirst : (slice written.memory ba.position 8).length
        = (fixedBytes ba.endian 8 (UInt64.ofNat s.length).toNat).length := by
      have hcap := hw.wellFormed.position_le.trans hw.wellFormed.size_le
      rw [length_fixedBytes, length_slice _ _ _ (by rw [hw.wellFormed.memory_length]; omega)]
    rw [← (List.append_inj hwindow hfirst).1, ← hslice, hcount]
    rfl
  obtain ⟨init, final, hsplit, hinit, hv⟩ := htail (by omega) (by omega)
  have hle := fixedBytes_not_varint hn (hword.symm.trans hsplit) hinit
  have hlength : s.length = (UInt64.ofNat v).toNat := hstringLen
  rw [hlength, UInt64.ofNat_toNat, UInt64.toNat_ofNat'] at hle
  rw [Nat.zero_add] at hv
  have hmod := Nat.mod_le v (2 ^ 64)
  omega

theorem stringVint_never_returns_hi :
    let g : Garbage := fun _ _ => 0
    ¬ ∃ written back last, writeStringVint g g [104, 105] (new g 16) = .ok () written ∧
      setPosition (new g 16).position written = .ok () back ∧
      readStringVint back = .ok [104, 105] last ∧ last.position = written.position := by
  intro g
  exact stringVint_never_returns (by decide : 1 ≤ 16) (.new g) g g [104, 105]

/-- The two bytes of `hi` come back as the empty string: the first byte of the
length is zero, and a varint ends there. -/
theorem stringVint_loses_text :
    let g : Garbage := fun _ _ => 0
    ¬ ∀ ba, Lifetime 16 ba → ∀ s, s ≠ [] →
      ∃ written back last, writeStringVint g g s ba = .ok () written ∧
        setPosition ba.position written = .ok () back ∧
        readStringVint back = .ok s last ∧ last.position = written.position := by
  intro g hall
  obtain ⟨written, back, last, hwrite, hseek, hread, _⟩ :=
    hall (new g 16) (.new g) [104, 105] (by simp)
  let there : Call (List UInt8) := do
    writeStringVint g g [104, 105]
    setPosition 0
    readStringVint
  have hrun : there (new g 16) = .ok [104, 105] last :=
    (bind_ok hwrite).trans ((bind_ok hseek).trans hread)
  have hempty : there.run' (new g 16) = some [] := by decide
  cases hempty.symm.trans (run'_ok hrun)

end Lyslg.ByteArray
