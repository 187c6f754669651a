import Lyslg.ByteArray.Refinement
import Lyslg.ByteArray.Typed
/-!
# Typed round trips

`Writes` and `Reads` say that a call puts given bytes at the cursor, or takes
them from there and returns a given value.  Both compose, so each accessor
pair needs one lemma per side, and sequences follow by induction.
-/

namespace Lyslg.ByteArray

open Support.Memory Support.State Support.Words

/-! ## Appending and consuming bytes at the cursor -/

/-- `ba'` is `ba` after a call that wrote `bytes` from the cursor on. -/
structure Appended (ba : ByteArray) (bytes : List UInt8) (ba' : ByteArray) : Prop where
  wellFormed : WellFormed ba'
  endian_eq : ba'.endian = ba.endian
  position_eq : ba'.position = ba.position + bytes.length
  size_eq : ba'.size = max ba.size (ba.position + bytes.length)
  capacity_le : ba.capacity ≤ ba'.capacity
  window : slice ba'.memory ba.position bytes.length = bytes
  before : ∀ j n, j + n ≤ ba.position → slice ba'.memory j n = slice ba.memory j n

theorem Wrote.appended {ba ba' : ByteArray} {bytes : List UInt8} (h : WellFormed ba)
    (hw : Wrote ba bytes ba') : Appended ba bytes ba' := by
  obtain ⟨fresh, hcap, hmem⟩ := hw.memory_eq
  have hlen := h.memory_length
  have hle := h.position_le.trans h.size_le
  have hroom : ba.position + bytes.length ≤ (ba.memory ++ fresh).length := by
    rw [hcap]
    exact hw.capacity_least.1.2.2
  refine ⟨hw.wellFormed, hw.endian_eq, hw.position_eq, hw.size_eq, hw.capacity_least.1.2.1, ?_, ?_⟩
  · rw [hmem, slice_splice_same _ _ _ hroom]
  · intro j n hjn
    rw [hmem, slice_splice_before _ _ _ _ _ hjn (by omega), slice_append_left _ _ _ _ (by omega)]

theorem Appended.trans {ba ba' ba'' : ByteArray} {a b : List UInt8}
    (h₁ : Appended ba a ba') (h₂ : Appended ba' b ba'') : Appended ba (a ++ b) ba'' := by
  have hpos := h₁.position_eq
  have hpos' := h₂.position_eq
  refine ⟨h₂.wellFormed, h₂.endian_eq.trans h₁.endian_eq, ?_, ?_,
    h₁.capacity_le.trans h₂.capacity_le, ?_, ?_⟩
  · rw [hpos', hpos, List.length_append]
    omega
  · rw [h₂.size_eq, h₁.size_eq, hpos, List.length_append]
    omega
  · have hwindow := h₂.window
    rw [hpos] at hwindow
    rw [List.length_append, ← slice_append_slice, hwindow, h₂.before _ _ (by omega), h₁.window]
  · intro j n hjn
    rw [h₂.before j n (by omega), h₁.before j n hjn]

/-- The call writes exactly `bytes` when the byte order is `e`. -/
def Writes (x : Call Unit) (e : Endian) (bytes : List UInt8) : Prop :=
  ∀ ba, WellFormed ba → ba.endian = e → ∃ ba', x ba = .ok () ba' ∧ Appended ba bytes ba'

theorem writes_write (garbage : Garbage) (e : Endian) (buf : List UInt8) :
    Writes (write garbage buf) e buf := by
  intro ba h _
  obtain ⟨ba', hrun, hw⟩ := write_spec h garbage buf
  exact ⟨ba', hrun, hw.appended h⟩

theorem Writes.seq {x y : Call Unit} {e : Endian} {a b : List UInt8}
    (hx : Writes x e a) (hy : Writes y e b) : Writes (do x; y) e (a ++ b) := by
  intro ba h he
  obtain ⟨ba', hrun, happ⟩ := hx ba h he
  obtain ⟨ba'', hrun', happ'⟩ := hy ba' happ.wellFormed (happ.endian_eq.trans he)
  exact ⟨ba'', (bind_ok hrun).trans hrun', happ.trans happ'⟩

/-- The bytes between the cursor and the end of what was written. -/
def readable (ba : ByteArray) : List UInt8 :=
  slice ba.memory ba.position (ba.size - ba.position)

theorem WellFormed.length_readable {ba : ByteArray} (h : WellFormed ba) :
    ba.readable.length = ba.size - ba.position := by
  have := h.position_le
  have := h.size_le
  exact length_slice _ _ _ (by rw [h.memory_length]; omega)

/-- `ba'` is `ba` after a call that took `n` bytes at the cursor. -/
structure Consumed (ba : ByteArray) (n : Nat) (ba' : ByteArray) : Prop where
  wellFormed : WellFormed ba'
  endian_eq : ba'.endian = ba.endian
  memory_eq : ba'.memory = ba.memory
  size_eq : ba'.size = ba.size
  position_eq : ba'.position = ba.position + n

theorem Consumed.trans {ba ba' ba'' : ByteArray} {m n : Nat}
    (h₁ : Consumed ba m ba') (h₂ : Consumed ba' n ba'') : Consumed ba (m + n) ba'' :=
  ⟨h₂.wellFormed, h₂.endian_eq.trans h₁.endian_eq, h₂.memory_eq.trans h₁.memory_eq,
    h₂.size_eq.trans h₁.size_eq, by rw [h₂.position_eq, h₁.position_eq, Nat.add_assoc]⟩

theorem Consumed.readable_eq {ba ba' : ByteArray} {bytes rest : List UInt8}
    (h : Consumed ba bytes.length ba') (hwf : WellFormed ba)
    (hread : ba.readable = bytes ++ rest) : ba'.readable = rest := by
  have hlen := hwf.length_readable
  have hsize := h.wellFormed.position_le
  rw [h.size_eq, h.position_eq] at hsize
  have hsplit := slice_append_slice ba.memory ba.position bytes.length
    (ba.size - (ba.position + bytes.length))
  rw [(by omega : bytes.length + (ba.size - (ba.position + bytes.length)) = ba.size - ba.position),
    ← readable, hread] at hsplit
  have hfirst : (slice ba.memory ba.position bytes.length).length = bytes.length := by
    have := hwf.size_le
    exact length_slice _ _ _ (by rw [hwf.memory_length]; omega)
  rw [readable, h.memory_eq, h.size_eq, h.position_eq]
  exact (List.append_inj hsplit hfirst).2

/-- Faced with `bytes` at the cursor, the call consumes them and returns `v`. -/
def Reads {α : Type} (x : Call α) (e : Endian) (bytes : List UInt8) (v : α) : Prop :=
  ∀ ba rest, WellFormed ba → ba.endian = e → ba.readable = bytes ++ rest →
    ∃ ba', x ba = .ok v ba' ∧ Consumed ba bytes.length ba'

theorem reads_read (e : Endian) (bytes : List UInt8) (hne : bytes ≠ []) :
    Reads (read bytes.length) e bytes bytes := by
  intro ba rest h _ hread
  have hpos : 0 < bytes.length := List.length_pos_iff.mpr hne
  have hlen := h.length_readable
  have hle := h.position_le
  rw [hread, List.length_append] at hlen
  obtain ⟨ba', hrun, hm⟩ := read_spec h hpos (by omega : bytes.length ≤ ba.size - ba.position)
  have hslice : slice ba.memory ba.position bytes.length = bytes := by
    have hpre := slice_slice ba.memory ba.position (ba.size - ba.position) 0 bytes.length (by omega)
    rw [← readable, hread, slice_append_left _ _ _ _ (by omega), slice_full] at hpre
    exact hpre.symm
  rw [hslice] at hrun
  refine ⟨ba', hrun, hm.wellFormed, hm.endian_eq, hm.memory_eq, ?_, hm.position_eq⟩
  rw [hm.size_eq, Nat.max_eq_left (by omega)]

theorem reads_pure {α : Type} (e : Endian) (v : α) : Reads (pure v : Call α) e [] v :=
  fun ba _ h _ _ => ⟨ba, rfl, h, rfl, rfl, rfl, rfl⟩

theorem Reads.bind {α β : Type} {x : Call α} {f : α → Call β} {e : Endian}
    {a b : List UInt8} {v : α} {w : β} (hx : Reads x e a v) (hf : Reads (f v) e b w) :
    Reads (x >>= f) e (a ++ b) w := by
  intro ba rest h he hread
  rw [List.append_assoc] at hread
  obtain ⟨ba', hrun, hc⟩ := hx ba (b ++ rest) h he hread
  obtain ⟨ba'', hrun', hc'⟩ :=
    hf ba' rest hc.wellFormed (hc.endian_eq.trans he) (hc.readable_eq h hread)
  refine ⟨ba'', (bind_ok hrun).trans hrun', ?_⟩
  rw [List.length_append]
  exact hc.trans hc'

/-- A read followed by a conversion of its value. -/
theorem Reads.map {α β : Type} {x : Call α} {e : Endian} {a : List UInt8} {v : α} {w : β}
    (hx : Reads x e a v) (f : α → β) (hf : f v = w) :
    Reads (do return f (← x)) e a w := by
  have h := hx.bind (f := fun v => (pure (f v) : Call β)) (reads_pure e (f v))
  rwa [List.append_nil, hf] at h

/-! ## Fixed width -/

/-- The bytes of an `n`-byte word in the byte order `e`. -/
def fixedBytes (e : Endian) (n value : Nat) : List UInt8 :=
  if e = .little then leBytes n value else (leBytes n value).reverse

@[simp] theorem length_fixedBytes (e : Endian) (n value : Nat) :
    (fixedBytes e n value).length = n := by
  unfold fixedBytes
  split <;> simp

theorem writeFixed_eq (garbage : Garbage) (n value : Nat) (ba : ByteArray) :
    writeFixed garbage n value ba = write garbage (fixedBytes ba.endian n value) ba := by
  have hbytes : leBytes n (if ba.endian ≠ byteOrder then byteswap n value else value)
      = fixedBytes ba.endian n value := by
    cases ba.endian with
    | little => rfl
    | big => exact leBytes_byteswap n value
  rw [writeFixed, get_bind, hbytes]

theorem writes_fixed (garbage : Garbage) (e : Endian) (n value : Nat) :
    Writes (writeFixed garbage n value) e (fixedBytes e n value) := by
  intro ba h he
  rw [writeFixed_eq, he]
  exact writes_write garbage e (fixedBytes e n value) ba h he

theorem reads_fixed (e : Endian) {n value : Nat} (hn : 0 < n) (hv : value < 256 ^ n) :
    Reads (readFixed n) e (fixedBytes e n value) value := by
  intro ba rest h he hread
  have hne : fixedBytes e n value ≠ [] := by
    rw [← List.length_pos_iff, length_fixedBytes]
    exact hn
  obtain ⟨ba', hrun, hc⟩ := reads_read e _ hne ba rest h he hread
  rw [length_fixedBytes] at hrun
  refine ⟨ba', ?_, hc⟩
  rw [readFixed, bind_ok hrun, get_bind, hc.endian_eq, he, pure_apply]
  cases e with
  | little =>
      have hvalue : leValue (leBytes n value) = value := leValue_leBytes hv
      exact congrArg (EStateM.Result.ok · ba') hvalue
  | big =>
      have hvalue : byteswap n (byteswap n value) = value := byteswap_byteswap hv
      exact congrArg (EStateM.Result.ok · ba') hvalue

theorem writes_byte (garbage : Garbage) (e : Endian) (b : UInt8) :
    Writes (write garbage (leBytes 1 b.toNat)) e [b] := by
  have hbyte : leBytes 1 b.toNat = [b] := by
    have h := leBytes_leValue [b]
    rwa [leValue, leValue, Nat.mul_zero, Nat.add_zero] at h
  rw [hbyte]
  exact writes_write garbage e [b]

theorem reads_fuint8 (e : Endian) (b : UInt8) : Reads readFuint8 e [b] b := by
  refine (reads_read e [b] (by simp)).map (fun v => UInt8.ofNat (leValue v)) ?_
  rw [leValue, leValue, Nat.mul_zero, Nat.add_zero, UInt8.ofNat_toNat]

theorem reads_fint8 (e : Endian) (v : Int8) : Reads readFint8 e (leBytes 1 v.toBitVec.toNat) v := by
  have hv : v.toBitVec.toNat < 256 ^ 1 := v.toBitVec.isLt
  refine (reads_read e (leBytes 1 v.toBitVec.toNat) (by simp [leBytes])).map
    (fun bs => Int8.ofBitVec (.ofNat 8 (leValue bs))) ?_
  rw [leValue_leBytes hv, BitVec.ofNat_toNat, BitVec.setWidth_eq, Int8.ofBitVec_toBitVec]

/-! ## Varints -/

/-- The last group: its byte has no top bit and ends the loop. -/
theorem reads_varintLoop_last (e : Endian) {width shift value result : Nat} (shifts : List Nat)
    (hlast : value < 128) (hresult : result < 2 ^ shift) (hfit : value * 2 ^ shift < 2 ^ width) :
    Reads (readVarintLoop width (shift :: shifts) result) e [UInt8.ofNat value]
      (result + value * 2 ^ shift) := by
  have hbyte : (UInt8.ofNat value).toNat = value := by
    rw [UInt8.toNat_ofNat']
    omega
  have hlt : UInt8.ofNat value < 0x80 := by
    rw [UInt8.lt_iff_toNat_lt, hbyte]
    exact hlast
  rw [readVarintLoop, ← List.append_nil [UInt8.ofNat value]]
  refine (reads_fuint8 e _).bind ?_
  rw [if_pos hlt, hbyte, or_group hresult hfit]
  exact reads_pure e _

/-- A group with more to come. -/
theorem reads_varintLoop_more (e : Endian) {width shift group result value : Nat}
    {shifts : List Nat} {bytes : List UInt8} (hgroup : group < 128)
    (hresult : result < 2 ^ shift) (hfit : group * 2 ^ shift < 2 ^ width)
    (hrest : Reads (readVarintLoop width shifts (result + group * 2 ^ shift)) e bytes value) :
    Reads (readVarintLoop width (shift :: shifts) result) e
      (UInt8.ofNat (group + 128) :: bytes) value := by
  have hbyte : (UInt8.ofNat (group + 128)).toNat = group + 128 := by
    rw [UInt8.toNat_ofNat']
    omega
  have hge : ¬ UInt8.ofNat (group + 128) < 0x80 := by
    rw [UInt8.lt_iff_toNat_lt, hbyte]
    change ¬ group + 128 < 128
    omega
  have hlow : (group + 128) &&& 0x7f = group := by
    rw [and_low_seven]
    omega
  rw [readVarintLoop, ← List.singleton_append]
  refine (reads_fuint8 e _).bind ?_
  rw [if_neg hge, hbyte, hlow, or_group hresult hfit]
  exact hrest

theorem reads_varintLoop (e : Endian) (width value k m result : Nat)
    (hshift : 7 * k < width) (hshifts : width ≤ 7 * (k + m))
    (hresult : result < 2 ^ (7 * k)) (hfit : value * 2 ^ (7 * k) < 2 ^ width) :
    Reads (readVarintLoop width (List.range' (7 * k) m 7) result) e (varint value)
      (result + value * 2 ^ (7 * k)) := by
  induction value using Nat.strongRecOn generalizing k m result with
  | ind value ih =>
      obtain ⟨m, rfl⟩ : ∃ m', m = m' + 1 := ⟨m - 1, by omega⟩
      rw [List.range'_succ]
      by_cases hlast : value < 128
      · rw [varint_of_lt hlast]
        exact reads_varintLoop_last e _ hlast hresult hfit
      · -- the invariant moves up by one group of seven bits
        have hpow : 2 ^ (7 * (k + 1)) = 128 * 2 ^ (7 * k) := by
          rw [Nat.mul_add, Nat.pow_add]
          ring
        have hsplit : value % 128 * 2 ^ (7 * k) + value / 128 * (128 * 2 ^ (7 * k))
            = value * 2 ^ (7 * k) := by
          have hdm := Nat.mod_add_div value 128
          calc value % 128 * 2 ^ (7 * k) + value / 128 * (128 * 2 ^ (7 * k))
              = (value % 128 + 128 * (value / 128)) * 2 ^ (7 * k) := by ring
            _ = value * 2 ^ (7 * k) := by rw [hdm]
        have hfit' : value / 128 * 2 ^ (7 * (k + 1)) < 2 ^ width := by
          rw [hpow]
          omega
        have hmod : value % 128 < 128 := Nat.mod_lt _ (by omega)
        have hresult' : result + value % 128 * 2 ^ (7 * k) < 2 ^ (7 * (k + 1)) := by
          have hmul := Nat.mul_le_mul_right (2 ^ (7 * k)) (by omega : value % 128 + 1 ≤ 128)
          rw [Nat.add_mul, Nat.one_mul] at hmul
          rw [hpow]
          omega
        have hnext := ih (value / 128) (by omega) (k + 1) m _
          (shift_lt_width (by omega) hfit') (by omega) hresult' hfit'
        rw [hpow, Nat.add_assoc, hsplit] at hnext
        rw [varint_of_le (by omega)]
        exact reads_varintLoop_more e hmod hresult (by omega) hnext

theorem reads_varint (e : Endian) {width value : Nat} (hwidth : 0 < width)
    (hv : value < 2 ^ width) :
    Reads (readVarintLoop width (varintShifts width) 0) e (varint value) value := by
  have h := reads_varintLoop e width value 0 ((width + 6) / 7) 0
    (by omega) (by omega) (by simp) (by simpa using hv)
  rwa [Nat.mul_zero, Nat.pow_zero, Nat.mul_one, Nat.zero_add] at h

theorem reads_uint32 (e : Endian) (v : UInt32) : Reads readUint32 e (varint v.toNat) v :=
  (reads_varint e (by omega) v.toNat_lt).map UInt32.ofNat UInt32.ofNat_toNat

theorem reads_uint64 (e : Endian) (v : UInt64) : Reads readUint64 e (varint v.toNat) v :=
  (reads_varint e (by omega) v.toNat_lt).map UInt64.ofNat UInt64.ofNat_toNat

theorem decodeZigzag32_encodeZigzag32 (v : Int32) : decodeZigzag32 (encodeZigzag32 v) = v := by
  rw [decodeZigzag32, encodeZigzag32, UInt32.toBitVec_ofBitVec,
    decodeZigzag_encodeZigzag (by omega), Int32.ofBitVec_toBitVec]

theorem decodeZigzag64_encodeZigzag64 (v : Int64) : decodeZigzag64 (encodeZigzag64 v) = v := by
  rw [decodeZigzag64, encodeZigzag64, UInt64.toBitVec_ofBitVec,
    decodeZigzag_encodeZigzag (by omega), Int64.ofBitVec_toBitVec]

/-! ## Items -/

/-- What an accessor pair puts on the wire. -/
def encode (e : Endian) : Item → List UInt8
  | .fint8 v => leBytes 1 v.toBitVec.toNat
  | .fuint8 v => [v]
  | .fint16 v => fixedBytes e 2 v.toBitVec.toNat
  | .fuint16 v => fixedBytes e 2 v.toNat
  | .fint32 v => fixedBytes e 4 v.toBitVec.toNat
  | .fuint32 v => fixedBytes e 4 v.toNat
  | .fint64 v => fixedBytes e 8 v.toBitVec.toNat
  | .fuint64 v => fixedBytes e 8 v.toNat
  | .int32 v => varint (encodeZigzag32 v).toNat
  | .uint32 v => varint v.toNat
  | .int64 v => varint (encodeZigzag64 v).toNat
  | .uint64 v => varint v.toNat
  | .float bits => fixedBytes e 4 bits.toNat
  | .double bits => fixedBytes e 8 bits.toNat
  | .stringF16 s => fixedBytes e 2 (UInt16.ofNat s.length).toNat ++ s
  | .stringF32 s => fixedBytes e 4 (UInt32.ofNat s.length).toNat ++ s
  | .stringF64 s => fixedBytes e 8 (UInt64.ofNat s.length).toNat ++ s

theorem writes_item (garbage garbage' : Garbage) (e : Endian) (item : Item) :
    Writes (writeItem garbage garbage' item) e (encode e item) := by
  cases item with
  | fint8 v => exact writes_write garbage e (leBytes 1 v.toBitVec.toNat)
  | fuint8 v => exact writes_byte garbage e v
  | int32 v => exact writes_write garbage e _
  | uint32 v => exact writes_write garbage e _
  | int64 v => exact writes_write garbage e _
  | uint64 v => exact writes_write garbage e _
  | stringF16 s => exact (writes_fixed garbage e 2 _).seq (writes_write garbage' e s)
  | stringF32 s => exact (writes_fixed garbage e 4 _).seq (writes_write garbage' e s)
  | stringF64 s => exact (writes_fixed garbage e 8 _).seq (writes_write garbage' e s)
  | _ => exact writes_fixed garbage e _ _

theorem reads_fuint16 (e : Endian) (v : UInt16) : Reads readFuint16 e (fixedBytes e 2 v.toNat) v :=
  (reads_fixed e (by omega) v.toNat_lt).map UInt16.ofNat UInt16.ofNat_toNat

theorem reads_fuint32 (e : Endian) (v : UInt32) : Reads readFuint32 e (fixedBytes e 4 v.toNat) v :=
  (reads_fixed e (by omega) v.toNat_lt).map UInt32.ofNat UInt32.ofNat_toNat

theorem reads_fuint64 (e : Endian) (v : UInt64) : Reads readFuint64 e (fixedBytes e 8 v.toNat) v :=
  (reads_fixed e (by omega) v.toNat_lt).map UInt64.ofNat UInt64.ofNat_toNat

/-- A length prefix followed by that many bytes. -/
theorem reads_string {α : Type} {x : Call α} {e : Endian} {pre : List UInt8} {len : α}
    {toNat : α → Nat} {s : List UInt8} (hpre : Reads x e pre len) (hlen : toNat len = s.length)
    (hne : s ≠ []) : Reads (do let n ← x; read (toNat n)) e (pre ++ s) s := by
  refine hpre.bind ?_
  rw [hlen]
  exact reads_read e s hne

theorem reads_item (e : Endian) (item : Item) (h : item.Admissible) :
    Reads (readItem item.kind) e (encode e item) item := by
  cases item with
  | fint8 v => exact (reads_fint8 e v).map Item.fint8 rfl
  | fuint8 v => exact (reads_fuint8 e v).map Item.fuint8 rfl
  | fint16 v =>
      have hv := (reads_fixed e (n := 2) (by omega) v.toBitVec.isLt).map
        (fun n => Int16.ofBitVec (.ofNat 16 n)) (w := v) (by simp)
      exact hv.map Item.fint16 rfl
  | fuint16 v => exact (reads_fuint16 e v).map Item.fuint16 rfl
  | fint32 v =>
      have hv := (reads_fixed e (n := 4) (by omega) v.toBitVec.isLt).map
        (fun n => Int32.ofBitVec (.ofNat 32 n)) (w := v) (by simp)
      exact hv.map Item.fint32 rfl
  | fuint32 v => exact (reads_fuint32 e v).map Item.fuint32 rfl
  | fint64 v =>
      have hv := (reads_fixed e (n := 8) (by omega) v.toBitVec.isLt).map
        (fun n => Int64.ofBitVec (.ofNat 64 n)) (w := v) (by simp)
      exact hv.map Item.fint64 rfl
  | fuint64 v => exact (reads_fuint64 e v).map Item.fuint64 rfl
  | int32 v =>
      exact ((reads_uint32 e _).map decodeZigzag32 (decodeZigzag32_encodeZigzag32 v)).map
        Item.int32 rfl
  | uint32 v => exact (reads_uint32 e v).map Item.uint32 rfl
  | int64 v =>
      exact ((reads_uint64 e _).map decodeZigzag64 (decodeZigzag64_encodeZigzag64 v)).map
        Item.int64 rfl
  | uint64 v => exact (reads_uint64 e v).map Item.uint64 rfl
  | float bits => exact (reads_fuint32 e bits).map Item.float rfl
  | double bits => exact (reads_fuint64 e bits).map Item.double rfl
  | stringF16 s =>
      have hlen : (UInt16.ofNat s.length).toNat = s.length := UInt16.toNat_ofNat_of_lt' h.2
      exact (reads_string (reads_fuint16 e _) hlen h.1).map Item.stringF16 rfl
  | stringF32 s =>
      have hlen : (UInt32.ofNat s.length).toNat = s.length := UInt32.toNat_ofNat_of_lt' h.2
      exact (reads_string (reads_fuint32 e _) hlen h.1).map Item.stringF32 rfl
  | stringF64 s =>
      have hlen : (UInt64.ofNat s.length).toNat = s.length := UInt64.toNat_ofNat_of_lt' h.2
      exact (reads_string (reads_fuint64 e _) hlen h.1).map Item.stringF64 rfl

/-! ## Sequences -/

def Entry.endian (e : Entry) : Endian := if e.little then .little else .big

def encodeAll (entries : List Entry) : List UInt8 :=
  entries.flatMap fun e => encode e.endian e.item

/-- Choosing a byte order changes no other field. -/
theorem WellFormed.withEndian {ba : ByteArray} (h : WellFormed ba) (e : Endian) :
    WellFormed { ba with endian := e } :=
  ⟨h.base_pos, h.blocks, h.root_pos, h.capacity_eq, h.position_le, h.size_le, h.cur_eq⟩

/-- The part of `Appended` that survives a change of byte order. -/
structure Extended (ba : ByteArray) (bytes : List UInt8) (ba' : ByteArray) : Prop where
  wellFormed : WellFormed ba'
  position_eq : ba'.position = ba.position + bytes.length
  size_le : ba.position + bytes.length ≤ ba'.size
  window : slice ba'.memory ba.position bytes.length = bytes
  before : ∀ j n, j + n ≤ ba.position → slice ba'.memory j n = slice ba.memory j n

theorem writeAll_spec {ba : ByteArray} (h : WellFormed ba) (entries : List Entry) :
    ∃ ba', writeAll entries ba = .ok () ba' ∧ Extended ba (encodeAll entries) ba' := by
  induction entries generalizing ba with
  | nil => exact ⟨ba, rfl, h, rfl, h.position_le, by simp [encodeAll], fun _ _ _ => rfl⟩
  | cons e es ih =>
      obtain ⟨ba₁, hrun, happ⟩ := writes_item e.garbage e.garbage' e.endian e.item
        { ba with endian := e.endian } (h.withEndian _) rfl
      obtain ⟨ba₂, hrest, hext⟩ := ih happ.wellFormed
      have hpos : ba₁.position = ba.position + (encode e.endian e.item).length := happ.position_eq
      refine ⟨ba₂, ?_, hext.wellFormed, ?_, ?_, ?_, ?_⟩
      · rw [writeAll, setIsLittleEndian, modify_bind]
        exact (bind_ok hrun).trans hrest
      · rw [hext.position_eq, hpos, encodeAll, encodeAll, List.flatMap_cons, List.length_append]
        omega
      · have := hext.size_le
        rw [encodeAll, List.flatMap_cons, List.length_append]
        rw [encodeAll] at this
        omega
      · have hwindow := hext.window
        rw [hpos] at hwindow
        have hfirst : slice ba₁.memory ba.position (encode e.endian e.item).length
            = encode e.endian e.item := happ.window
        rw [encodeAll, List.flatMap_cons, List.length_append, ← slice_append_slice,
          ← encodeAll, hwindow, hext.before _ _ (by omega), hfirst]
      · intro j n hjn
        have hfirst : slice ba₁.memory j n = slice ba.memory j n := happ.before j n hjn
        rw [hext.before j n (by omega), hfirst]

theorem readAll_spec {ba : ByteArray} (h : WellFormed ba) (entries : List Entry)
    (hadm : ∀ e ∈ entries, e.item.Admissible) {rest : List UInt8}
    (hread : ba.readable = encodeAll entries ++ rest) :
    ∃ ba', readAll (entries.map fun e => (e.little, e.item.kind)) ba
        = .ok (entries.map fun e => e.item) ba' ∧
      ba'.position = ba.position + (encodeAll entries).length := by
  induction entries generalizing ba with
  | nil => exact ⟨ba, rfl, rfl⟩
  | cons e es ih =>
      rw [encodeAll, List.flatMap_cons, List.append_assoc] at hread
      obtain ⟨ba₁, hrun, hc⟩ := reads_item e.endian e.item (hadm e (by simp))
        { ba with endian := e.endian } _ (h.withEndian _) rfl hread
      obtain ⟨ba₂, hrest, hpos⟩ := ih hc.wellFormed (fun e he => hadm e (by simp [he]))
        (hc.readable_eq (h.withEndian _) hread)
      refine ⟨ba₂, ?_, ?_⟩
      · rw [List.map_cons, readAll, setIsLittleEndian, modify_bind]
        exact (bind_ok hrun).trans (bind_ok hrest)
      · have hpos' : ba₁.position = ba.position + (encode e.endian e.item).length :=
          hc.position_eq
        rw [hpos, hpos', encodeAll, encodeAll, List.flatMap_cons, List.length_append]
        omega

/-- The states a client can bring a `ByteArray` into: a fresh one, then any
calls, and any choice of byte order. -/
inductive Reachable (base : Nat) : ByteArray → Prop where
  | new (garbage : Garbage) : Reachable base (new garbage base)
  | exec {ba : ByteArray} (op : Op) : Reachable base ba → Reachable base (exec ba op).2
  | setIsLittleEndian {ba : ByteArray} (val : Bool) : Reachable base ba →
      Reachable base { ba with endian := if val then .little else .big }

theorem Reachable.wellFormed {base : Nat} (hbase : 1 ≤ base) {ba : ByteArray}
    (h : Reachable base ba) : WellFormed ba := by
  induction h with
  | new garbage => exact wellFormed_new garbage hbase
  | exec op _ ih => exact (exec_refines ih op).1
  | setIsLittleEndian val _ ih => exact ih.withEndian _

/-- Items written from any position come back when they are read from there
with the matching accessors, and the reader stops where the writer did. -/
theorem readAll_writeAll {base : Nat} (hbase : 1 ≤ base) {ba : ByteArray}
    (h : Reachable base ba) {p : Nat} (hp : p ≤ ba.capacity) (entries : List Entry)
    (hadm : ∀ e ∈ entries, e.item.Admissible) :
    ∃ written read,
      (do setPosition p; writeAll entries : Call Unit) ba = .ok () written ∧
      (do setPosition p; readAll (entries.map fun e => (e.little, e.item.kind)) :
          Call (List Item)) written = .ok (entries.map fun e => e.item) read ∧
      read.position = written.position := by
  have hwf := h.wellFormed hbase
  obtain ⟨ba₀, hseek, hm⟩ := setPosition_spec hwf hp
  obtain ⟨written, hwrite, hext⟩ := writeAll_spec hm.wellFormed entries
  have hpos := hext.position_eq
  have hwindow := hext.window
  have hsize := hext.size_le
  rw [hm.position_eq] at hpos hwindow hsize
  have hcap := hext.wellFormed.size_le
  obtain ⟨ba₁, hseek', hm'⟩ := setPosition_spec hext.wellFormed (v := p) (by omega)
  have hreadable : ba₁.readable = encodeAll entries ++
      slice written.memory written.position (written.size - written.position) := by
    rw [readable, hm'.memory_eq, hm'.position_eq, hm'.size_eq, Nat.max_eq_left (by omega)]
    conv_rhs => rw [← hwindow, hpos]
    rw [slice_append_slice]
    congr 1
    omega
  obtain ⟨read, hread, hend⟩ := readAll_spec hm'.wellFormed entries hadm hreadable
  refine ⟨written, read, (bind_ok hseek).trans hwrite, (bind_ok hseek').trans hread, ?_⟩
  rw [hend, hm'.position_eq, hpos]

/-- Three items of different encodings and byte orders over blocks of one byte. -/
theorem readAll_writeAll_mixed :
    let g : Garbage := fun _ _ => 0
    let entries : List Entry :=
      [⟨true, .int32 (-2147483648), g, g⟩, ⟨false, .fuint16 258, g, g⟩,
        ⟨true, .stringF16 [104, 105], g, g⟩]
    ∃ written read,
      (do setPosition 1; writeAll entries : Call Unit) (new g 1) = .ok () written ∧
      (do setPosition 1; readAll [(true, .int32), (false, .fuint16), (true, .stringF16)] :
          Call (List Item)) written
        = .ok [.int32 (-2147483648), .fuint16 258, .stringF16 [104, 105]] read ∧
      read.position = written.position := by
  intro g entries
  refine readAll_writeAll (by decide : 1 ≤ 1) (.new g) (by decide : 1 ≤ 1) entries ?_
  intro e he
  simp only [entries, List.mem_cons, List.not_mem_nil, or_false] at he
  rcases he with rfl | rfl | rfl
  · trivial
  · trivial
  · exact ⟨by decide, by decide⟩

end Lyslg.ByteArray
