import Lyslg.ByteArray.Lifetime
import Lyslg.Support.Base128
/-!
# The bounds of the varint loops

The writers gather the groups in an array of five or ten bytes, which the largest values fill.  The
readers stop after the first byte without its top bit or after as many bytes, and keep of the value
what the word holds.
-/

namespace Lyslg.ByteArray

open Support.Memory Support.State Support.Words

/-! ## The writers -/

/-- `tmp[i++] = b`, with the bytes stored so far.  Behind the end of `tmp` there is no result. -/
def storeGroup (capacity : Nat) (tmp : List UInt8) (b : UInt8) : Option (List UInt8) :=
  if tmp.length < capacity then some (tmp ++ [b]) else none

/-- The loop of `writeUint32` and `writeUint64` over `tmp`, and the store behind it. -/
def storeGroups (capacity : Nat) (tmp : List UInt8) (value : Nat) : Option (List UInt8) :=
  if 0x80 ≤ value then
    (storeGroup capacity tmp (UInt8.ofNat ((value &&& 0x7F) ||| 0x80))).bind fun tmp =>
      storeGroups capacity tmp (value >>> 7)
  else
    storeGroup capacity tmp (UInt8.ofNat value)
termination_by value
decreasing_by
  rw [Nat.shiftRight_eq_div_pow]
  omega

section Groups

variable {capacity value : Nat} {tmp : List UInt8}

theorem storeGroup_of_lt {b : UInt8} (h : tmp.length < capacity) :
    storeGroup capacity tmp b = some (tmp ++ [b]) := by
  rw [storeGroup, if_pos h]

theorem storeGroups_eq (h : tmp.length + (varint value).length ≤ capacity) :
    storeGroups capacity tmp value = some (tmp ++ varint value) := by
  induction value using Nat.strongRecOn generalizing tmp with
  | ind value ih =>
      rw [storeGroups]
      by_cases hlast : value < 128
      · rw [varint_of_lt hlast, List.length_singleton] at h
        rw [if_neg (by omega), storeGroup_of_lt (by omega), varint_of_lt hlast]
      · have hdiv : value / 128 < value := by omega
        rw [varint_of_le (by omega), List.length_cons] at h
        rw [if_pos (by omega), storeGroup_of_lt (by omega), Option.bind_some, and_low_seven,
          or_top_bit (Nat.mod_lt _ (by omega)), shiftRight_seven, ih _ hdiv,
          varint_of_le (by omega : 128 ≤ value), List.append_assoc, List.singleton_append]
        rw [List.length_append, List.length_singleton]
        omega

theorem storeGroups_of_lt (hpos : 0 < capacity) (h : value < 128 ^ capacity) :
    storeGroups capacity [] value = some (varint value) := by
  apply storeGroups_eq
  rw [List.length_nil, Nat.zero_add]
  exact length_varint_le hpos h

end Groups

/-! ## The readers -/

/-- The bytes a reader takes when it takes at most `limit`: all but the last have their top bit set,
and so has the last one only if the limit is reached. -/
inductive Stops : Nat → List UInt8 → Prop where
  | limit : Stops 0 []
  | last {limit : Nat} {b : UInt8} : b < 0x80 → Stops (limit + 1) [b]
  | more {limit : Nat} {b : UInt8} {bytes : List UInt8} :
      0x80 ≤ b → Stops limit bytes → Stops (limit + 1) (b :: bytes)

/-- The bytes a reader takes, by their positions. -/
structure Takes (limit : Nat) (bytes : List UInt8) : Prop where
  length_le : bytes.length ≤ limit
  all_but_last : ∀ b ∈ bytes.dropLast, 0x80 ≤ b
  last : bytes.length < limit → ∃ b ∈ bytes.getLast?, b < 0x80

/-- `ba'` is `ba` after a read that stops, and `v` is what the word keeps of the value read. -/
def Decoded (width limit : Nat) (ba : ByteArray) (v : Nat) (ba' : ByteArray) : Prop :=
  ∃ bytes rest, ba.readable = bytes ++ rest ∧ Takes limit bytes ∧
    Consumed ba bytes.length ba' ∧ v = base128 bytes % 2 ^ width

/-- The readable bytes run out before a read stops. -/
structure RunsOut (limit : Nat) (ba : ByteArray) : Prop where
  short : ba.readable.length < limit
  more : ∀ b ∈ ba.readable, 0x80 ≤ b

section Read

variable {width limit j gathered : Nat} {ba ba' : ByteArray} {bytes : List UInt8}

theorem Stops.length_le (h : Stops limit bytes) : bytes.length ≤ limit := by
  induction h with
  | limit => exact Nat.le_refl 0
  | last _ => exact Nat.succ_le_succ (Nat.zero_le _)
  | more _ _ ih => exact Nat.succ_le_succ ih

theorem Stops.all_but_last (h : Stops limit bytes) : ∀ b ∈ bytes.dropLast, 0x80 ≤ b := by
  induction h with
  | limit => exact List.forall_mem_nil _
  | last _ => exact List.forall_mem_nil _
  | @more limit b bytes hb _ ih =>
      cases bytes with
      | nil => exact List.forall_mem_nil _
      | cons b' bytes =>
          rw [List.dropLast_cons_cons]
          exact List.forall_mem_cons.mpr ⟨hb, ih⟩

theorem Stops.last_of_short (h : Stops limit bytes) (hshort : bytes.length < limit) :
    ∃ b ∈ bytes.getLast?, b < 0x80 := by
  induction h with
  | limit => cases hshort
  | last hb => exact ⟨_, rfl, hb⟩
  | @more limit b bytes _ hrest ih =>
      obtain ⟨last, hlast, hlt⟩ := ih (Nat.lt_of_succ_lt_succ hshort)
      refine ⟨last, ?_, hlt⟩
      rw [Option.mem_def] at hlast ⊢
      rw [List.getLast?_cons, hlast, Option.getD_some]

theorem Stops.takes (h : Stops limit bytes) : Takes limit bytes :=
  ⟨h.length_le, h.all_but_last, h.last_of_short⟩

theorem readFuint8_throws (h : WellFormed ba) (hnone : ba.readable = []) :
    readFuint8 ba = .error (.outOfRange "not enough len") ba := by
  have hlen := h.length_readable
  rw [hnone, List.length_nil] at hlen
  have hsize : ba.getReadSize < 1 := by
    change ba.size - ba.position < 1
    omega
  rw [readFuint8, bind_error (read_throws 1 hsize)]

/-- The first group, with the groups behind it. -/
theorem base128_cons (b : UInt8) (bytes : List UInt8) (j : Nat) :
    base128 (b :: bytes) * 2 ^ (7 * j) =
      b.toNat % 128 * 2 ^ (7 * j) + base128 bytes * 2 ^ (7 * (j + 1)) := by
  have hpow : 2 ^ (7 * (j + 1)) = 128 * 2 ^ (7 * j) := by
    rw [Nat.mul_add, Nat.pow_add]
    ring
  rw [base128, hpow]
  ring

/-- By induction over the shifts; `gathered` is the value of the groups so far, of which `result`
holds what the word keeps. -/
theorem readVarintLoop_cases (width limit : Nat) (h : WellFormed ba)
    (hgathered : gathered < 2 ^ (7 * j)) :
    (∃ bytes rest ba', ba.readable = bytes ++ rest ∧ Stops limit bytes ∧
      Consumed ba bytes.length ba' ∧
      readVarintLoop width (List.range' (7 * j) limit 7) (gathered % 2 ^ width) ba =
        .ok ((gathered + base128 bytes * 2 ^ (7 * j)) % 2 ^ width) ba') ∨
    RunsOut limit ba ∧ ∃ ba',
      readVarintLoop width (List.range' (7 * j) limit 7) (gathered % 2 ^ width) ba =
        .error (.outOfRange "not enough len") ba' := by
  induction limit generalizing j gathered ba with
  | zero =>
      refine Or.inl ⟨[], ba.readable, ba, rfl, .limit, ⟨h, rfl, rfl, rfl, rfl⟩, ?_⟩
      rw [List.range'_zero, readVarintLoop, base128, Nat.zero_mul, Nat.add_zero]
      rfl
  | succ limit ih =>
      rw [List.range'_succ, readVarintLoop]
      cases hread : ba.readable with
      | nil =>
          refine Or.inr ⟨⟨?_, ?_⟩, ba, bind_error (readFuint8_throws h hread)⟩
          · rw [hread]
            exact Nat.succ_pos limit
          · rw [hread]
            exact List.forall_mem_nil _
      | cons b rest =>
          obtain ⟨ba₁, hbyte, hc⟩ := reads_fuint8 ba.endian b ba rest h rfl hread
          rw [bind_ok hbyte]
          by_cases hlast : b < 0x80
          · refine Or.inl ⟨[b], rest, ba₁, rfl, .last hlast, hc, ?_⟩
            have hvalue : base128 [b] = b.toNat := by
              have hlt := lt_top_bit.mp hlast
              rw [base128, base128]
              omega
            rw [if_pos hlast, or_shiftLeft_mod hgathered, hvalue]
            rfl
          · have htop : 0x80 ≤ b := by
              rw [top_bit_le]
              rw [lt_top_bit] at hlast
              omega
            have hnext : gathered + b.toNat % 128 * 2 ^ (7 * j) < 2 ^ (7 * (j + 1)) := by
              have hpow : 2 ^ (7 * (j + 1)) = 128 * 2 ^ (7 * j) := by
                rw [Nat.mul_add, Nat.pow_add]
                ring
              have hmul := Nat.mul_le_mul_right (2 ^ (7 * j)) (by omega : b.toNat % 128 + 1 ≤ 128)
              rw [Nat.add_mul, Nat.one_mul] at hmul
              rw [hpow]
              omega
            have hrest : ba₁.readable = rest := hc.readable_eq h hread
            rw [if_neg hlast, and_low_seven, or_shiftLeft_mod hgathered]
            rcases ih hc.wellFormed hnext with ⟨bytes, rest', ba', hsplit, hstops, hc', hrun⟩ |
              ⟨hout, ba', hrun⟩
            · refine Or.inl ⟨b :: bytes, rest', ba', ?_, .more htop hstops, ?_, ?_⟩
              · rw [← hrest, hsplit, List.cons_append]
              · rw [List.length_cons, Nat.add_comm]
                exact hc.trans hc'
              · rw [base128_cons, ← Nat.add_assoc]
                exact hrun
            · refine Or.inr ⟨⟨?_, ?_⟩, ba', hrun⟩
              · have hshort := hout.short
                rw [hrest] at hshort
                rw [hread, List.length_cons]
                omega
              · have hmore := hout.more
                rw [hrest] at hmore
                rw [hread]
                exact List.forall_mem_cons.mpr ⟨htop, hmore⟩

/-- What a reader of `width` bits may do; `number` is what its result stands for. -/
structure ReadsVarint {α : Type} (width limit : Nat) (x : Call α) (number : α → Nat)
    (ba : ByteArray) : Prop where
  shifts : ∀ i ∈ varintShifts width, i < width
  returns : ∀ v ba', x ba = .ok v ba' → Decoded width limit ba (number v) ba'
  throws : ∀ e ba', x ba = .error e ba' → e = .outOfRange "not enough len" ∧ RunsOut limit ba

theorem shifts_lt {i : Nat} (hi : i ∈ varintShifts width) : i < width := by
  rw [varintShifts, List.mem_range'] at hi
  obtain ⟨k, hk, rfl⟩ := hi
  omega

theorem loop_readsVarint (h : WellFormed ba) (width : Nat) :
    ReadsVarint width ((width + 6) / 7) (readVarintLoop width (varintShifts width) 0) id ba := by
  have hcases := readVarintLoop_cases width ((width + 6) / 7) (j := 0) h (Nat.two_pow_pos _)
  rw [Nat.zero_mod, Nat.mul_zero] at hcases
  rcases hcases with ⟨bytes, rest, ba₁, hsplit, hstops, hc, hrun⟩ | ⟨hout, ba₁, hrun⟩
  · rw [Nat.pow_zero, Nat.mul_one, Nat.zero_add] at hrun
    refine ⟨fun i => shifts_lt, ?_, ?_⟩
    · intro v ba' hok
      rw [varintShifts, hrun] at hok
      cases hok
      exact ⟨bytes, rest, hsplit, hstops.takes, hc, rfl⟩
    · intro e ba' herror
      rw [varintShifts, hrun] at herror
      cases herror
  · refine ⟨fun i => shifts_lt, ?_, ?_⟩
    · intro v ba' hok
      rw [varintShifts, hrun] at hok
      cases hok
    · intro e ba' herror
      rw [varintShifts, hrun] at herror
      cases herror
      exact ⟨rfl, hout⟩

end Read

/-- A reader that converts the word it has read. -/
theorem map_readsVarint {α : Type} {width limit : Nat} {x : Call Nat} {ba : ByteArray}
    (h : ReadsVarint width limit x id ba) (f : Nat → α) (number : α → Nat)
    (hnumber : ∀ v < 2 ^ width, number (f v) = v) :
    ReadsVarint width limit (do return f (← x)) number ba where
  shifts := h.shifts
  returns := by
    intro v ba' hrun
    obtain ⟨w, ba₁, hx, heq⟩ := bind_inv hrun
    obtain ⟨bytes, rest, hsplit, htakes, hc, hw⟩ := h.returns w ba₁ hx
    cases heq
    refine ⟨bytes, rest, hsplit, htakes, hc, ?_⟩
    have hlt : w < 2 ^ width := by
      rw [id_eq] at hw
      rw [hw]
      exact Nat.mod_lt _ (Nat.two_pow_pos width)
    rw [hnumber w hlt]
    exact hw
  throws := by
    intro e ba' hrun
    cases hx : x ba with
    | ok w ba₁ =>
        rw [bind_ok hx] at hrun
        cases hrun
    | error e' ba₁ =>
        rw [bind_error hx] at hrun
        cases hrun
        exact h.throws _ _ hx

/-- Every value is written in its shortest encoding, which fits into `tmp`, and the readers decode
what they take or run out of bytes. -/
theorem varint_exact {base : Nat} (hbase : 1 ≤ base) {ba : ByteArray} (h : Lifetime base ba) :
    (∀ (garbage : Garbage) (value : UInt32), ∃ tmp, storeGroups 5 [] value.toNat = some tmp ∧
      writeUint32 garbage value ba = write garbage tmp ba ∧
      tmp.length ≤ 5 ∧ Shortest tmp value.toNat) ∧
    (∀ (garbage : Garbage) (value : UInt64), ∃ tmp, storeGroups 10 [] value.toNat = some tmp ∧
      writeUint64 garbage value ba = write garbage tmp ba ∧
      tmp.length ≤ 10 ∧ Shortest tmp value.toNat) ∧
    ReadsVarint 32 5 readUint32 UInt32.toNat ba ∧
    ReadsVarint 64 10 readUint64 UInt64.toNat ba := by
  obtain ⟨hwf, _⟩ := h.wellFormed hbase
  refine ⟨?_, ?_, ?_, ?_⟩
  · intro garbage value
    have hfit : value.toNat < 128 ^ 5 := value.toNat_lt.trans (by decide)
    exact ⟨_, storeGroups_of_lt (by decide) hfit, rfl, length_varint_le (by decide) hfit,
      varint_shortest _⟩
  · intro garbage value
    have hfit : value.toNat < 128 ^ 10 := value.toNat_lt.trans (by decide)
    exact ⟨_, storeGroups_of_lt (by decide) hfit, rfl, length_varint_le (by decide) hfit,
      varint_shortest _⟩
  · exact map_readsVarint (loop_readsVarint hwf 32) UInt32.ofNat UInt32.toNat fun v hv =>
      UInt32.toNat_ofNat_of_lt' hv
  · exact map_readsVarint (loop_readsVarint hwf 64) UInt64.ofNat UInt64.toNat fun v hv =>
      UInt64.toNat_ofNat_of_lt' hv

/-- The largest value of 32 bits fills `tmp`. -/
theorem varint_exact_largest :
    ∃ tmp, storeGroups 5 [] (4294967295 : UInt32).toNat = some tmp ∧ tmp.length ≤ 5 ∧
      Shortest tmp (4294967295 : UInt32).toNat := by
  have hwriters := (varint_exact (by decide : 1 ≤ 16) (.new fun _ _ => 0)).1
  obtain ⟨tmp, hstore, _, hlength, hshortest⟩ := hwriters (fun _ _ => 0) 4294967295
  exact ⟨tmp, hstore, hlength, hshortest⟩

end Lyslg.ByteArray
