import Lyslg.ByteArray.Buffers
import Lyslg.Stream.FixSize
/-!
# Transfers into and out of a `ByteArray`

`SocketStream::read` and `SocketStream::write` over a `ByteArray` hand the
buffers at its cursor to the socket and move the cursor by what was
transferred.  With these as the underlying transfer, all four overloads of
`readFixSize` and `writeFixSize` share the loop lemmas.
-/

namespace Lyslg

open Support.Memory Support.Machine

/-! ## The two transfers -/

/-- Where the first buffer stands in the joined bytes. -/
def ByteArray.buffersAddr (ba : ByteArray) : List ByteArray.IoVec → Nat
  | [] => ba.position
  | v :: _ => v.block * ba.baseSize + v.offset

/-- `if(rt > 0) ba->setPosition(ba->getPosition() + rt)`. -/
def ByteArray.advance (ba : ByteArray) (rt : Int) : Except Fault ByteArray :=
  if 0 < rt then
    match ByteArray.setPosition (ba.position + rt.toNat) ba with
    | .ok _ ba' => .ok ba'
    | .error f _ => .error f
  else .ok ba

/-- `SocketStream::read(ByteArray::ptr ba, size_t length)`.  Every call may grow
the chain, with the contents `garbage` gives for the capacity it grows from. -/
def readInto (garbage : Nat → ByteArray.Garbage) : Transfer (Stream × ByteArray) :=
  fun ev _ length (s, ba) =>
    if ev = .disconnected then .ok (⟨ba.position, length, -1⟩, s, ba)
    else
      match ByteArray.getWriteBuffers (garbage ba.capacity) length ba with
      | .error f _ => .error f
      | .ok (_, iovs) ba => do
          let rt := ev.result (ByteArray.totalLen iovs)
          let root ← ByteArray.scatter iovs (window s.input s.taken rt.toNat) ba.root
          let ba' ← ByteArray.advance { ba with root := root } rt
          return (⟨ba.buffersAddr iovs, ByteArray.totalLen iovs, rt⟩,
            { s with taken := s.taken + rt.toNat }, ba')

/-- `SocketStream::write(ByteArray::ptr ba, size_t length)`. -/
def writeFrom : Transfer (Stream × ByteArray) := fun ev _ length (s, ba) =>
  if ev = .disconnected then .ok (⟨ba.position, length, -1⟩, s, ba)
  else
    match ByteArray.getReadBuffers length ba with
    | .error f _ => .error f
    | .ok (_, iovs) ba => do
        let rt := ev.result (ByteArray.totalLen iovs)
        let bytes ← ByteArray.gather ba.root iovs rt.toNat
        let ba' ← ba.advance rt
        return (⟨ba.buffersAddr iovs, ByteArray.totalLen iovs, rt⟩,
          { s with output := s.output ++ bytes }, ba')

/-- `Stream::readFixSize(ByteArray::ptr ba, size_t length)`. -/
def readFixSizeBA (garbage : Nat → ByteArray.Garbage) (s : Stream) (ba : ByteArray) (length : Nat) :
    FixRun (Stream × ByteArray) :=
  let run := fixLoop (readInto garbage) length s.reads 0 length (s, ba)
  { run with dev := ({ run.dev.1 with reads := run.rest }, run.dev.2) }

/-- `Stream::writeFixSize(ByteArray::ptr ba, size_t length)`. -/
def writeFixSizeBA (s : Stream) (ba : ByteArray) (length : Nat) : FixRun (Stream × ByteArray) :=
  let run := fixLoop writeFrom length s.writes 0 length (s, ba)
  { run with dev := ({ run.dev.1 with writes := run.rest }, run.dev.2) }

/-! ## Both move bytes in order -/

theorem ByteArray.buffersAddr_eq {ba : ByteArray} {vecs : List ByteArray.IoVec}
    (hcont : ByteArray.Contiguous ba.baseSize ba.position vecs) : ba.buffersAddr vecs =
      ba.position := by
  cases vecs with
  | nil => rfl
  | cons v vs => exact hcont.1.symm

/-- The device after `d` bytes were read. -/
def Received (s : Stream) (ba : ByteArray) (d : Nat) (dev : Stream × ByteArray) : Prop :=
  dev.1 = { s with taken := s.taken + d } ∧ ba.Filled (window s.input s.taken d) dev.2

/-- The device after `d` bytes were written. -/
def Sent (s : Stream) (ba : ByteArray) (d : Nat) (dev : Stream × ByteArray) : Prop :=
  dev.1 = { s with output := s.output ++ slice ba.memory ba.position d } ∧
    ba.Moved (ba.position + d) dev.2 ∧ d ≤ ba.getReadSize

/-- The socket stores `bytes` in the buffers at the cursor, and the cursor moves. -/
theorem ByteArray.advance_scatter {ba : ByteArray} (h : ba.WellFormed)
    {vecs : List ByteArray.IoVec} (hcont : ByteArray.Contiguous ba.baseSize ba.position vecs)
    (bytes : List UInt8) (rt : Int) (hrt : rt.toNat = bytes.length)
    (hlen : bytes.length ≤ ByteArray.totalLen vecs)
    (hfit : ba.position + bytes.length ≤ ba.capacity) :
    ∃ root ba', ByteArray.scatter vecs bytes ba.root = .ok root ∧
      ByteArray.advance { ba with root := root } rt = .ok ba' ∧ ba.Filled bytes ba' := by
  by_cases hpos : 0 < rt
  · obtain ⟨root, ba', hscatter, hseek, hfilled⟩ := ByteArray.filled_scatter h hcont hlen hfit
    refine ⟨root, ba', hscatter, ?_, hfilled⟩
    rw [ByteArray.advance, if_pos hpos, hrt, hseek]
  · have hnil : bytes = [] := List.length_eq_zero_iff.mp (by omega)
    subst hnil
    refine ⟨ba.root, ba, by simp [ByteArray.scatter], ?_, ByteArray.filled_self h⟩
    rw [ByteArray.advance, if_neg hpos]

theorem inOrder_readInto (garbage : Nat → ByteArray.Garbage) (s : Stream) (ba : ByteArray)
    (length : Nat) : InOrder (readInto garbage) ba.position length length (Received s ba) := by
  constructor
  rintro ev d ⟨s', ba'⟩ hd ⟨hs, hfilled⟩
  simp only at hs hfilled
  have hpos := hfilled.position_eq
  rw [length_window] at hpos
  rw [Nat.min_self]
  by_cases hdis : ev = .disconnected
  · subst hdis
    exact ⟨_, _, by rw [readInto, if_pos rfl], hpos, Nat.le_refl _, rfl, by simp⟩
  · have hle := ev.result_le (length - d)
    obtain ⟨r, hr⟩ : ∃ r, r = (ev.result (length - d)).toNat := ⟨_, rfl⟩
    obtain ⟨vecs, hget, hcont, htotal⟩ := ByteArray.getWriteBuffers_spec hfilled.wellFormed
      (garbage ba'.capacity) (by omega : 0 < length - d)
    have hgrown :=
      ByteArray.filled_addCapacity hfilled.wellFormed (garbage ba'.capacity) (length - d)
    obtain ⟨_, _, _, _, _, _, _, hleast⟩ :=
      ByteArray.addCapacity_spec hfilled.wellFormed (garbage ba'.capacity) (length - d)
    have hroom := hleast.1.2.2
    have hgpos := hgrown.position_eq
    rw [List.length_nil, Nat.add_zero] at hgpos
    rw [← hgpos, ← hgrown.baseSize_eq] at hcont
    obtain ⟨root, ba'', hscatter, hadvance, hfilled'⟩ :=
      ByteArray.advance_scatter hgrown.wellFormed hcont
        (window s.input (s.taken + d) r) (ev.result (length - d))
        (by rw [length_window, hr]) (by rw [length_window]; omega) (by rw [length_window]; omega)
    refine ⟨⟨ba.position + d, length - d, ev.result (length - d)⟩,
      ({ s with taken := s.taken + d + r }, ba''), ?_, rfl, Nat.le_refl _, rfl, ?_⟩
    · rw [readInto, if_neg hdis]
      simp only [hget, htotal, ByteArray.buffersAddr_eq hcont, hs, ← hr, hscatter]
      change (do let x ← ByteArray.advance _ _; _) = _
      rw [hadvance, hgpos, hpos]
      rfl
    · intro _
      have hall := hfilled.trans (hgrown.trans hfilled')
      rw [List.nil_append, window_append_window] at hall
      rw [← hr, Received, Nat.add_assoc]
      exact ⟨rfl, hall⟩

theorem ByteArray.advance_moved {ba : ByteArray} (h : ba.WellFormed) {rt : Int}
    (hfit : ba.position + rt.toNat ≤ ba.capacity) :
    ∃ ba', ba.advance rt = .ok ba' ∧ ba.Moved (ba.position + rt.toNat) ba' := by
  by_cases hpos : 0 < rt
  · obtain ⟨ba', hseek, hm⟩ := ByteArray.setPosition_spec h hfit
    exact ⟨ba', by rw [ByteArray.advance, if_pos hpos, hseek], hm⟩
  · refine ⟨ba, by rw [ByteArray.advance, if_neg hpos], ?_⟩
    rw [(by omega : ba.position + rt.toNat = ba.position)]
    exact ByteArray.moved_self h

theorem inOrder_writeFrom (s : Stream) {ba : ByteArray} (h : ba.WellFormed) (length : Nat) :
    InOrder writeFrom ba.position length ba.getReadSize (Sent s ba) := by
  constructor
  rintro ev d ⟨s', ba'⟩ hd ⟨hs, hmoved, hdle⟩
  simp only at hs hmoved
  have hpos := hmoved.position_eq
  have hread : ba.getReadSize = ba.size - ba.position := rfl
  have hsize := h.size_le
  have hle := h.position_le
  have hread' : ba'.getReadSize = ba.getReadSize - d := by
    rw [ByteArray.getReadSize, hmoved.size_eq, hpos, hread]
    omega
  by_cases hdis : ev = .disconnected
  · subst hdis
    exact ⟨_, _, by rw [writeFrom, if_pos rfl], hpos, Nat.le_refl _, rfl, by simp⟩
  · obtain ⟨vecs, hget, hcont, htotal⟩ :=
      ByteArray.getReadBuffers_spec hmoved.wellFormed (length - d)
    rw [hread'] at hget htotal
    have hres := ev.result_le (min (length - d) (ba.getReadSize - d))
    obtain ⟨rt, hrt⟩ : ∃ rt, rt = ev.result (min (length - d) (ba.getReadSize - d)) := ⟨_, rfl⟩
    rw [← hrt] at hres ⊢
    have hgather := ByteArray.gather_spec hmoved.wellFormed.blocks hcont (n := rt.toNat)
      (by omega) (by rw [← hmoved.wellFormed.capacity_eq, hmoved.capacity_eq]; omega)
    obtain ⟨ba'', hadvance, hm⟩ := ByteArray.advance_moved hmoved.wellFormed
      (by rw [hmoved.capacity_eq]; omega : ba'.position + rt.toNat ≤ ba'.capacity)
    have hbytes : slice ba.memory ba.position d ++ slice ba'.root.flatten ba'.position rt.toNat
        = slice ba.memory ba.position (d + rt.toNat) := by
      rw [← ByteArray.memory, hmoved.memory_eq, hpos, slice_append_slice]
    refine ⟨⟨ba.position + d, min (length - d) (ba.getReadSize - d), rt⟩,
      ({ s with output := s.output ++ slice ba.memory ba.position (d + rt.toNat) }, ba''),
      ?_, rfl, Nat.min_le_left _ _, rfl, ?_⟩
    · rw [writeFrom, if_neg hdis]
      simp only [hget, htotal, ByteArray.buffersAddr_eq hcont, hs, ← hrt, hgather]
      change (do let x ← ByteArray.advance _ _; _) = _
      rw [hadvance, hpos, List.append_assoc, ← hpos, hbytes]
      rfl
    · intro _
      change Sent s ba (d + rt.toNat) _
      refine ⟨rfl, ?_, by omega⟩
      have hall := hmoved.trans hm (by omega)
      rwa [hpos, Nat.add_assoc] at hall

/-! ## The contract of the four overloads -/

/-- All four fixed-size transfers keep their promises exactly on the event
scripts in which no failure comes up while bytes are still missing. -/
theorem fixSize_sound_iff (s : Stream) (length : Nat) (hlen : length < 2 ^ 31) :
    (∀ memory base, base + length ≤ memory.length → memory.length < 2 ^ 64 →
      let run := readFixSize s memory base length
      (run.Sound base length ∧ (run.status = .returned length →
          run.dev.1.taken = s.taken + length ∧
          run.dev.2 = splice memory base (window s.input s.taken length)) ↔
        meetsError s.reads length length = false)) ∧
    (∀ buffer, buffer.length = length →
      let run := writeFixSize s buffer length
      (run.Sound 0 length ∧ (run.status = .returned length →
          run.dev.output = s.output ++ buffer) ↔
        meetsError s.writes length length = false)) ∧
    (∀ garbage ba, ba.WellFormed →
      let run := readFixSizeBA garbage s ba length
      (run.Sound ba.position length ∧ (run.status = .returned length →
          run.dev.1.taken = s.taken + length ∧
          ba.Filled (window s.input s.taken length) run.dev.2) ↔
        meetsError s.reads length length = false)) ∧
    (∀ ba, ba.WellFormed →
      let run := writeFixSizeBA s ba length
      (run.Sound ba.position length ∧ (run.status = .returned length →
          run.dev.1.output = s.output ++ slice ba.memory ba.position length ∧
          ba.Moved (ba.position + length) run.dev.2) ↔
        meetsError s.writes length ba.getReadSize = false)) := by
  refine ⟨?_, ?_, ?_, ?_⟩
  · intro memory base hfit hsize run
    have hio := inOrder_readTransfer s hfit hsize
    have hstart : (s, memory) = received s memory base 0 := by simp [received]
    have hsound : run.Sound base length ↔ meetsError s.reads length length = false :=
      (FixRun.sound_with_dev _).trans (fixLoop_sound_iff hio hlen s.reads hstart)
    rw [hsound]
    refine and_iff_left_of_imp fun hclean hstatus => ?_
    have hend := fixLoop_complete hio hlen hstart hclean hstatus
    simp [run, readFixSize, hend, received]
  · intro buffer hbuffer run
    have hio := inOrder_writeTransfer s (Nat.le_of_eq hbuffer.symm)
    have hstart : s = { s with output := s.output ++ slice buffer 0 0 } := by simp
    have hsound : run.Sound 0 length ↔ meetsError s.writes length length = false :=
      (FixRun.sound_with_dev _).trans (fixLoop_sound_iff hio hlen s.writes hstart)
    rw [hsound]
    refine and_iff_left_of_imp fun hclean hstatus => ?_
    have hend := fixLoop_complete hio hlen hstart hclean hstatus
    simp only [run, writeFixSize, hend]
    rw [← hbuffer, slice_full]
  · intro garbage ba h run
    have hio := inOrder_readInto garbage s ba length
    have hstart : Received s ba 0 (s, ba) := ⟨rfl, ByteArray.filled_self h⟩
    have hsound : run.Sound ba.position length ↔ meetsError s.reads length length = false :=
      (FixRun.sound_with_dev _).trans (fixLoop_sound_iff hio hlen s.reads hstart)
    rw [hsound]
    refine and_iff_left_of_imp fun hclean hstatus => ?_
    obtain ⟨hs, hfilled⟩ := fixLoop_complete hio hlen hstart hclean hstatus
    exact ⟨congrArg Stream.taken hs, hfilled⟩
  · intro ba h run
    have hio := inOrder_writeFrom s h length
    have hstart : Sent s ba 0 (s, ba) :=
      ⟨by simp, ByteArray.moved_self h, Nat.zero_le _⟩
    have hsound : run.Sound ba.position length ↔
        meetsError s.writes length ba.getReadSize = false :=
      (FixRun.sound_with_dev _).trans (fixLoop_sound_iff hio hlen s.writes hstart)
    rw [hsound]
    refine and_iff_left_of_imp fun hclean hstatus => ?_
    obtain ⟨hs, hmoved, _⟩ := fixLoop_complete hio hlen hstart hclean hstatus
    exact ⟨congrArg Stream.output hs, hmoved⟩

/-- A read of four bytes whose first `recv` fails with `-1`: the loop goes on one
byte before the buffer. -/
theorem readFixSize_unsound_after_error :
    let error := Event.fails (-1) (by decide) (by decide)
    let s : Stream := ⟨fun _ => 7, 0, [error, .moves 4 (by decide) (by decide)], [], [], false⟩
    ¬ (readFixSize s [0, 0, 0, 0] 0 4).Sound 0 4 ∧
      (readFixSize s [0, 0, 0, 0] 0 4).status = .fault .outOfBounds := by
  intro error s
  have hrun : (readFixSize s [0, 0, 0, 0] 0 4).calls = [⟨0, 4, -1⟩] ∧
      (readFixSize s [0, 0, 0, 0] 0 4).status = .fault .outOfBounds := by decide +kernel
  refine ⟨fun h => ?_, hrun.2⟩
  have hstop := (h.stops [] _ [] hrun.1 (by decide)).2
  rw [hrun.2] at hstop
  cases hstop

/-- A clean script of short reads, and one that ends in a close. -/
theorem fixSize_sound_iff_short :
    let short := Event.moves 1 (by decide) (by decide)
    let s : Stream :=
      ⟨fun i => UInt8.ofNat i, 0, [short, short, .closed], [], [short, short], false⟩
    (readFixSize s [0, 0, 0] 1 2).Sound 1 2 ∧ (writeFixSize s [5, 6] 2).Sound 0 2 := by
  intro short s
  have h := fixSize_sound_iff s 2 (by decide)
  exact ⟨((h.1 [0, 0, 0] 1 (by decide) (by decide)).mpr (by decide)).1,
    ((h.2.1 [5, 6] rfl).mpr (by decide)).1⟩

end Lyslg
