import Lyslg.Stream.SSLSocket
/-!
# Transfers over an `SSLSocket`

The contract of `SSLSocket::recv` and `SSLSocket::send` over `iovec`s, and of `SocketStream::read`
and `SocketStream::write` of a `ByteArray` over them: what is returned is what was moved, it was
moved in order, and the cursor goes along.  `sslSocket_exact_iff` says on which results of the
library the four keep it.
-/

namespace Lyslg

open Support.Memory Support.Machine Support.State

/-! ## The four contracts -/

/-- `SSLSocket::recv` returns what it took of the peer's bytes, and these fill the buffers from
the front. -/
def RecvExact (ssl : Bool) (buffers : List ByteArray.IoVec) (s : Stream) (blocks : List Block) :
    Prop :=
  let run := sslRecv ssl buffers s blocks
  ∃ rt, run.status = .returned rt ∧ run.Exact buffers rt ∧
    run.dev.1.taken = s.taken + run.moved ∧
    ByteArray.scatter buffers (window s.input s.taken run.moved) blocks = .ok run.dev.2

/-- `SSLSocket::send` returns what it gave the peer, and these are the first bytes of the
buffers. -/
def SendExact (ssl : Bool) (buffers : List ByteArray.IoVec) (s : Stream) (blocks : List Block) :
    Prop :=
  let run := sslSend ssl buffers s blocks
  ∃ rt bytes, run.status = .returned rt ∧ run.Exact buffers rt ∧
    ByteArray.gather blocks buffers run.moved = .ok bytes ∧ run.dev.output = s.output ++ bytes

/-- `SocketStream::read` stores what it took at the cursor, which goes on by as much. -/
def ReadExact (connected ssl : Bool) (garbage : ByteArray.Garbage) (length : Nat) (s : Stream)
    (ba : ByteArray) (buffers : List ByteArray.IoVec) : Prop :=
  let run := sslReadInto connected ssl garbage length s ba
  ∃ rt, run.status = .returned rt ∧ run.Exact buffers rt ∧
    run.dev.1.taken = s.taken + run.moved ∧ run.dev.2.position = ba.position + run.moved ∧
    ba.Filled (window s.input s.taken run.moved) run.dev.2

/-- `SocketStream::write` sends the bytes at the cursor, which goes on by as many. -/
def WriteExact (connected ssl : Bool) (length : Nat) (s : Stream) (ba : ByteArray)
    (buffers : List ByteArray.IoVec) : Prop :=
  let run := sslWriteFrom connected ssl length s ba
  ∃ rt, run.status = .returned rt ∧ run.Exact buffers rt ∧
    run.dev.1.output = s.output ++ slice ba.memory ba.position run.moved ∧
    run.dev.2.position = ba.position + run.moved

/-! ## The socket -/

section

variable {ssl : Bool} {buffers : List ByteArray.IoVec} {s : Stream} {blocks : List Block}

/-- The contract of a run that has moved nothing and returns `-1`. -/
theorem exact_no_ssl {δ : Type} (buffers : List ByteArray.IoVec) (dev : δ) (events : List Event) :
    (⟨[], .returned (-1), dev, events⟩ : SslRun δ).Exact buffers (-1) where
  inOrder := by cases buffers <;> rfl
  total h := absurd h (Nat.lt_irrefl 0)
  nothing := iff_of_true (by decide) rfl

theorem sslRecv_returns (ssl : Bool) (hin : Within blocks buffers)
    (hreads : buffers.length ≤ s.reads.length) :
    ∃ rt, (sslRecv ssl buffers s blocks).status = .returned rt := by
  cases ssl with
  | false => exact ⟨-1, rfl⟩
  | true =>
      refine sslLoop_returns (J := fun dev => dev.2.map List.length = blocks.map List.length)
        (fun v hv k hk dev hdev => ?_) hreads rfl 0
      have hone : Within dev.2 [v] := Within.of_lengths (fun w hw => by
        rw [List.mem_singleton.mp hw]; exact hin v hv) hdev
      obtain ⟨dev', hread, hsame⟩ := sslRead_returns (s := dev.1) hone hk
      exact ⟨dev', hread, hsame.trans hdev⟩

theorem sslSend_returns (ssl : Bool) (hin : Within blocks buffers)
    (hwrites : buffers.length ≤ s.writes.length) :
    ∃ rt, (sslSend ssl buffers s blocks).status = .returned rt := by
  cases ssl with
  | false => exact ⟨-1, rfl⟩
  | true =>
      refine sslLoop_returns (J := fun _ => True) (fun v hv k hk s' _ => ?_) hwrites trivial 0
      obtain ⟨s'', hwrite⟩ := sslWrite_returns (s := s')
        (fun w hw => by rw [List.mem_singleton.mp hw]; exact hin v hv : Within blocks [v]) hk
      exact ⟨s'', hwrite, trivial⟩

/-- The contract is about the parts only. -/
theorem exact_of_parts {δ ε : Type} {run : SslRun δ} {run' : SslRun ε} {rt : Int}
    (hparts : run'.parts = run.parts) (h : run.Exact buffers rt) : run'.Exact buffers rt := by
  have hmoved : run'.moved = run.moved := congrArg List.sum hparts
  refine ⟨?_, ?_, ?_⟩
  · rw [hparts, hmoved]
    exact h.inOrder
  · rw [hmoved]
    exact h.total
  · rw [hmoved]
    exact h.nothing

/-- The cursor goes on by what was moved. -/
theorem SslRun.Exact.toNat_eq {δ : Type} {run : SslRun δ} {rt : Int} (h : run.Exact buffers rt) :
    rt.toNat = run.moved := by
  have htotal := h.total
  have hnothing := h.nothing
  omega

theorem loop_exact_iff {δ ε : Type} {move : ByteArray.IoVec → Nat → δ → Except Fault δ} {dev : δ}
    {events : List Event} (run : SslRun ε) {rt : Int}
    (hparts : run.parts = (sslLoop move buffers events 0 dev).parts)
    (h : (sslLoop move buffers events 0 dev).status = .returned rt) :
    run.Exact buffers rt ↔ nothingLost 0 buffers events = true := by
  have hzero : int32 ((0 : Nat) : Int) = 0 := by rw [Nat.cast_zero, int32_zero]
  have hloop : (sslLoop move buffers events (int32 (0 : Nat)) dev).ExactFrom buffers 0 0 rt ↔
      nothingLost 0 buffers events = true :=
    sslLoop_exact_iff buffers events 0 (by rw [hzero]; exact h)
  rw [hzero] at hloop
  rw [← hloop]
  exact ⟨exact_of_parts hparts.symm, exact_of_parts hparts⟩

theorem sslRecv_exact_iff {rt : Int} (h : (sslRecv ssl buffers s blocks).status = .returned rt) :
    (sslRecv ssl buffers s blocks).Exact buffers rt ↔
      (ssl = true → nothingLost 0 buffers s.reads = true) := by
  cases ssl with
  | false =>
      cases h
      exact iff_of_true (exact_no_ssl buffers _ _) (fun h => by cases h)
  | true =>
      rw [loop_exact_iff (sslRecv true buffers s blocks) rfl h]
      exact ⟨fun h _ => h, fun h => h rfl⟩

theorem sslSend_exact_iff {rt : Int} (h : (sslSend ssl buffers s blocks).status = .returned rt) :
    (sslSend ssl buffers s blocks).Exact buffers rt ↔
      (ssl = true → nothingLost 0 buffers s.writes = true) := by
  cases ssl with
  | false =>
      cases h
      exact iff_of_true (exact_no_ssl buffers _ _) (fun h => by cases h)
  | true =>
      rw [loop_exact_iff (sslSend true buffers s blocks) rfl h]
      exact ⟨fun h _ => h, fun h => h rfl⟩

/-- What the socket does where nothing is lost. -/
theorem sslRecv_moves {rt : Int} (hlost : ssl = true → nothingLost 0 buffers s.reads = true)
    (h : (sslRecv ssl buffers s blocks).status = .returned rt) :
    (sslRecv ssl buffers s blocks).dev.1.taken =
        s.taken + (sslRecv ssl buffers s blocks).moved ∧
      ByteArray.scatter buffers
          (window s.input s.taken (sslRecv ssl buffers s blocks).moved) blocks =
        .ok (sslRecv ssl buffers s blocks).dev.2 ∧
      (sslRecv ssl buffers s blocks).moved ≤ ByteArray.totalLen buffers := by
  cases ssl with
  | false => exact ⟨rfl, scatter_nil buffers blocks, Nat.zero_le _⟩
  | true =>
      obtain ⟨hdev, hscatter, hle⟩ := sslLoop_read (hlost rfl) h
      exact ⟨congrArg Stream.taken hdev, hscatter, hle⟩

theorem sslSend_moves {rt : Int} (hlost : ssl = true → nothingLost 0 buffers s.writes = true)
    (h : (sslSend ssl buffers s blocks).status = .returned rt) :
    ∃ bytes, ByteArray.gather blocks buffers (sslSend ssl buffers s blocks).moved = .ok bytes ∧
      (sslSend ssl buffers s blocks).dev.output = s.output ++ bytes ∧
      (sslSend ssl buffers s blocks).moved ≤ ByteArray.totalLen buffers := by
  cases ssl with
  | false => exact ⟨[], by cases buffers <;> rfl, (List.append_nil _).symm, Nat.zero_le _⟩
  | true =>
      obtain ⟨bytes, hgather, hdev, hle⟩ := sslLoop_write (hlost rfl) h
      exact ⟨bytes, hgather, congrArg Stream.output hdev, hle⟩

theorem recvExact_iff (hin : Within blocks buffers) (hreads : buffers.length ≤ s.reads.length) :
    RecvExact ssl buffers s blocks ↔ (ssl = true → nothingLost 0 buffers s.reads = true) := by
  obtain ⟨rt, hstatus⟩ := sslRecv_returns ssl hin hreads
  constructor
  · rintro ⟨rt', hstatus', hexact, _⟩
    exact (sslRecv_exact_iff hstatus').mp hexact
  · intro hlost
    obtain ⟨htaken, hscatter, _⟩ := sslRecv_moves hlost hstatus
    exact ⟨rt, hstatus, (sslRecv_exact_iff hstatus).mpr hlost, htaken, hscatter⟩

theorem sendExact_iff (hin : Within blocks buffers) (hwrites : buffers.length ≤ s.writes.length) :
    SendExact ssl buffers s blocks ↔ (ssl = true → nothingLost 0 buffers s.writes = true) := by
  obtain ⟨rt, hstatus⟩ := sslSend_returns ssl hin hwrites
  constructor
  · rintro ⟨rt', bytes, hstatus', hexact, _⟩
    exact (sslSend_exact_iff hstatus').mp hexact
  · intro hlost
    obtain ⟨bytes, hgather, hout, _⟩ := sslSend_moves hlost hstatus
    exact ⟨rt, bytes, hstatus, (sslSend_exact_iff hstatus).mpr hlost, hgather, hout⟩

end

/-! ## A `ByteArray` -/

section

variable {ssl : Bool} {s : Stream} {ba ba' : ByteArray} {buffers : List ByteArray.IoVec}
  {length n : Nat} {garbage : ByteArray.Garbage}

theorem within_of_contiguous {b addr : Nat} {blocks : List Block}
    (hblocks : ∀ node ∈ blocks, node.length = b) (hcont : ByteArray.Contiguous b addr buffers)
    (hfit : addr + ByteArray.totalLen buffers ≤ blocks.length * b) : Within blocks buffers := by
  induction buffers generalizing addr with
  | nil => exact fun v hv => absurd hv List.not_mem_nil
  | cons v buffers ih =>
      obtain ⟨haddr, hvec, hrest⟩ := hcont
      have hsum : ByteArray.totalLen (v :: buffers) = v.len + ByteArray.totalLen buffers := rfl
      rw [hsum] at hfit
      refine List.forall_mem_cons.mpr ⟨fun hpos => ?_, ih hrest (by omega)⟩
      have hend : addr + v.len ≤ blocks.length * b := by omega
      obtain ⟨node, hnode⟩ := ByteArray.block_exists (ByteArray.block_index_lt haddr hpos hend)
      exact ⟨node, hnode, by rw [hblocks node (List.mem_of_getElem? hnode)]; exact hvec⟩

/-- What is known of the buffers that `getWriteBuffers` pushes, and of the array after it. -/
theorem getWriteBuffers_eq_ok (h : ba.WellFormed)
    (hget : ByteArray.getWriteBuffers garbage length ba = .ok (n, buffers) ba') :
    ba.Filled [] ba' ∧ ByteArray.Contiguous ba'.baseSize ba'.position buffers ∧
      ba'.position + ByteArray.totalLen buffers ≤ ba'.capacity := by
  rcases Nat.eq_zero_or_pos length with rfl | hpos
  · have hnil : ByteArray.getWriteBuffers garbage 0 ba = .ok (0, []) ba := rfl
    cases hnil.symm.trans hget
    exact ⟨ByteArray.filled_self h, trivial, h.position_le.trans h.size_le⟩
  · obtain ⟨vecs, hok, hcont, htotal⟩ := ByteArray.getWriteBuffers_spec h garbage hpos
    have hgrown := ByteArray.filled_addCapacity h garbage length
    obtain ⟨_, _, _, _, _, _, _, hleast⟩ := ByteArray.addCapacity_spec h garbage length
    have hroom := hleast.1.2.2
    have hposition := hgrown.position_eq
    rw [List.length_nil, Nat.add_zero] at hposition
    rw [← hposition, ← hgrown.baseSize_eq] at hcont
    cases hok.symm.trans hget
    exact ⟨hgrown, hcont, by rw [hposition, htotal]; exact hroom⟩

/-- What `read` has done, where the socket returns and nothing is lost. -/
theorem readExact_of_clean (h : ba.WellFormed)
    (hget : ByteArray.getWriteBuffers garbage length ba = .ok (n, buffers) ba')
    (hreads : buffers.length ≤ s.reads.length)
    (hlost : ssl = true → nothingLost 0 buffers s.reads = true) :
    ReadExact true ssl garbage length s ba buffers := by
  obtain ⟨hgrown, hcont, hfit⟩ := getWriteBuffers_eq_ok h hget
  have hwf := hgrown.wellFormed
  have hin : Within ba'.root buffers :=
    within_of_contiguous hwf.blocks hcont (by rw [← hwf.capacity_eq]; exact hfit)
  obtain ⟨rt, hstatus⟩ := sslRecv_returns ssl hin hreads
  have hexact := (sslRecv_exact_iff hstatus).mpr hlost
  obtain ⟨htaken, hscatter, hle⟩ := sslRecv_moves hlost hstatus
  have hlen := length_window s.input s.taken (sslRecv ssl buffers s ba'.root).moved
  obtain ⟨root, ba'', hroot, hadvance, hfilled⟩ :=
    ByteArray.advance_scatter hwf hcont
      (window s.input s.taken (sslRecv ssl buffers s ba'.root).moved) rt
      (by rw [hlen]; exact hexact.toNat_eq) (by omega) (by omega)
  rw [hscatter] at hroot
  cases hroot
  have hrun : sslReadInto true ssl garbage length s ba =
      ⟨(sslRecv ssl buffers s ba'.root).parts, .returned rt,
        ((sslRecv ssl buffers s ba'.root).dev.1, ba''), (sslRecv ssl buffers s ba'.root).rest⟩ := by
    simp only [sslReadInto, hget, hstatus, hadvance]
    rfl
  have hall := hgrown.trans hfilled
  rw [List.nil_append] at hall
  have hposition := hall.position_eq
  rw [hlen] at hposition
  rw [ReadExact, hrun]
  exact ⟨rt, rfl, exact_of_parts (by rfl) hexact, htaken, hposition, hall⟩

/-- The parts of a read that returns are those of the socket. -/
theorem sslReadInto_parts {rt : Int}
    (hget : ByteArray.getWriteBuffers garbage length ba = .ok (n, buffers) ba')
    (h : (sslReadInto true ssl garbage length s ba).status = .returned rt) :
    (sslRecv ssl buffers s ba'.root).status = .returned rt ∧
      (sslReadInto true ssl garbage length s ba).parts =
        (sslRecv ssl buffers s ba'.root).parts := by
  simp only [sslReadInto, Bool.not_true, Bool.false_eq_true, if_false, hget] at h ⊢
  generalize sslRecv ssl buffers s ba'.root = run at *
  cases hstatus : run.status with
  | returned rt' =>
      simp only [hstatus] at h ⊢
      cases hadvance : ByteArray.advance { ba' with root := run.dev.2 } rt' with
      | error f =>
          rw [hadvance] at h
          cases h
      | ok ba'' =>
          rw [hadvance] at h
          cases h
          exact ⟨rfl, rfl⟩
  | fault f =>
      rw [hstatus] at h
      cases h
  | blocked =>
      rw [hstatus] at h
      cases h

theorem readExact_iff (h : ba.WellFormed)
    (hget : ByteArray.getWriteBuffers garbage length ba = .ok (n, buffers) ba')
    (hreads : buffers.length ≤ s.reads.length) :
    ReadExact true ssl garbage length s ba buffers ↔
      (ssl = true → nothingLost 0 buffers s.reads = true) := by
  constructor
  · rintro ⟨rt, hstatus, hexact, _⟩
    obtain ⟨hrecv, hparts⟩ := sslReadInto_parts hget hstatus
    exact (sslRecv_exact_iff hrecv).mp (exact_of_parts hparts.symm hexact)
  · exact readExact_of_clean h hget hreads

/-- What is known of the buffers that `getReadBuffers` pushes. -/
theorem getReadBuffers_eq_ok (h : ba.WellFormed)
    (hget : ByteArray.getReadBuffers length ba = .ok (n, buffers) ba') :
    ba' = ba ∧ ByteArray.Contiguous ba.baseSize ba.position buffers ∧
      ba.position + ByteArray.totalLen buffers ≤ ba.capacity := by
  obtain ⟨vecs, hok, hcont, htotal⟩ := ByteArray.getReadBuffers_spec h length
  have hread : ba.getReadSize = ba.size - ba.position := rfl
  have hsize := h.size_le
  have hle := h.position_le
  cases hok.symm.trans hget
  exact ⟨rfl, hcont, by rw [htotal]; omega⟩

/-- What `write` has done, where the socket returns and nothing is lost. -/
theorem writeExact_of_clean (h : ba.WellFormed)
    (hget : ByteArray.getReadBuffers length ba = .ok (n, buffers) ba')
    (hwrites : buffers.length ≤ s.writes.length)
    (hlost : ssl = true → nothingLost 0 buffers s.writes = true) :
    WriteExact true ssl length s ba buffers := by
  obtain ⟨rfl, hcont, hfit⟩ := getReadBuffers_eq_ok h hget
  have hin : Within ba'.root buffers :=
    within_of_contiguous h.blocks hcont (by rw [← h.capacity_eq]; exact hfit)
  obtain ⟨rt, hstatus⟩ := sslSend_returns ssl hin hwrites
  have hexact := (sslSend_exact_iff hstatus).mpr hlost
  obtain ⟨bytes, hgather, hout, hle⟩ := sslSend_moves hlost hstatus
  rw [ByteArray.gather_spec h.blocks hcont hle (by rw [← h.capacity_eq]; omega)] at hgather
  cases hgather
  have hmoved := hexact.toNat_eq
  obtain ⟨ba'', hadvance, hseek⟩ :=
    ByteArray.advance_moved h (by omega : ba'.position + rt.toNat ≤ ba'.capacity)
  have hrun : sslWriteFrom true ssl length s ba' =
      ⟨(sslSend ssl buffers s ba'.root).parts, .returned rt,
        ((sslSend ssl buffers s ba'.root).dev, ba''), (sslSend ssl buffers s ba'.root).rest⟩ := by
    simp only [sslWriteFrom, hget, hstatus, hadvance]
    rfl
  have hposition := hseek.position_eq
  rw [hmoved] at hposition
  rw [WriteExact, hrun]
  exact ⟨rt, rfl, exact_of_parts (by rfl) hexact, hout, hposition⟩

theorem sslWriteFrom_parts {rt : Int}
    (hget : ByteArray.getReadBuffers length ba = .ok (n, buffers) ba')
    (h : (sslWriteFrom true ssl length s ba).status = .returned rt) :
    (sslSend ssl buffers s ba'.root).status = .returned rt ∧
      (sslWriteFrom true ssl length s ba).parts = (sslSend ssl buffers s ba'.root).parts := by
  simp only [sslWriteFrom, Bool.not_true, Bool.false_eq_true, if_false, hget] at h ⊢
  generalize sslSend ssl buffers s ba'.root = run at *
  cases hstatus : run.status with
  | returned rt' =>
      simp only [hstatus] at h ⊢
      cases hadvance : ByteArray.advance ba' rt' with
      | error f =>
          rw [hadvance] at h
          cases h
      | ok ba'' =>
          rw [hadvance] at h
          cases h
          exact ⟨rfl, rfl⟩
  | fault f =>
      rw [hstatus] at h
      cases h
  | blocked =>
      rw [hstatus] at h
      cases h

theorem writeExact_iff (h : ba.WellFormed)
    (hget : ByteArray.getReadBuffers length ba = .ok (n, buffers) ba')
    (hwrites : buffers.length ≤ s.writes.length) :
    WriteExact true ssl length s ba buffers ↔
      (ssl = true → nothingLost 0 buffers s.writes = true) := by
  constructor
  · rintro ⟨rt, hstatus, hexact, _⟩
    obtain ⟨hsend, hparts⟩ := sslWriteFrom_parts hget hstatus
    exact (sslSend_exact_iff hsend).mp (exact_of_parts hparts.symm hexact)
  · exact writeExact_of_clean h hget hwrites

theorem readExact_disconnected (h : ba.WellFormed) :
    ReadExact false ssl garbage length s ba buffers := by
  refine ⟨-1, rfl, exact_no_ssl buffers _ _, rfl, rfl, ?_⟩
  rw [show (sslReadInto false ssl garbage length s ba).moved = 0 from rfl, window_zero]
  exact ByteArray.filled_self h

theorem writeExact_disconnected : WriteExact false ssl length s ba buffers :=
  ⟨-1, rfl, exact_no_ssl buffers _ _, (List.append_nil _).symm, rfl⟩

end

/-! ## All four -/

/-- The two transfers of an `SSLSocket` and the two of a `SocketStream` over it keep their contract
exactly on the results that lose nothing. -/
theorem sslSocket_exact_iff (ssl : Bool) (s : Stream) :
    (∀ buffers blocks, Within blocks buffers → buffers.length ≤ s.reads.length →
      (RecvExact ssl buffers s blocks ↔ (ssl = true → nothingLost 0 buffers s.reads = true))) ∧
    (∀ buffers blocks, Within blocks buffers → buffers.length ≤ s.writes.length →
      (SendExact ssl buffers s blocks ↔ (ssl = true → nothingLost 0 buffers s.writes = true))) ∧
    (∀ connected garbage length (ba ba' : ByteArray) n buffers, ba.WellFormed →
      ByteArray.getWriteBuffers garbage length ba = .ok (n, buffers) ba' →
      buffers.length ≤ s.reads.length →
      (ReadExact connected ssl garbage length s ba buffers ↔
        (connected = true → ssl = true → nothingLost 0 buffers s.reads = true))) ∧
    (∀ connected length (ba ba' : ByteArray) n buffers, ba.WellFormed →
      ByteArray.getReadBuffers length ba = .ok (n, buffers) ba' →
      buffers.length ≤ s.writes.length →
      (WriteExact connected ssl length s ba buffers ↔
        (connected = true → ssl = true → nothingLost 0 buffers s.writes = true))) := by
  refine ⟨?_, ?_, ?_, ?_⟩
  · intro buffers blocks hin hreads
    exact recvExact_iff hin hreads
  · intro buffers blocks hin hwrites
    exact sendExact_iff hin hwrites
  · intro connected garbage length ba ba' n buffers h hget hreads
    cases connected with
    | false => exact iff_of_true (readExact_disconnected h) (fun h => by cases h)
    | true =>
        rw [readExact_iff h hget hreads]
        exact ⟨fun hlost _ => hlost, fun hlost => hlost rfl⟩
  · intro connected length ba ba' n buffers h hget hwrites
    cases connected with
    | false => exact iff_of_true writeExact_disconnected (fun h => by cases h)
    | true =>
        rw [writeExact_iff h hget hwrites]
        exact ⟨fun hlost _ => hlost, fun hlost => hlost rfl⟩

/-- A buffer filled whole and one in part, and an array with room for three bytes. -/
theorem sslSocket_exact_iff_short :
    let two := Event.moves 2 (by decide) (by decide)
    let one := Event.moves 1 (by decide) (by decide)
    let s : Stream := ⟨fun i => UInt8.ofNat i, 0, [two, one], [], [two, one], false⟩
    RecvExact true [⟨0, 0, 2⟩, ⟨0, 2, 2⟩] s [[9, 9, 9, 9]] ∧
      SendExact true [⟨0, 0, 2⟩, ⟨0, 2, 2⟩] s [[9, 9, 9, 9]] ∧
      ReadExact true true (fun _ _ => 0) 3 s (ByteArray.new (fun _ _ => 0) 2)
      [⟨0, 0, 2⟩, ⟨1, 0, 1⟩] ∧
      WriteExact true true 3 s (ByteArray.new (fun _ _ => 0) 2) [] := by
  intro two one s
  have h := sslSocket_exact_iff true s
  have hwf := ByteArray.wellFormed_new (fun _ _ => 0) (by decide : 1 ≤ 2)
  have hin : Within [[9, 9, 9, 9]] [⟨0, 0, 2⟩, ⟨0, 2, 2⟩] := by
    intro v hv hpos
    rcases List.mem_pair.mp hv with rfl | rfl
    · exact ⟨[9, 9, 9, 9], rfl, by decide⟩
    · exact ⟨[9, 9, 9, 9], rfl, by decide⟩
  obtain ⟨grown, hget⟩ : ∃ ba', ByteArray.getWriteBuffers (fun _ _ => 0) 3
      (ByteArray.new (fun _ _ => 0) 2) = .ok (3, [⟨0, 0, 2⟩, ⟨1, 0, 1⟩]) ba' := ⟨_, by rfl⟩
  refine ⟨?_, ?_, ?_, ?_⟩
  · exact (h.1 _ _ hin (by decide)).mpr fun _ => by decide +kernel
  · exact (h.2.1 _ _ hin (by decide)).mpr fun _ => by decide +kernel
  · exact (h.2.2.1 true _ 3 _ _ _ _ hwf hget (by decide)).mpr fun _ _ => by decide +kernel
  · exact (h.2.2.2 true 3 _ _ _ _ hwf rfl (by decide)).mpr fun _ _ => by decide +kernel

/-- Two bytes fill the first buffer, and the next call fails with `-1`: so does `recv`, though it
took them. -/
theorem sslRecv_loses_bytes :
    let two := Event.moves 2 (by decide) (by decide)
    let error := Event.fails (-1) (by decide) (by decide)
    let s : Stream := ⟨fun i => UInt8.ofNat i, 0, [two, error], [], [], false⟩
    let run := sslRecv true [⟨0, 0, 2⟩, ⟨0, 2, 2⟩] s [[9, 9, 9, 9]]
    run.status = .returned (-1) ∧ run.dev.1.taken = 2 ∧ run.dev.2 = [[0, 1, 9, 9]] ∧
      ¬ RecvExact true [⟨0, 0, 2⟩, ⟨0, 2, 2⟩] s [[9, 9, 9, 9]] := by
  intro two error s run
  have hrun : run.parts = [2, 0] ∧ run.status = .returned (-1) ∧ run.dev.1.taken = 2 ∧
      run.dev.2 = [[0, 1, 9, 9]] := by decide +kernel
  refine ⟨hrun.2.1, hrun.2.2.1, hrun.2.2.2, fun hexact => ?_⟩
  obtain ⟨rt, hstatus, ⟨_, _, hnothing⟩, _⟩ := hexact
  cases hrun.2.1.symm.trans hstatus
  have hmoved : run.moved = 2 := congrArg List.sum hrun.1
  have hzero : 0 + run.moved = 0 := hnothing.mp (by decide)
  rw [hmoved] at hzero
  cases hzero

end Lyslg
