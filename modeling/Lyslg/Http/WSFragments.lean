import Lyslg.Http.WSRoundTrip
/-!
# Empty fragments of a WebSocket message

The transfers return `0` both for a closed peer and for nothing to transfer.
`WSSendMessage` and `WSRecvMessage` take the first for the second, so an empty
fragment ends the connection on either side.
-/

namespace Lyslg

open Support.Memory Support.Machine Support.State

/-- A byte string with the masking key that `rand()` gives for it. -/
abbrev Fragment := BitVec 32 × List UInt8

/-- Send a message in fragments; the result has what each `WSSendMessage` returned. -/
def sendFragments (client : Bool) : Opcode → List Fragment → StreamCall (List Int)
  | _, [] => return []
  | opcode, (key, data) :: fragments => do
      let (v, _) ← wsSendMessage ⟨opcode.value, data⟩ client fragments.isEmpty key
      let vs ← sendFragments client .continue fragments
      return v :: vs

/-- The fragments as parts without control frames. -/
def plainParts (fragments : List Fragment) : List Part :=
  fragments.map fun f => ⟨[], f.1, f.2⟩

/-- The message the fragments make up. -/
def message (fragments : List Fragment) : List UInt8 := (fragments.map Prod.snd).flatten

theorem joined_plainParts (fragments : List Fragment) :
    joined (plainParts fragments) = message fragments := by
  rw [joined, plainParts, message, List.flatMap_def, List.map_map]
  rfl

theorem replies_plainParts (fragments : List Fragment) : replies (plainParts fragments) = [] := by
  rw [replies, plainParts, List.flatMap_map]
  simp

theorem isEmpty_plainParts (fragments : List Fragment) :
    (plainParts fragments).isEmpty = fragments.isEmpty := by
  cases fragments <;> rfl

/-! ## The sender -/

theorem writeFix_closed {buffer : List UInt8} {s s' : Stream} {v : Int}
    (h : writeFix buffer s = .ok v s') : s'.closed = s.closed := by
  have hkeep : (fixLoop (writeTransfer buffer) buffer.length s.writes 0 buffer.length s).dev.closed
      = s.closed := by
    apply fixLoop_invariant (Q := fun dev : Stream => dev.closed = s.closed)
    · intro ev offset left dev c dev' hcall hdev
      unfold writeTransfer at hcall
      simp only at hcall
      split at hcall
      · cases hcall
        exact hdev
      · cases hcall
    · rfl
  unfold writeFix FixRun.settle at h
  split at h
  · cases h
    exact hkeep
  · cases h
  · cases h

theorem sendLength_closed {head : WSFrameHead} {size : Nat} {s s' : Stream} {b : Bool}
    (h : sendLength head size s = .ok b s') : s'.closed = s.closed := by
  unfold sendLength at h
  split at h
  · obtain ⟨v, t, hwrite, h⟩ := bind_inv h
    cases h
    exact writeFix_closed hwrite
  · split at h
    · obtain ⟨v, t, hwrite, h⟩ := bind_inv h
      cases h
      exact writeFix_closed hwrite
    · cases h
      rfl

theorem sendMask_closed {client : Bool} {rand : BitVec 32} {msg : WSFrameMessage} {s s' : Stream}
    {r : Bool × WSFrameMessage} (h : sendMask client rand msg s = .ok r s') :
    s'.closed = s.closed := by
  unfold sendMask at h
  split at h
  · obtain ⟨v, t, hwrite, h⟩ := bind_inv h
    cases h
    exact writeFix_closed hwrite
  · cases h
    rfl

/-- A result that is not `-1` comes without a close. -/
theorem wsSendMessage_closed {msg msg' : WSFrameMessage} {client fin : Bool} {rand : BitVec 32}
    {s s' : Stream} {v : Int} (h : wsSendMessage msg client fin rand s = .ok (v, msg') s')
    (hv : 0 < v) : s'.closed = s.closed := by
  have hfailed {msg : WSFrameMessage} {t : Stream}
      (hfail : sendFailed msg t = .ok (v, msg') s') : s'.closed = s.closed := by
    obtain ⟨_, u, _, hfail⟩ := bind_inv hfail
    cases hfail
    omega
  unfold wsSendMessage at h
  obtain ⟨v₁, s₁, hhead, h⟩ := bind_inv h
  split at h
  · exact hfailed h
  · obtain ⟨b, s₂, hlength, h⟩ := bind_inv h
    split at h
    · exact hfailed h
    · obtain ⟨⟨sent, msg₁⟩, s₃, hmask, h⟩ := bind_inv h
      simp only at h
      split at h
      · exact hfailed h
      · obtain ⟨v₂, s₄, hbody, h⟩ := bind_inv h
        split at h
        · exact hfailed h
        · cases h
          rw [writeFix_closed hbody, sendMask_closed hmask, sendLength_closed hlength,
            writeFix_closed hhead]

theorem sendValue_pos_iff {size : Nat} (hsize : size < 2 ^ 32) :
    0 < sendValue size ↔ 0 < size ∧ size + 2 < 2 ^ 31 := by
  unfold sendValue
  by_cases hlong : 2 ^ 31 ≤ size
  · rw [if_pos (int32_wrap_neg hlong hsize).le]
    omega
  · rw [int32_natCast (by omega)]
    by_cases hzero : size = 0
    · rw [hzero, Nat.cast_zero, if_pos (Int.le_refl 0)]
      omega
    · rw [if_neg (by omega), WSFrameHead.sizeof, ← Nat.cast_add]
      by_cases hfit : size + 2 < 2 ^ 31
      · rw [int32_natCast hfit]
        omega
      · have hneg := int32_wrap_neg (by omega : 2 ^ 31 ≤ size + 2) (by omega)
        generalize int32 (size + 2 : Nat) = w at hneg ⊢
        omega

theorem exchange_sendFragments (client : Bool) (opcode : Opcode) (fragments : List Fragment)
    (hsize : ∀ f ∈ fragments, f.2.length < 2 ^ 64) :
    Exchange (sendFragments client opcode fragments) []
      (wire client opcode (plainParts fragments))
      (fragments.map fun f => sendValue f.2.length) := by
  induction fragments generalizing opcode with
  | nil => exact exchange_pure []
  | cons f fragments ih =>
      obtain ⟨key, data⟩ := f
      have hframe := exchange_wsSendMessage opcode client fragments.isEmpty key
        (hsize (key, data) List.mem_cons_self)
      have hrest := ih .continue fun p hp => hsize p (List.mem_cons_of_mem _ hp)
      have hwire : wire client opcode (plainParts ((key, data) :: fragments))
          = frameBytes opcode fragments.isEmpty client key data ++
            (wire client .continue (plainParts fragments) ++ []) := by
        rw [List.append_nil, ← isEmpty_plainParts]
        rfl
      rw [hwire]
      exact hframe.bind (hrest.bind (exchange_pure _))

theorem sendFragments_closed {client : Bool} {opcode : Opcode} {fragments : List Fragment}
    {s s' : Stream} {vs : List Int} (h : sendFragments client opcode fragments s = .ok vs s')
    (hvs : ∀ v ∈ vs, 0 < v) : s'.closed = s.closed := by
  induction fragments generalizing opcode s vs with
  | nil =>
      cases h
      rfl
  | cons f fragments ih =>
      obtain ⟨key, data⟩ := f
      unfold sendFragments at h
      obtain ⟨⟨v, msg⟩, t, hframe, h⟩ := bind_inv h
      obtain ⟨ws, u, hrest, h⟩ := bind_inv h
      cases h
      rw [ih hrest fun w hw => hvs w (List.mem_cons_of_mem _ hw),
        wsSendMessage_closed hframe (hvs v List.mem_cons_self)]

/-! ## Both sides -/

/-- Every `WSSendMessage` returns a positive value and leaves the stream open. -/
def Sends (client : Bool) (opcode : Opcode) (fragments : List Fragment) (s : Stream) : Prop :=
  ∃ vs s', sendFragments client opcode fragments s = .ok vs s' ∧ (∀ v ∈ vs, 0 < v) ∧
    s'.closed = s.closed

/-- `WSRecvMessage` returns the message. -/
def Receives (maxSize : Nat) (client : Bool) (opcode : Opcode) (fragments : List Fragment)
    (s : Stream) : Prop :=
  ∃ s', wsRecvMessage maxSize (!client) s = .ok (some ⟨opcode.value, message fragments⟩) s'

section Iff

variable {maxSize : UInt32} {client : Bool} {opcode : Opcode} {fragments : List Fragment}

theorem length_fragment_le {f : Fragment} (hf : f ∈ fragments) :
    f.2.length ≤ (message fragments).length :=
  (List.sublist_flatten_of_mem (List.mem_map_of_mem hf)).length_le

theorem sends_iff (hsize : ∀ f ∈ fragments, f.2.length < 2 ^ 32) {s : Stream}
    (hwrites : Flows s.writes (wire client opcode (plainParts fragments)).length) :
    Sends client opcode fragments s ↔ ∀ f ∈ fragments, f.2 ≠ [] ∧ f.2.length + 2 < 2 ^ 31 := by
  obtain ⟨s', hrun, _, _⟩ := exchange_sendFragments client opcode fragments
    (fun f hf => by have := hsize f hf; omega) s [] 0 ⟨rfl, flows_zero _, hwrites⟩
  have hvalue : ∀ f ∈ fragments,
      (0 < sendValue f.2.length ↔ f.2 ≠ [] ∧ f.2.length + 2 < 2 ^ 31) := by
    intro f hf
    rw [sendValue_pos_iff (hsize f hf), List.length_pos_iff]
  constructor
  · rintro ⟨vs, t, hsent, hpos, _⟩ f hf
    rw [hrun] at hsent
    cases hsent
    exact (hvalue f hf).mp (hpos _ (List.mem_map_of_mem hf))
  · intro hlegal
    have hpos : ∀ v ∈ fragments.map fun f => sendValue f.2.length, 0 < v := by
      intro v hv
      obtain ⟨f, hf, rfl⟩ := List.mem_map.mp hv
      exact (hvalue f hf).mpr (hlegal f hf)
    exact ⟨_, s', hrun, hpos, sendFragments_closed hrun hpos⟩

theorem receives_iff (hop : opcode = .textFrame ∨ opcode = .binFrame) (hne : fragments ≠ [])
    (hmax : (message fragments).length < maxSize.toNat) {s : Stream}
    (hready : Ready s (wire client opcode (plainParts fragments)) 0) :
    Receives maxSize.toNat client opcode fragments s ↔
      (∀ f ∈ fragments, f.2 ≠ [] ∧ f.2.length < 2 ^ 31) ∧
      (message fragments.dropLast).length < 2 ^ 31 ∧
      (client = true → (message fragments).length ≤ 2 ^ 31) := by
  have hne' : plainParts fragments ≠ [] := by simpa [plainParts] using hne
  have hdrop : (plainParts fragments).dropLast = plainParts fragments.dropLast := by
    rw [plainParts, plainParts, List.map_dropLast]
  have hmem : ∀ P : List UInt8 → Prop,
      (∀ part ∈ plainParts fragments, P part.data) ↔ ∀ f ∈ fragments, P f.2 := by
    intro P
    rw [plainParts]
    exact List.forall_mem_map
  have hfits := fits_iff client hne' (by decide : 0 < 2 ^ 31)
  rw [hmem (fun data => data.length < 2 ^ 31), hdrop, joined_plainParts, joined_plainParts,
    Nat.zero_add, Nat.zero_add] at hfits
  have hdata := hmem fun data => 0 < data.length
  have hcond : ((∀ part ∈ plainParts fragments, 0 < part.data.length) ∧
        Fits client 0 (plainParts fragments)) ↔
      (∀ f ∈ fragments, f.2 ≠ [] ∧ f.2.length < 2 ^ 31) ∧
      (message fragments.dropLast).length < 2 ^ 31 ∧
      (client = true → (message fragments).length ≤ 2 ^ 31) := by
    rw [hdata, hfits, ← and_assoc, ← forall₂_and]
    simp only [List.length_pos_iff]
  have hisData : opcode.IsData := Or.inr hop
  rw [← joined_plainParts] at hmax
  have hreplies : (replies (plainParts fragments)).length = 0 := by
    rw [replies_plainParts, List.length_nil]
  rw [← hreplies] at hready
  rw [← hcond]
  constructor
  · rintro ⟨s', hrun⟩
    by_contra hnot
    exact wsRecvMessage_parts_fails hisData hmax hnot hready _ _ hrun
  · rintro ⟨hpos, hfit⟩
    obtain ⟨s', hrun, _⟩ := wsRecvMessage_parts hisData hne' hpos hmax hfit hready
    rw [trackOpcode_first hop, joined_plainParts] at hrun
    exact ⟨s', hrun⟩

end Iff

/-- A message goes through exactly when no fragment is empty, and no length is beyond
what the `int`s on either side can count. -/
theorem wsMessage_fragments_iff (maxSize : UInt32) (client : Bool) {opcode : Opcode}
    (hop : opcode = .textFrame ∨ opcode = .binFrame) {fragments : List Fragment}
    (hne : fragments ≠ []) (hmax : (message fragments).length < maxSize.toNat)
    {sender receiver : Stream}
    (hsender : Flows sender.writes (wire client opcode (plainParts fragments)).length)
    (hreceiver : Ready receiver (wire client opcode (plainParts fragments)) 0) :
    (Sends client opcode fragments sender ↔
      ∀ f ∈ fragments, f.2 ≠ [] ∧ f.2.length + 2 < 2 ^ 31) ∧
    (Receives maxSize.toNat client opcode fragments receiver ↔
      (∀ f ∈ fragments, f.2 ≠ [] ∧ f.2.length < 2 ^ 31) ∧
      (message fragments.dropLast).length < 2 ^ 31 ∧
      (client = true → (message fragments).length ≤ 2 ^ 31)) := by
  have hlt := maxSize.toNat_lt
  refine ⟨sends_iff (fun f hf => ?_) hsender, receives_iff hop hne hmax hreceiver⟩
  have hle := length_fragment_le hf
  omega

/-- One empty fragment from the server: `WSSendMessage` returns `-1`, and the client
gets no message. -/
theorem wsMessage_refuses_empty :
    let fragments : List Fragment := [(0, [])]
    let sender : Stream :=
      ⟨fun _ => 0, 0, [], [], List.replicate 2 (.moves 1 (by decide) (by decide)), false⟩
    let receiver := Stream.ofBytes (wire false .textFrame (plainParts fragments)) 0
    (message fragments).length < (64 : UInt32).toNat ∧
      ¬ Sends false .textFrame fragments sender ∧
      ¬ Receives (64 : UInt32).toNat false .textFrame fragments receiver := by
  intro fragments sender receiver
  have hmax : (message fragments).length < (64 : UInt32).toNat := by decide
  have hsends : Sends false .textFrame fragments sender ↔ _ :=
    sends_iff (by decide) (flows_replicate _ _ _)
  have hreceives : Receives (64 : UInt32).toNat false .textFrame fragments receiver ↔ _ :=
    receives_iff (Or.inl rfl) (by decide) hmax
      (ready_ofBytes (wire false .textFrame (plainParts fragments)) 0)
  refine ⟨hmax, ?_, ?_⟩
  · rw [hsends]
    decide
  · rw [hreceives]
    decide

/-- Two fragments from the client, neither of them empty. -/
theorem wsMessage_fragments_iff_two :
    let fragments : List Fragment := [(7, [1, 2, 3]), (9, [4])]
    let sender : Stream := ⟨fun _ => 0, 0, [], [],
      List.replicate (wire true .binFrame (plainParts fragments)).length
        (.moves 3 (by decide) (by decide)), false⟩
    Sends true .binFrame fragments sender ∧
      Receives (64 : UInt32).toNat true .binFrame fragments
        (Stream.ofBytes (wire true .binFrame (plainParts fragments)) 0) := by
  intro fragments sender
  have hflows : Flows sender.writes (wire true .binFrame (plainParts fragments)).length :=
    flows_replicate _ _ _
  obtain ⟨hsends, hreceives⟩ := wsMessage_fragments_iff 64 true (Or.inr rfl)
    (by decide : fragments ≠ []) (by decide) hflows
    (ready_ofBytes (wire true .binFrame (plainParts fragments)) 0)
  exact ⟨hsends.mpr (by decide), hreceives.mpr (by decide)⟩

end Lyslg
