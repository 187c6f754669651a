import Lyslg.Http.RecvResponse
import Lyslg.Http.ResponseScan
import Lyslg.Stream.Call
import Lyslg.Support.Run
/-!
# The buffer of the response reader

Every length that `recvResponse` uses is in order as long as what it is given fits: what is
buffered an `int`, a chunk with its line end an `int` as well, and the size of the buffer when
it is taken for an `int`.  A length beyond that is used, not refused.
-/

namespace Lyslg.Http

open Support Support.Machine Support.Memory

/-- A length is in order: not negative, and in the buffer where it is about the buffer. -/
def BufferOp.Safe (buffSize : Nat) : BufferOp → Prop
  | .level v => 0 ≤ v ∧ v ≤ buffSize
  | .sum v => -2 ^ 31 ≤ v ∧ v < 2 ^ 31
  | .read start n => 0 ≤ start ∧ 0 ≤ n ∧ start + n ≤ buffSize
  | .parsed nparse buffered => nparse ≤ buffered
  | .append n buffered => 0 ≤ n ∧ n ≤ buffered
  | .memmove src n buffered => 0 ≤ src ∧ 0 ≤ n ∧ src + n ≤ buffered
  | .resize n => 0 ≤ n
  | .sizeLine value => value < 2 ^ 31

instance (buffSize : Nat) : DecidablePred (BufferOp.Safe buffSize)
  | .level v => inferInstanceAs (Decidable (0 ≤ v ∧ v ≤ buffSize))
  | .sum v => inferInstanceAs (Decidable (-2 ^ 31 ≤ v ∧ v < 2 ^ 31))
  | .read start n => inferInstanceAs (Decidable (0 ≤ start ∧ 0 ≤ n ∧ start + n ≤ buffSize))
  | .parsed nparse buffered => inferInstanceAs (Decidable (nparse ≤ buffered))
  | .append n buffered => inferInstanceAs (Decidable (0 ≤ n ∧ n ≤ buffered))
  | .memmove src n buffered => inferInstanceAs (Decidable (0 ≤ src ∧ 0 ≤ n ∧ src + n ≤ buffered))
  | .resize n => inferInstanceAs (Decidable (0 ≤ n))
  | .sizeLine value => inferInstanceAs (Decidable (value < 2 ^ 31))

namespace RecvState

variable {buffSize : Nat} {s t : RecvState} {data buffer : List UInt8}

/-- All lengths used so far are in order. -/
def Safe (buffSize : Nat) (s : RecvState) : Prop := ∀ op ∈ s.ops, op.Safe buffSize

/-- The length of a chunk leaves room for the line end.  It is that of the size line that
`buffer` begins with; what begins without a digit is a response head, which leaves its
`Content-Length` or -1, and with -1 the loop only reads one more byte. -/
def LengthFits (s : RecvState) (buffer data : List UInt8) : Prop :=
  if buffer.head?.any isXdigit then leadingValue 16 buffer + 2 < 2 ^ 31
  else
    let n := s.parser.parser.contentLen
    0 ≤ n ∧ n + 2 < 2 ^ 31 ∨ n = -1 ∧ data = []

/-- What a step is given fits.  A body of one byte is what such a head leaves in place of the
first size line. -/
def Fits (buffSize : Nat) (s : RecvState) : Prop :=
  match s.phase with
  | .read _ data =>
      ∀ ev ∈ s.stream.reads.head?, data.length + ev.result (buffSize - data.length) < 2 ^ 31
  | .chunk buffer data => s.LengthFits buffer data
  | .rest left => if 0 < left then 0 ≤ int32 buffSize else s.body.length ≠ 1
  | .parse _ _ | .ended _ => True

instance (s : RecvState) (buffer data : List UInt8) : Decidable (s.LengthFits buffer data) := by
  unfold LengthFits
  infer_instance

instance (buffSize : Nat) : DecidablePred (Fits buffSize) := fun s => by
  unfold Fits
  split <;> infer_instance

instance (buffSize : Nat) : DecidablePred (Safe buffSize) := fun s =>
  inferInstanceAs (Decidable (∀ op ∈ s.ops, op.Safe buffSize))

/-! ## The invariant -/

/-- The bytes in the buffer. -/
def Buffered (buffSize : Nat) (data : List UInt8) : Prop :=
  data.length ≤ buffSize ∧ data.length < 2 ^ 31

/-- What holds in a phase as long as all lengths were in order. -/
def Inv (buffSize : Nat) (s : RecvState) : Prop :=
  let n := s.parser.parser.contentLen
  (-2 ^ 31 ≤ n ∧ n < 2 ^ 31) ∧
  match s.phase with
  | .read _ data => Buffered buffSize data
  | .parse _ data => Buffered buffSize data ∧ data ≠ []
  | .chunk buffer data => Buffered buffSize data ∧
      (buffer.head?.any isXdigit → n = int32 (min (leadingValue 16 buffer : Int) (2 ^ 63 - 1)))
  | .rest left => 0 ≤ left ∧ 1 ≤ s.body.length + left
  | .ended _ => True

/-- A step from `s` to `t` uses lengths that are in order iff what it is given fits, and then
it keeps the invariant. -/
def StepFits (buffSize : Nat) (s t : RecvState) : Prop :=
  ∃ ops, t.ops = s.ops ++ ops ∧ (s.Fits buffSize → t.Inv buffSize ∧ ∀ op ∈ ops, op.Safe buffSize) ∧
    ((∀ op ∈ ops, op.Safe buffSize) → s.Fits buffSize)

theorem StepFits.of_goto {ops : List BufferOp} (hops : t.ops = s.ops ++ ops)
    (hsafe : ∀ op ∈ ops, op.Safe buffSize) (hfits : s.Fits buffSize) (hinv : t.Inv buffSize) :
    StepFits buffSize s t :=
  ⟨ops, hops, fun _ => ⟨hinv, hsafe⟩, fun _ => hfits⟩

/-! ## The steps -/

theorem stepFits_read (hbuff : buffSize < 2 ^ 64) {chunck : Bool}
    (hphase : s.phase = .read chunck data) (h : s.Inv buffSize) :
    StepFits buffSize s (s.read buffSize chunck data) := by
  obtain ⟨hrange, hphaseInv⟩ := h
  rw [hphase] at hphaseInv
  obtain ⟨hsize, hint⟩ : Buffered buffSize data := hphaseInv
  have hroom : subSize buffSize data.length = buffSize - data.length := subSize_of_le hbuff hsize
  have hops : ∀ op ∈ [.level data.length, .read data.length (subSize buffSize data.length)],
      BufferOp.Safe buffSize op := by
    intro op hop
    rw [hroom] at hop
    simp only [List.mem_cons, List.not_mem_nil, or_false] at hop
    obtain rfl | rfl := hop
    · exact ⟨by omega, by omega⟩
    · exact ⟨by omega, by omega, by omega⟩
  cases hreads : s.stream.reads with
  | nil =>
      simp only [read, receive, hreads]
      refine .of_goto rfl hops ?_ ⟨hrange, trivial⟩
      simp [Fits, hphase, hreads]
  | cons ev events =>
      have hfits : s.Fits buffSize ↔
          data.length + ev.result (buffSize - data.length) < 2 ^ 31 := by
        simp [Fits, hphase, hreads]
      have hle := ev.result_le (buffSize - data.length)
      rw [hroom] at hops
      simp only [read, receive, hreads, hroom]
      by_cases hrt : ev.result (buffSize - data.length) ≤ 0
      · rw [if_pos hrt]
        exact .of_goto rfl hops (hfits.mpr (by omega)) ⟨hrange, trivial⟩
      · rw [if_neg hrt]
        by_cases hsum : data.length + ev.result (buffSize - data.length) < 2 ^ 31
        · rw [if_pos hsum]
          have hlen : (data ++ window s.stream.input s.stream.taken
              (ev.result (buffSize - data.length)).toNat).length =
              data.length + (ev.result (buffSize - data.length)).toNat := by
            rw [List.length_append, length_window]
          refine .of_goto rfl (List.forall_mem_append.mpr ⟨hops, ?_⟩) (hfits.mpr hsum)
            ⟨hrange, ⟨?_, ?_⟩, ?_⟩
          · intro op hop
            simp only [List.mem_cons, List.not_mem_nil, or_false] at hop
            obtain rfl | rfl := hop
            · exact ⟨by omega, hsum⟩
            · exact ⟨by omega, by omega⟩
          · rw [hlen]
            omega
          · rw [hlen]
            omega
          · apply List.ne_nil_of_length_pos
            rw [hlen]
            omega
        · rw [if_neg hsum]
          refine ⟨_, rfl, fun h => absurd (hfits.mp h) hsum, fun hsafe => ?_⟩
          exact hfits.mpr (hsafe _ (List.mem_append_right _ (List.mem_singleton.mpr rfl))).2

theorem inv_nextLine (hdata : Buffered buffSize data)
    (hrange : -2 ^ 31 ≤ t.parser.parser.contentLen ∧ t.parser.parser.contentLen < 2 ^ 31)
    (hphase : t.phase = nextLine data) : t.Inv buffSize := by
  refine ⟨hrange, ?_⟩
  rw [hphase, nextLine]
  by_cases hnil : data = []
  · rw [if_pos hnil]
    exact ⟨Nat.zero_le _, by decide⟩
  · rw [if_neg hnil]
    exact ⟨hdata, hnil⟩

theorem inv_nextChunk (hdata : Buffered buffSize data)
    (hrange : -2 ^ 31 ≤ t.parser.parser.contentLen ∧ t.parser.parser.contentLen < 2 ^ 31)
    (hphase : t.phase = s.nextChunk data) : t.Inv buffSize := by
  by_cases hdone : s.parser.parser.chunksDone = true
  · refine ⟨hrange, ?_⟩
    rw [hphase, nextChunk, if_pos hdone]
    trivial
  · apply inv_nextLine hdata hrange
    rw [hphase, nextChunk, if_neg hdone]

/-- Without chunks the call ends, and uses no more lengths of the buffer. -/
theorem content_ends (length : Int) (buffered : List UInt8) (s : RecvState) :
    let t := s.content length buffered
    t.ops = s.ops ∧ t.parser = s.parser ∧ ∃ outcome, t.phase = .ended outcome := by
  intro t
  have hnil : s.ops ++ [] = s.ops := List.append_nil s.ops
  unfold t content
  split
  · simp only
    split
    · split
      · split
        · exact ⟨hnil, rfl, _, rfl⟩
        · exact ⟨hnil, rfl, _, rfl⟩
      · exact ⟨hnil, rfl, _, rfl⟩
      · exact ⟨hnil, rfl, _, rfl⟩
    · exact ⟨hnil, rfl, _, rfl⟩
  · exact ⟨hnil, rfl, _, rfl⟩

theorem stepFits_parse {chunck : Bool}
    (hphase : s.phase = .parse chunck buffer) (h : s.Inv buffSize) :
    StepFits buffSize s (s.parse buffSize chunck buffer) := by
  obtain ⟨hrange, hphaseInv⟩ := h
  rw [hphase] at hphaseInv
  obtain ⟨⟨hsize, hint⟩, hne⟩ : Buffered buffSize buffer ∧ buffer ≠ [] := hphaseInv
  have hfits : s.Fits buffSize := by
    rw [Fits, hphase]
    trivial
  unfold parse
  cases hexec : s.parser.execute buffer chunck with
  | error e => exact .of_goto rfl (by simp) hfits ⟨hrange, trivial⟩
  | ok result =>
      obtain ⟨parser, nparse⟩ := result
      have hpos : 0 < buffer.length := List.length_pos_iff.mpr hne
      have hle := HttpResponseParser.execute_le hpos (by omega) hexec
      have hrange' := HttpResponseParser.contentLen_range hrange hexec
      have hdrop : (buffer.drop nparse).length ≤ buffer.length := by
        rw [List.length_drop]
        omega
      have hdata : Buffered buffSize (buffer.drop nparse) := ⟨by omega, by omega⟩
      have hparsed : ∀ op ∈ [.parsed nparse buffer.length], BufferOp.Safe buffSize op :=
        List.forall_mem_singleton.mpr hle
      have hops : ∀ op ∈ [.parsed nparse buffer.length, .level (buffer.drop nparse).length],
          BufferOp.Safe buffSize op :=
        List.forall_mem_cons.mpr ⟨hle, List.forall_mem_singleton.mpr ⟨by omega, by omega⟩⟩
      simp only [if_neg (Nat.not_lt.mpr hle)]
      by_cases herror : parser.hasError = true
      · rw [if_pos herror]
        exact .of_goto rfl hparsed hfits ⟨hrange', trivial⟩
      rw [if_neg herror]
      by_cases hfull : ((buffer.drop nparse).length : Int) = int32 buffSize
      · rw [if_pos hfull]
        exact .of_goto rfl hops hfits ⟨hrange', trivial⟩
      rw [if_neg hfull]
      by_cases hend : parser.isFinished = true
      · rw [if_neg (by rw [hend]; decide)]
        cases chunck with
        | true =>
            refine .of_goto rfl hops hfits ⟨hrange', hdata, fun hdigit => ?_⟩
            exact (HttpResponseParser.contentLen_size hdigit hexec hend).1
        | false =>
            rw [if_neg Bool.false_ne_true]
            by_cases hchunked : parser.parser.chunked = true
            · rw [if_pos hchunked]
              exact .of_goto rfl hops hfits (inv_nextLine hdata hrange' rfl)
            · rw [if_neg hchunked]
              obtain ⟨hops', hparser, outcome, hended⟩ := content_ends
                (int64 parser.getContentLength) (buffer.drop nparse)
                (goto { s with parser := parser } s.phase
                  ([.parsed nparse buffer.length] ++ [.level (buffer.drop nparse).length]))
              refine .of_goto hops' hops hfits ⟨?_, ?_⟩
              · rw [hparser]
                exact hrange'
              · rw [hended]
                trivial
      · rw [if_pos (by simpa using hend)]
        exact .of_goto rfl hops hfits ⟨hrange', hdata⟩

/-- Without a digit there is no value. -/
theorem leadingValue_of_no_digit (h : ¬ buffer.head?.any isXdigit) :
    leadingValue 16 buffer = 0 := by
  cases buffer with
  | nil => rfl
  | cons d rest =>
      have hd : isDigit 16 d = false := by
        have hx : isXdigit d = false := Bool.eq_false_iff.mpr h
        rw [isDigit, hx, Bool.false_and]
      rw [leadingValue, List.takeWhile_cons_of_neg (by rw [hd]; exact Bool.false_ne_true)]
      rfl

/-- The condition on a chunk, by what its step checks. -/
theorem lengthFits_iff (hvalue : buffer.head?.any isXdigit →
      s.parser.parser.contentLen = int32 (min (leadingValue 16 buffer : Int) (2 ^ 63 - 1))) :
    s.LengthFits buffer data ↔ leadingValue 16 buffer < 2 ^ 31 ∧
      (0 ≤ s.parser.parser.contentLen ∧ s.parser.parser.contentLen + 2 < 2 ^ 31 ∨
        s.parser.parser.contentLen = -1 ∧ data = []) := by
  unfold LengthFits
  by_cases hdigit : buffer.head?.any isXdigit
  · have hn := hvalue hdigit
    have hsmall (hlt : leadingValue 16 buffer < 2 ^ 31) :
        s.parser.parser.contentLen = leadingValue 16 buffer := by
      rw [hn, Int.min_eq_left (by omega), int32_natCast hlt]
    rw [if_pos hdigit]
    constructor
    · intro h
      have hn := hsmall (by omega)
      exact ⟨by omega, .inl ⟨by omega, by omega⟩⟩
    · rintro ⟨hlt, hfits | ⟨hneg, -⟩⟩
      · have hn := hsmall hlt
        omega
      · have hn := hsmall hlt
        omega
  · rw [if_neg hdigit, leadingValue_of_no_digit hdigit]
    exact ⟨fun h => ⟨by decide, h⟩, fun h => h.2⟩

theorem stepFits_chunk (hphase : s.phase = .chunk buffer data) (h : s.Inv buffSize) :
    StepFits buffSize s (s.chunk buffer data) := by
  obtain ⟨hrange, hphaseInv⟩ := h
  rw [hphase] at hphaseInv
  obtain ⟨⟨hsize, hint⟩, hvalue⟩ := hphaseInv
  have hfits : s.LengthFits buffer data ↔ _ := lengthFits_iff hvalue
  have hphaseFits : s.Fits buffSize ↔ s.LengthFits buffer data := by
    rw [Fits, hphase]
  rw [← hphaseFits] at hfits
  generalize hn : s.parser.parser.contentLen = n at hfits hrange
  generalize hv : leadingValue 16 buffer = value at hfits
  simp only [chunk, hn, hv]
  by_cases hsum : 2 ^ 31 ≤ n + 2
  · rw [if_pos hsum]
    refine ⟨_, rfl, fun h => ?_, fun hsafe => ?_⟩
    · obtain ⟨-, ⟨-, hlt⟩ | ⟨hneg, -⟩⟩ := hfits.mp h
      · omega
      · omega
    · have hop := hsafe (.sum (n + 2)) (by simp)
      have hlt : n + 2 < 2 ^ 31 := hop.2
      omega
  rw [if_neg hsum]
  by_cases hbuffered : n + 2 ≤ data.length
  · rw [if_pos hbuffered]
    by_cases hneg : n < 0
    · rw [if_pos hneg]
      refine ⟨_, rfl, fun h => ?_, fun hsafe => ?_⟩
      · obtain ⟨-, ⟨hpos, -⟩ | ⟨hminus, rfl⟩⟩ := hfits.mp h
        · omega
        · rw [List.length_nil] at hbuffered
          omega
      · have hop := hsafe (.append n data.length) (by simp)
        have hpos : 0 ≤ n := hop.1
        omega
    · rw [if_neg hneg]
      refine ⟨_, rfl, fun h => ⟨?_, ?_⟩, fun hsafe => ?_⟩
      · have hdrop : (data.drop (n + 2).toNat).length ≤ data.length := by
          rw [List.length_drop]
          omega
        have hdata : Buffered buffSize (data.drop (n + 2).toNat) := ⟨by omega, by omega⟩
        refine inv_nextChunk hdata ?_ rfl
        show -2 ^ 31 ≤ s.parser.parser.contentLen ∧ s.parser.parser.contentLen < 2 ^ 31
        rw [hn]
        exact hrange
      · have hvalue := (hfits.mp h).1
        intro op hop
        simp only [List.cons_append, List.nil_append, List.mem_cons, List.not_mem_nil, or_false]
          at hop
        obtain rfl | rfl | rfl | rfl | rfl := hop
        · exact hvalue
        · exact ⟨by omega, by omega⟩
        · exact ⟨by omega, by omega⟩
        · exact ⟨by omega, by omega, by omega⟩
        · exact ⟨by omega, by omega⟩
      · have hop : value < 2 ^ 31 := hsafe (.sizeLine value) (by simp)
        exact hfits.mpr ⟨hop, .inl ⟨by omega, by omega⟩⟩
  · rw [if_neg hbuffered]
    refine ⟨_, rfl, fun h => ⟨⟨?_, ?_⟩, ?_⟩, fun hsafe => ?_⟩
    · show -2 ^ 31 ≤ s.parser.parser.contentLen ∧ s.parser.parser.contentLen < 2 ^ 31
      rw [hn]
      exact hrange
    · show 0 ≤ n - data.length + 2 ∧
        1 ≤ ((s.body ++ data).length : Int) + (n - data.length + 2)
      rw [List.length_append]
      obtain ⟨-, ⟨hpos, -⟩ | ⟨hminus, rfl⟩⟩ := hfits.mp h
      · exact ⟨by omega, by omega⟩
      · rw [List.length_nil]
        exact ⟨by omega, by omega⟩
    · obtain ⟨hvalue, -⟩ := hfits.mp h
      intro op hop
      simp only [List.cons_append, List.nil_append, List.mem_cons, List.not_mem_nil, or_false]
        at hop
      obtain rfl | rfl | rfl | rfl := hop
      · exact hvalue
      · exact ⟨by omega, by omega⟩
      · exact ⟨by omega, le_rfl⟩
      · exact ⟨by omega, by omega⟩
    · have hop : value < 2 ^ 31 := hsafe (.sizeLine value) (by simp)
      refine hfits.mpr ⟨hop, ?_⟩
      by_cases hpos : 0 ≤ n
      · exact .inl ⟨hpos, by omega⟩
      · exact .inr ⟨by omega, List.length_eq_zero_iff.mp (by omega)⟩

theorem stepFits_rest {left : Int} (hphase : s.phase = .rest left) (h : s.Inv buffSize) :
    StepFits buffSize s (s.rest buffSize left) := by
  obtain ⟨hrange, hphaseInv⟩ := h
  rw [hphase] at hphaseInv
  obtain ⟨hleft, hbody⟩ : 0 ≤ left ∧ 1 ≤ s.body.length + left := hphaseInv
  by_cases hmore : 0 < left
  · have hfits : s.Fits buffSize ↔ 0 ≤ int32 buffSize := by
      rw [Fits, hphase]
      simp only [if_pos hmore]
    have hsize := int32_le_natCast buffSize
    have hroom := (int32_range buffSize).2
    simp only [rest, if_pos hmore]
    generalize hn : (if int32 buffSize < left then int32 buffSize else left) = n
    have hn' : (0 ≤ n ↔ 0 ≤ int32 buffSize) ∧ n ≤ left ∧ n ≤ int32 buffSize := by
      split at hn
      · omega
      · omega
    have hread : (BufferOp.read 0 n).Safe buffSize ↔ s.Fits buffSize := by
      rw [hfits]
      exact ⟨fun h => hn'.1.mp h.2.1, fun h => ⟨le_rfl, hn'.1.mpr h, by omega⟩⟩
    have hended (t : RecvState) (hops : t.ops = s.ops ++ [.read 0 n]) (hinv : t.Inv buffSize) :
        StepFits buffSize s t :=
      ⟨_, hops, fun h => ⟨hinv, List.forall_mem_singleton.mpr (hread.mpr h)⟩,
        fun hsafe => hread.mp (List.forall_mem_singleton.mp hsafe)⟩
    cases hreads : s.stream.reads with
    | nil =>
        simp only [receive, hreads]
        exact hended _ rfl ⟨hrange, trivial⟩
    | cons ev events =>
        have hle := ev.result_le (sizeT n)
        simp only [receive, hreads]
        by_cases hrt : ev.result (sizeT n) ≤ 0
        · rw [if_pos hrt]
          exact hended _ rfl ⟨hrange, trivial⟩
        rw [if_neg hrt]
        by_cases hlarge : buffSize + 1 < ev.result (sizeT n)
        · rw [if_pos hlarge]
          exact hended _ rfl ⟨hrange, trivial⟩
        rw [if_neg hlarge]
        refine ⟨_, rfl, fun h => ⟨⟨hrange, ?_⟩, ?_⟩, fun hsafe => ?_⟩
        · have hpos : 0 ≤ n := hn'.1.mpr (hfits.mp h)
          have hcast : sizeT n = n.toNat := by
            obtain ⟨k, rfl⟩ := Int.eq_ofNat_of_zero_le hpos
            exact sizeT_natCast (by omega)
          rw [hcast] at hle
          show 0 ≤ left - ev.result (sizeT n) ∧ 1 ≤ ((s.body ++ window s.stream.input
            s.stream.taken (ev.result (sizeT n)).toNat).length : Int) + (left - ev.result (sizeT n))
          rw [List.length_append, length_window, hcast]
          rw [hcast] at hrt
          exact ⟨by omega, by omega⟩
        · refine List.forall_mem_cons.mpr
            ⟨hread.mpr h, List.forall_mem_singleton.mpr ⟨by omega, ?_⟩⟩
          rw [length_window]
          omega
        · exact hread.mp (hsafe _ (List.mem_cons_self ..))
  · have hfits : s.Fits buffSize ↔ s.body.length ≠ 1 := by
      rw [Fits, hphase]
      simp only [if_neg hmore]
    simp only [rest, if_neg hmore]
    by_cases hshort : s.body.length < 2
    · rw [if_pos hshort]
      refine ⟨_, rfl, fun h => absurd (hfits.mp h) (by omega), fun hsafe => ?_⟩
      have hop : 0 ≤ (s.body.length : Int) - 2 := hsafe _ (List.mem_singleton.mpr rfl)
      omega
    · rw [if_neg hshort]
      have hop : (BufferOp.resize (s.body.length - 2)).Safe buffSize := by
        show 0 ≤ (s.body.length : Int) - 2
        omega
      have hempty : Buffered buffSize [] := ⟨Nat.zero_le _, by decide⟩
      exact .of_goto rfl (List.forall_mem_singleton.mpr hop) (hfits.mpr (by omega))
        (inv_nextChunk hempty hrange rfl)

theorem stepFits_next (hbuff : buffSize < 2 ^ 64) (h : s.Inv buffSize) :
    StepFits buffSize s (s.next buffSize) := by
  unfold next
  cases hphase : s.phase with
  | read chunck data => exact stepFits_read hbuff hphase h
  | parse chunck data => exact stepFits_parse hphase h
  | chunk buffer data => exact stepFits_chunk hphase h
  | rest left => exact stepFits_rest hphase h
  | ended outcome =>
      have hops : s.ops = s.ops ++ [] := (List.append_nil _).symm
      refine .of_goto hops (by simp) ?_ h
      rw [Fits, hphase]
      trivial

theorem ops_receive {room : Nat} {rt : Int} {bytes : List UInt8}
    (h : s.receive room = some (rt, bytes, t)) : t.ops = s.ops := by
  unfold receive at h
  split at h
  · cases h
  · cases h
    rfl

/-- No step takes a length back. -/
theorem ops_next (buffSize : Nat) (s : RecvState) : s.ops <+: (s.next buffSize).ops := by
  unfold next
  split
  · unfold read
    simp only
    split
    · exact List.prefix_append _ _
    · rename_i t heq
      rw [← ops_receive heq]
      split_ifs
      all_goals exact List.prefix_append _ _
  · unfold parse
    simp only
    split
    · exact List.prefix_append _ _
    · split_ifs
      case neg =>
        rw [(content_ends _ _ _).1]
        exact List.prefix_append _ _
      all_goals exact List.prefix_append _ _
  · unfold chunk
    simp only
    split_ifs
    all_goals exact List.prefix_append _ _
  · unfold rest
    split
    · simp only
      split
      · exact List.prefix_append _ _
      · rename_i t heq
        rw [← ops_receive heq]
        split_ifs
        all_goals exact List.prefix_append _ _
    · simp only
      split_ifs
      all_goals exact List.prefix_append _ _
  · exact List.prefix_rfl

/-- In the first `n` steps of a call, every length is in order iff what each of them is given
fits. -/
theorem recvResponse_safe (hbuff : buffSize < 2 ^ 64) (raw : HttpClientParser) (stream : Stream)
    (n : Nat) : (after buffSize raw stream n).Safe buffSize ↔
      ∀ i < n, (after buffSize raw stream i).Fits buffSize := by
  apply Run.iterate_iff_guarded (I := Inv buffSize)
  · intro s hinv hsafe hfits
    obtain ⟨ops, hops, hkeep, -⟩ := stepFits_next hbuff hinv
    obtain ⟨hinv', hsafe'⟩ := hkeep hfits
    refine ⟨hinv', ?_⟩
    rw [Safe, hops]
    exact List.forall_mem_append.mpr ⟨hsafe, hsafe'⟩
  · intro s hinv hsafe
    obtain ⟨ops, hops, -, hneed⟩ := stepFits_next hbuff hinv
    rw [Safe, hops] at hsafe
    obtain ⟨hbefore, hnow⟩ := List.forall_mem_append.mp hsafe
    exact ⟨hbefore, hneed hnow⟩
  · intro s hsafe op hop
    exact hsafe op ((ops_next buffSize s).subset hop)
  · refine ⟨?_, Nat.zero_le _, by decide⟩
    show -2 ^ 31 ≤ (-1 : Int) ∧ (-1 : Int) < 2 ^ 31
    decide
  · intro op hop
    cases hop

/-- A peer that answers with a head and then, in a second read, with these bytes. -/
def chunkedPeer (bytes : List UInt8) (hpos : 0 < bytes.length) (hfits : bytes.length < 2 ^ 31) :
    Stream :=
  let head := chars "HTTP/1.1 200 OK\r\nTransfer-Encoding: chunked\r\n\r\n"
  { Stream.ofBytes (head ++ bytes) 0 with
    reads := [.moves 47 (by decide) (by decide), .moves bytes.length hpos hfits] }

theorem recvResponse_safe_three_bytes :
    let s := chunkedPeer (chars "3\r\nabc\r\n0\r\n\r\n") (by decide) (by decide)
    (after 4096 .fresh s 8).Safe 4096 := by
  intro s
  apply (recvResponse_safe (by decide) .fresh s 8).mpr
  decide +kernel

/-- A size line beyond an `int` is not refused: it makes -1 the length of an `append`. -/
theorem recvResponse_unsafe :
    let s := chunkedPeer (chars "FFFFFFFF\r\n\r\n") (by decide) (by decide)
    .append (-1) 2 ∈ (after 4096 .fresh s 5).ops ∧ ¬ (after 4096 .fresh s 5).Safe 4096 := by
  decide +kernel

end RecvState

end Lyslg.Http
