import Lyslg.Http.ResponseScan
import Lyslg.Http.RecvResponse
import Lyslg.Stream.Call
import Lyslg.Support.Lines
import Mathlib.Data.List.Forall2
/-!
# The body of a response

`recvResponse` collects the body in a string of its own and returns the response of the
parser, which never gets it.  So only an empty body is delivered, and that of a chunked
response only if the reads do not cut its size line in a way that the parser cannot go on from:
every `execute` starts it anew.
-/

namespace Lyslg.Http

open Support.Machine Support.Memory

/-! ## Responses -/

/-- A size line with this value: it begins with a digit, and the machine takes all of it. -/
structure SizeLine (value : Nat) (line : List UInt8) : Prop where
  digit : line.head?.any isXdigit
  taken : HttpClient.scan 1 line = (120, [])
  value : leadingValue 16 line = value

def crlf : List UInt8 := [13, 10]

/-- A size line has no blank, and one line feed, at its end. -/
theorem SizeLine.split {value : Nat} {line : List UInt8} (h : SizeLine value line) :
    32 ∉ line ∧ ∃ text, 10 ∉ text ∧ line = text ++ [10] := by
  have hblank : 32 ∉ line := by
    cases line with
    | nil => exact List.not_mem_nil
    | cons d rest =>
        have hd : isXdigit d = true := h.digit
        obtain ⟨t, hnext, ht⟩ := Option.map_eq_some_iff.mp ((HttpClientParser.next_size d).1 hd)
        obtain ⟨htarget, hactions⟩ := Prod.mk.inj ht
        have htaken := h.taken
        simp only [HttpClient.scan, hnext, hactions, htarget] at htaken
        rw [List.mem_cons, not_or]
        refine ⟨?_, HttpClient.scan_size (by decide) htaken⟩
        rintro rfl
        cases hd
  refine ⟨hblank, ?_⟩
  have hstop := HttpClient.scan_line hblank (by decide : 1 ∈ lineStates)
  rw [h.taken] at hstop
  obtain hzero | ⟨hopen, -⟩ | ⟨-, text, hfeed, hline⟩ := hstop
  · cases hzero
  · exact absurd hopen (by decide)
  · exact ⟨text, hfeed, hline⟩

/-- A chunk of a body, with its size line. -/
structure Chunk (buffSize : Nat) where
  line : List UInt8
  data : List UInt8
  sizeLine : SizeLine data.length line
  short : line.length < buffSize
  pos : 1 ≤ data.length
  fits : data.length ≤ 2 ^ 31 - 3

def Chunk.bytes {buffSize : Nat} (chunk : Chunk buffSize) : List UInt8 :=
  chunk.line ++ chunk.data ++ crlf

/-- What follows the head of a response. -/
inductive Content (buffSize : Nat) where
  | length (body : List UInt8) (pos : 0 < body.length)
  | chunked (chunks : List (Chunk buffSize)) (last : List UInt8) (sizeLine : SizeLine 0 last)
      (short : last.length < buffSize)

namespace Content

variable {buffSize : Nat}

def body : Content buffSize → List UInt8
  | .length body _ => body
  | .chunked chunks _ _ _ => (chunks.map Chunk.data).flatten

def bytes : Content buffSize → List UInt8
  | .length body _ => body
  | .chunked chunks last _ _ => (chunks.map Chunk.bytes).flatten ++ (last ++ crlf)

/-- The head announces this content. -/
def Announced (parser : HttpResponseParser) : Content buffSize → Prop
  | .length body _ => parser.parser.chunked = false ∧ parser.getContentLength = body.length
  | .chunked _ _ _ _ => parser.parser.chunked = true

/-- A response with an empty body has no chunks. -/
theorem of_empty {parser : HttpResponseParser} (content : Content buffSize)
    (h : content.body = []) (hannounced : content.Announced parser) :
    ∃ text, 32 ∉ text ∧ 10 ∉ text ∧ content.bytes = text ++ 10 :: crlf ∧
      parser.parser.chunked = true := by
  cases content with
  | length body pos =>
      rw [show body = [] from h] at pos
      cases pos
  | chunked chunks last sizeLine short =>
      obtain ⟨hblank, text, hfeed, hlast⟩ := sizeLine.split
      cases chunks with
      | nil =>
          refine ⟨text, ?_, hfeed, ?_, hannounced⟩
          · exact fun hmem => hblank (hlast ▸ List.mem_append_left [10] hmem)
          · show last ++ crlf = text ++ 10 :: crlf
            rw [hlast, List.append_assoc]
            rfl
      | cons chunk chunks =>
          have hdata : chunk.data = [] := (List.append_eq_nil_iff.mp h).1
          have hpos := chunk.pos
          rw [hdata] at hpos
          cases hpos

end Content

/-- A first read with the whole head of a response. -/
structure HeadRead (raw : HttpClientParser) {buffSize : Nat} (content : Content buffSize) where
  bytes : List UInt8
  parser : HttpResponseParser
  nparse : Nat
  parsed : (HttpResponseParser.new raw).execute bytes false = .ok (parser, nparse)
  accepted : parser.hasError = false
  finished : parser.isFinished = true
  announced : content.Announced parser

/-- What the first read brings behind the head. -/
def HeadRead.surplus {raw : HttpClientParser} {buffSize : Nat} {content : Content buffSize}
    (first : HeadRead raw content) : List UInt8 := first.bytes.drop first.nparse

/-! ## Reads -/

/-- The reads bring these pieces, one after the other. -/
def Brings (events : List Event) (pieces : List (List UInt8)) : Prop :=
  List.Forall₂ (fun ev (piece : List UInt8) => ∃ hpos hfits, ev = .moves piece.length hpos hfits)
    events pieces

structure Incoming (s : Stream) (pieces : List (List UInt8)) : Prop where
  reads : Brings s.reads pieces
  input : window s.input s.taken pieces.flatten.length = pieces.flatten

theorem Incoming.cons {s : Stream} {piece : List UInt8} {pieces : List (List UInt8)}
    (h : Incoming s (piece :: pieces)) : ∃ hpos hfits events,
      s.reads = .moves piece.length hpos hfits :: events ∧
      window s.input s.taken piece.length = piece ∧
      Incoming { s with taken := s.taken + piece.length, reads := events } pieces := by
  obtain ⟨hreads, hinput⟩ := h
  rw [List.flatten_cons] at hinput
  obtain ⟨hfirst, hrest⟩ := window_split hinput
  generalize hr : s.reads = reads at hreads
  cases hreads with
  | cons hev hevents =>
      obtain ⟨hpos, hfits, rfl⟩ := hev
      exact ⟨hpos, hfits, _, rfl, hfirst, hevents, hrest⟩

namespace RecvState

variable {buffSize : Nat}

/-- The call ends like this. -/
def Ends (buffSize : Nat) (s : RecvState) (outcome : ResponseOutcome) : Prop :=
  ∃ n, ((next buffSize)^[n] s).phase = .ended outcome

/-- The call returns a response with this body. -/
def Delivers (buffSize : Nat) (s : RecvState) (body : List UInt8) : Prop :=
  ∃ response, Ends buffSize s (.returned (some response)) ∧ response.body = body

/-! ## When a size line is found -/

/-- The read that completes a size line, what it brings behind it, and the later reads.  `b` is
the buffer size as an `int`. -/
def lineEnd (b : Int) : List (List UInt8) → Option (List UInt8 × List UInt8 × List (List UInt8))
  | [] => none
  | piece :: pieces =>
      let stop := HttpClient.scan 1 piece
      if stop.1 = 0 ∨ (stop.2.length : Int) = b then none
      else if stop.1 = 120 then some (piece, stop.2, pieces)
      else lineEnd b pieces

/-- With a chunk of length `n` and `rest` behind its size line, the line end that is left
completes the body.  For a buffer size that is an `int` from 2 on this is `n = 0`. -/
def Closes (b n : Int) (rest : List UInt8) (later : List (List UInt8)) : Prop :=
  n = 0 ∧ (rest.length = 2 ∨ b ≠ 0 ∧ (b = 1 → later.length = 2)) ∨
    n = -1 ∧ b < 0 ∧ rest = [] ∧ later.length = 1

/-- The reads cut the closing size line so that a read completes one with a length that closes
the body. -/
def EndsWell (b : Int) (pieces : List (List UInt8)) : Prop :=
  ∃ piece rest later, lineEnd b pieces = some (piece, rest, later) ∧
    Closes b (int32 (min (leadingValue 16 piece : Int) (2 ^ 63 - 1))) rest later

/-! ## A response has no body -/

/-- The parser's response has no body, and neither has one that is returned. -/
def Bodiless (s : RecvState) : Prop :=
  s.parser.data.body = [] ∧
    ∀ response, s.phase = .ended (.returned (some response)) → response.body = []

variable {s t : RecvState} {phase : ResponsePhase} {ops : List BufferOp}

theorem bodiless_goto (hbody : s.parser.data.body = [])
    (hphase : ∀ response, phase = .ended (.returned (some response)) → response.body = []) :
    Bodiless (s.goto phase ops) := ⟨hbody, hphase⟩

theorem bodiless_refuse (hbody : s.parser.data.body = []) : Bodiless (s.refuse ops) := by
  refine ⟨hbody, fun response h => ?_⟩
  cases h

theorem nextLine_ne {data : List UInt8} {outcome : ResponseOutcome} :
    nextLine data ≠ .ended outcome := by
  intro h
  unfold nextLine at h
  split at h
  · cases h
  · cases h

theorem nextChunk_body (hbody : s.parser.data.body = []) (data : List UInt8)
    (response : HttpResponse) (h : s.nextChunk data = .ended (.returned (some response))) :
    response.body = [] := by
  unfold nextChunk at h
  split at h
  · cases h
    exact hbody
  · exact absurd h nextLine_ne

theorem bodiless_content (hbody : s.parser.data.body = []) (length : Int)
    (buffered : List UInt8) : Bodiless (s.content length buffered) := by
  have hdata (t : RecvState) (ht : t.parser = s.parser) :
      Bodiless (t.goto (.ended (.returned (some t.parser.data))) []) := by
    have hbody' : t.parser.data.body = [] := by
      rw [ht]
      exact hbody
    apply bodiless_goto hbody'
    intro response h
    cases h
    exact hbody'
  unfold content
  split
  · simp only
    split
    · split
      · split
        · exact bodiless_refuse hbody
        · exact hdata _ rfl
      · exact bodiless_goto hbody (fun _ h => by cases h)
      · exact bodiless_goto hbody (fun _ h => by cases h)
    · exact hdata _ rfl
  · exact hdata _ rfl

theorem parser_receive {room : Nat} {rt : Int} {bytes : List UInt8}
    (h : s.receive room = some (rt, bytes, t)) : t.parser = s.parser := by
  unfold receive at h
  split at h
  · cases h
  · cases h
    rfl

theorem bodiless_next (h : Bodiless s) : Bodiless (s.next buffSize) := by
  obtain ⟨hbody, hphase⟩ := h
  unfold next
  split
  · unfold read
    simp only
    split
    · exact bodiless_goto hbody (fun _ h => by cases h)
    · rename_i t heq
      rw [← parser_receive heq] at hbody
      split_ifs
      · exact bodiless_refuse hbody
      · exact bodiless_goto hbody (fun _ h => by cases h)
      · exact bodiless_goto hbody (fun _ h => by cases h)
  · unfold parse
    simp only
    split
    · exact bodiless_goto hbody (fun _ h => by cases h)
    · rename_i parser nparse heq
      have hbody' : parser.data.body = [] := (HttpResponseParser.execute_ok heq).2.2.trans hbody
      split_ifs
      · exact bodiless_goto hbody' (fun _ h => by cases h)
      · exact bodiless_refuse hbody'
      · exact bodiless_refuse hbody'
      · exact bodiless_goto hbody' (fun _ h => by cases h)
      · exact bodiless_goto hbody' (fun _ h => by cases h)
      · exact bodiless_goto hbody' (fun _ h => absurd h nextLine_ne)
      · exact bodiless_content hbody' _ _
  · unfold chunk
    simp only
    split_ifs
    · exact bodiless_goto hbody (fun _ h => by cases h)
    · exact bodiless_goto hbody (fun _ h => by cases h)
    · exact bodiless_goto hbody (nextChunk_body hbody _)
    · exact bodiless_goto hbody (fun _ h => by cases h)
  · unfold rest
    split
    · simp only
      split
      · exact bodiless_goto hbody (fun _ h => by cases h)
      · rename_i t heq
        rw [← parser_receive heq] at hbody
        split
        · exact bodiless_refuse hbody
        · split
          · exact bodiless_goto hbody (fun _ h => by cases h)
          · exact bodiless_goto hbody (fun _ h => by cases h)
    · simp only
      split_ifs
      · exact bodiless_goto hbody (fun _ h => by cases h)
      · exact bodiless_goto hbody (nextChunk_body hbody _)
  · exact ⟨hbody, hphase⟩

/-- Nothing but an empty body is delivered. -/
theorem delivers_nothing {raw : HttpClientParser} {stream : Stream} {body : List UInt8}
    (h : Delivers buffSize (start raw stream) body) : body = [] := by
  have hkept (n : Nat) : Bodiless ((next buffSize)^[n] (start raw stream)) := by
    induction n with
    | zero => exact ⟨rfl, fun _ h => by cases h⟩
    | succ n ih =>
        rw [Function.iterate_succ_apply']
        exact bodiless_next ih
  obtain ⟨response, ⟨n, hended⟩, hbody⟩ := h
  rw [← hbody]
  exact (hkept n).2 response hended

/-! ## The end of a call -/

theorem ends_next {outcome : ResponseOutcome} :
    Ends buffSize (s.next buffSize) outcome ↔ Ends buffSize s outcome := by
  constructor
  · rintro ⟨n, hn⟩
    exact ⟨n + 1, hn⟩
  · rintro ⟨n, hn⟩
    cases n with
    | zero =>
        have hended : s.phase = .ended outcome := hn
        refine ⟨0, ?_⟩
        show (s.next buffSize).phase = .ended outcome
        simp only [next, hended]
    | succ n => exact ⟨n, hn⟩

theorem delivers_next {body : List UInt8} :
    Delivers buffSize (s.next buffSize) body ↔ Delivers buffSize s body := by
  unfold Delivers
  simp only [ends_next]

theorem next_ended {outcome : ResponseOutcome} (h : s.phase = .ended outcome) :
    s.next buffSize = s := by
  simp only [next, h]

theorem ends_of_ended {outcome outcome' : ResponseOutcome} (h : s.phase = .ended outcome) :
    Ends buffSize s outcome' ↔ outcome' = outcome := by
  constructor
  · rintro ⟨n, hn⟩
    rw [Function.iterate_fixed (next_ended h), h] at hn
    cases hn
    rfl
  · rintro rfl
    exact ⟨0, h⟩

/-- A call that ended without a response delivers nothing. -/
theorem not_delivers {outcome : ResponseOutcome} (h : s.phase = .ended outcome)
    (hnone : ∀ response, outcome ≠ .returned (some response)) (body : List UInt8) :
    ¬ Delivers buffSize s body := by
  rintro ⟨response, hends, -⟩
  exact hnone response ((ends_of_ended h).mp hends).symm

/-! ## The rest of a chunk -/

/-- What one read brings of a piece, when `left` bytes of the chunk are missing. -/
def restRead (buffSize : Nat) (left : Int) (piece : List UInt8) : Nat :=
  min piece.length (sizeT (if int32 buffSize < left then int32 buffSize else left))

theorem rest_step (buffSize : Nat) {left : Int} (hphase : s.phase = .rest left) (hleft : 0 < left)
    {piece : List UInt8} {pieces : List (List UInt8)}
    (h : Brings s.stream.reads (piece :: pieces)) (body : List UInt8) :
    let rt := restRead buffSize left piece
    if rt = 0 ∨ buffSize + 1 < rt then ¬ Delivers buffSize s body
    else ∃ t : RecvState, (Delivers buffSize t body ↔ Delivers buffSize s body) ∧
      t.phase = .rest (left - rt) ∧ t.body.length = s.body.length + rt ∧
      Brings t.stream.reads pieces ∧ t.parser = s.parser := by
  intro rt
  generalize hr : s.stream.reads = reads at h
  cases h with
  | cons hev hevents =>
      obtain ⟨hpos, hfits, rfl⟩ := hev
      have hnext : s.next buffSize = s.rest buffSize left := by
        simp only [next, hphase]
      simp only [rest, if_pos hleft, receive, hr] at hnext
      have hresult : Event.result (sizeT (if int32 buffSize < left then int32 buffSize else left))
          (.moves piece.length hpos hfits) = (rt : Int) := rfl
      rw [hresult] at hnext
      by_cases hzero : (rt : Int) ≤ 0
      · rw [if_pos (.inl (by omega))]
        rw [if_pos hzero] at hnext
        rw [← delivers_next, hnext]
        exact not_delivers rfl (fun _ h => by cases h) body
      rw [if_neg hzero] at hnext
      by_cases hlarge : (buffSize : Int) + 1 < rt
      · rw [if_pos (.inr (by omega))]
        rw [if_pos hlarge] at hnext
        rw [← delivers_next, hnext]
        exact not_delivers rfl (fun _ h => by cases h) body
      rw [if_neg hlarge] at hnext
      rw [if_neg (by omega)]
      refine ⟨_, delivers_next, ?_⟩
      rw [hnext]
      refine ⟨rfl, ?_, hevents, rfl⟩
      show (s.body ++ window s.stream.input s.stream.taken (rt : Int).toNat).length = _
      rw [List.length_append, length_window]
      rfl

/-- With fewer bytes to come than the chunk wants, the call does not return. -/
theorem rest_starved (buffSize : Nat) {pieces : List (List UInt8)} {left : Int}
    (hphase : s.phase = .rest left)
    (h : Brings s.stream.reads pieces) (hless : (pieces.flatten.length : Int) < left)
    (body : List UInt8) : ¬ Delivers buffSize s body := by
  induction pieces generalizing s left with
  | nil =>
      have hreads : s.stream.reads = [] := List.forall₂_nil_right_iff.mp h
      have hleft : 0 < left := hless
      rw [← delivers_next]
      have hwaits : (s.next buffSize).phase = .ended .waits := by
        simp only [next, hphase, rest, if_pos hleft, receive, hreads]
        rfl
      exact not_delivers hwaits (fun _ h => by cases h) body
  | cons piece pieces ih =>
      rw [List.flatten_cons, List.length_append] at hless
      have hstep := rest_step buffSize hphase (by omega) h body
      simp only at hstep
      have hle : restRead buffSize left piece ≤ piece.length := Nat.min_le_left _ _
      split at hstep
      · exact hstep
      · obtain ⟨t, hiff, htphase, -, hreads, -⟩ := hstep
        rw [← hiff]
        exact ih htphase hreads (by omega)

theorem rest_end {left : Int} (hphase : s.phase = .rest left) (hleft : left ≤ 0)
    (hdone : s.parser.parser.chunksDone = true) (hdata : s.parser.data.body = []) :
    Delivers buffSize s [] ↔ 2 ≤ s.body.length := by
  rw [← delivers_next]
  simp only [next, hphase, rest, if_neg (not_lt.mpr hleft)]
  by_cases hshort : s.body.length < 2
  · rw [if_pos hshort]
    refine ⟨fun h => ?_, fun h => by omega⟩
    exact absurd h (not_delivers rfl (fun _ h => by cases h) [])
  · rw [if_neg hshort]
    refine ⟨fun _ => by omega, fun _ => ⟨s.parser.data, (ends_of_ended ?_).mpr rfl, hdata⟩⟩
    show nextChunk [] _ = _
    rw [nextChunk, if_pos hdone]

theorem restRead_of_neg {left : Int} (hneg : int32 buffSize < 0) (hleft : 0 < left)
    {piece : List UInt8} (hfits : piece.length < 2 ^ 31) :
    restRead buffSize left piece = piece.length := by
  have hlow := (int32_range buffSize).1
  have hwrap := sizeT_neg hneg (by omega)
  unfold restRead
  rw [if_pos (by omega)]
  omega

theorem restRead_of_nonneg {left : Int} (hnonneg : 0 ≤ int32 buffSize) (hleft : 0 < left)
    (piece : List UInt8) :
    (restRead buffSize left piece : Int) =
      min (piece.length : Int) (min (int32 buffSize) left) := by
  have hhigh := (int32_range buffSize).2
  unfold restRead
  split
  · obtain ⟨k, hk⟩ := Int.eq_ofNat_of_zero_le hnonneg
    rw [hk, sizeT_natCast (by omega)]
    omega
  · obtain ⟨k, rfl⟩ := Int.eq_ofNat_of_zero_le hleft.le
    rw [sizeT_natCast (by omega)]
    omega

/-- The last piece. -/
theorem rest_last {left : Int} (hphase : s.phase = .rest left) (hleft : 0 < left)
    {piece : List UInt8} (h : Brings s.stream.reads [piece]) (hfits : piece.length ≤ buffSize)
    (hdone : s.parser.parser.chunksDone = true) (hdata : s.parser.data.body = []) :
    Delivers buffSize s [] ↔
      left ≤ restRead buffSize left piece ∧ 2 ≤ s.body.length + restRead buffSize left piece := by
  have hstep := rest_step buffSize hphase hleft h []
  have hle : restRead buffSize left piece ≤ piece.length := Nat.min_le_left _ _
  simp only at hstep
  split at hstep
  · exact ⟨fun h => absurd h hstep, fun h => by omega⟩
  · obtain ⟨t, hiff, htphase, hbody, hreads, hparser⟩ := hstep
    rw [← hiff]
    by_cases hmore : left - restRead buffSize left piece ≤ 0
    · rw [rest_end htphase hmore (by rw [hparser]; exact hdone) (by rw [hparser]; exact hdata),
        hbody]
      exact ⟨fun h => ⟨by omega, h⟩, fun h => h.2⟩
    · have hnot := rest_starved buffSize htphase hreads
        (by rw [List.flatten_nil, List.length_nil]; omega) []
      exact ⟨fun h => absurd h hnot, fun h => by omega⟩

/-- Two bytes that come one by one. -/
theorem rest_two {left : Int} (hphase : s.phase = .rest left) (hleft : 0 < left)
    {first second : List UInt8} (h : Brings s.stream.reads [first, second])
    (hfirst : first.length = 1) (hsecond : second.length = 1) (hfits : 1 ≤ buffSize)
    (hdone : s.parser.parser.chunksDone = true) (hdata : s.parser.data.body = []) :
    Delivers buffSize s [] ↔ int32 buffSize ≠ 0 ∧
      (if left = 1 then 1 ≤ s.body.length else left = 2) := by
  have hone (left : Int) (hleft : 0 < left) (piece : List UInt8) (hpiece : piece.length = 1) :
      (restRead buffSize left piece : Int) = if int32 buffSize = 0 then 0 else 1 := by
    by_cases hneg : int32 buffSize < 0
    · rw [restRead_of_neg hneg hleft (by omega), if_neg (by omega), hpiece]
      rfl
    · rw [restRead_of_nonneg (by omega) hleft]
      split <;> omega
  have hstep := rest_step buffSize hphase hleft h []
  have hread := hone left hleft first hfirst
  simp only at hstep
  by_cases hzero : int32 buffSize = 0
  · rw [if_pos hzero] at hread
    rw [if_pos (.inl (by omega))] at hstep
    exact ⟨fun h => absurd h hstep, fun h => absurd hzero h.1⟩
  rw [if_neg hzero] at hread
  rw [if_neg (by omega)] at hstep
  obtain ⟨t, hiff, htphase, hbody, hreads, hparser⟩ := hstep
  rw [← hiff]
  by_cases hlast : left = 1
  · rw [rest_end htphase (by omega) (by rw [hparser]; exact hdone) (by rw [hparser]; exact hdata),
      if_pos hlast, hbody]
    exact ⟨fun h => ⟨hzero, by omega⟩, fun h => by omega⟩
  · have hread' := hone (left - restRead buffSize left first) (by omega) second hsecond
    rw [if_neg hzero] at hread'
    rw [rest_last htphase (by omega) hreads (by omega) (by rw [hparser]; exact hdone)
      (by rw [hparser]; exact hdata), if_neg hlast, hbody]
    exact ⟨fun h => ⟨hzero, by omega⟩, fun h => ⟨by omega, by omega⟩⟩

/-- The line end that is left comes in one piece or byte by byte. -/
theorem pieces_of_le_two {events : List Event} {pieces : List (List UInt8)}
    (h : Brings events pieces) (hpos : 0 < pieces.flatten.length)
    (hle : pieces.flatten.length ≤ 2) :
    (∃ piece, pieces = [piece] ∧ piece.length = pieces.flatten.length) ∨
      ∃ first second, pieces = [first, second] ∧ first.length = 1 ∧ second.length = 1 := by
  cases h with
  | nil => cases hpos
  | @cons _ first _ pieces hfirst hrest =>
      obtain ⟨hfirst, -, -⟩ := hfirst
      rw [List.flatten_cons, List.length_append] at hle ⊢
      cases hrest with
      | nil => exact .inl ⟨first, rfl, rfl⟩
      | @cons _ second _ pieces hsecond hrest =>
          obtain ⟨hsecond, -, -⟩ := hsecond
          rw [List.flatten_cons, List.length_append] at hle
          cases hrest with
          | nil => exact .inr ⟨first, second, rfl, by omega, by omega⟩
          | cons hthird _ =>
              obtain ⟨hthird, -, -⟩ := hthird
              rw [List.flatten_cons, List.length_append] at hle
              omega

/-- Behind the size line: what of the chunk is there, and then the reads. -/
theorem delivers_chunk_iff {buffer rest : List UInt8} {later : List (List UInt8)} {n : Int}
    (hphase : s.phase = .chunk buffer rest) (hn : s.parser.parser.contentLen = n)
    (hdone : s.parser.parser.chunksDone = decide (n ≤ 0)) (hbody : s.body = [])
    (hdata : s.parser.data.body = []) (hbrings : Brings s.stream.reads later)
    (hlength : rest.length + later.flatten.length = 2)
    (hfits : ∀ piece ∈ later, piece.length ≤ buffSize)
    (hfull : (rest.length : Int) ≠ int32 buffSize) :
    Delivers buffSize s [] ↔ Closes (int32 buffSize) n rest later := by
  have hnext : s.next buffSize = s.chunk buffer rest := by
    simp only [next, hphase]
  unfold Closes
  simp only [chunk, hn] at hnext
  by_cases hsum : 2 ^ 31 ≤ n + 2
  · rw [if_pos hsum] at hnext
    rw [← delivers_next, hnext]
    refine ⟨fun h => absurd h (not_delivers rfl (fun _ h => by cases h) []), fun h => by omega⟩
  rw [if_neg hsum] at hnext
  by_cases hbuffered : n + 2 ≤ rest.length
  · rw [if_pos hbuffered] at hnext
    by_cases hneg : n < 0
    · rw [if_pos hneg] at hnext
      rw [← delivers_next, hnext]
      refine ⟨fun h => absurd h (not_delivers rfl (fun _ h => by cases h) []), fun h => ?_⟩
      obtain ⟨hzero, -⟩ | ⟨hminus, -, rfl, -⟩ := h
      · omega
      · rw [List.length_nil] at hbuffered
        omega
    · rw [if_neg hneg] at hnext
      refine ⟨fun _ => .inl ⟨by omega, .inl (by omega)⟩, fun _ => ?_⟩
      rw [← delivers_next, hnext]
      refine ⟨s.parser.data, (ends_of_ended ?_).mpr rfl, hdata⟩
      show nextChunk _ s = _
      rw [nextChunk, hdone, if_pos (decide_eq_true (by omega))]
  rw [if_neg hbuffered] at hnext
  -- the chunk is not all there
  have hrest : (s.next buffSize).phase = .rest (n - rest.length + 2) := by
    rw [hnext]
    rfl
  have hcount : (s.next buffSize).body.length = rest.length := by
    rw [hnext]
    show (s.body ++ rest).length = _
    rw [hbody, List.nil_append]
  have hparser : (s.next buffSize).parser = s.parser := by
    rw [hnext]
    rfl
  have hreads : Brings (s.next buffSize).stream.reads later := by
    rw [hnext]
    exact hbrings
  rw [← delivers_next]
  generalize s.next buffSize = t at hrest hcount hparser hreads
  by_cases hlong : 0 < n
  · have hnot := rest_starved buffSize hrest hreads (by omega) []
    exact ⟨fun h => absurd h hnot, fun h => by omega⟩
  have hdone' : t.parser.parser.chunksDone = true := by
    rw [hparser, hdone]
    exact decide_eq_true (by omega)
  have hdata' : t.parser.data.body = [] := by
    rw [hparser]
    exact hdata
  have hempty : rest = [] ↔ rest.length = 0 := List.length_eq_zero_iff.symm
  obtain ⟨piece, rfl, hpiece⟩ | ⟨first, second, rfl, hfirst, hsecond⟩ :=
    pieces_of_le_two hreads (by omega) (by omega)
  · have hsize := hfits piece (List.mem_singleton.mpr rfl)
    rw [rest_last hrest (by omega) hreads hsize hdone' hdata', hcount, hempty]
    simp only [List.length_singleton, and_true]
    rw [← hpiece] at hlength
    by_cases hneg : int32 buffSize < 0
    · rw [restRead_of_neg hneg (by omega) (by omega)]
      constructor
      · intro h
        omega
      · intro h
        exact ⟨by omega, by omega⟩
    · have hleft : 0 < n - rest.length + 2 := by omega
      have hread := restRead_of_nonneg (not_lt.mp hneg) hleft piece
      constructor
      · intro h
        omega
      · intro h
        exact ⟨by omega, by omega⟩
  · have hsize := hfits first List.mem_cons_self
    have htotal : [first, second].flatten.length = 2 := by
      simp only [List.flatten_cons, List.flatten_nil, List.length_append, List.length_nil]
      omega
    rw [htotal] at hlength
    rw [rest_two hrest (by omega) hreads hfirst hsecond (by omega) hdone' hdata', hcount, hempty]
    simp only [List.length_cons, List.length_nil, implies_true, and_true]
    constructor
    · rintro ⟨hb, hleft⟩
      split at hleft <;> omega
    · intro h
      refine ⟨by omega, ?_⟩
      split <;> omega

/-! ## The closing size line -/

/-- A state of the loop over the closing size line, of which `line` and a line feed are still
to come in `data` and the reads, and behind it the line end of the body. -/
structure AtLast (buffSize : Nat) (data line : List UInt8) (pieces : List (List UInt8))
    (s : RecvState) : Prop where
  arrives : Incoming s.stream pieces
  fits : ∀ piece ∈ pieces, piece.length ≤ buffSize
  bytes : data ++ pieces.flatten = line ++ 10 :: crlf
  feed : 10 ∉ line
  blank : 32 ∉ line
  error : s.parser.error = 0
  body : s.body = []
  data : s.parser.data.body = []

/-- The closing size line, before a read. -/
def ReadsLast (buffSize : Nat) (pieces : List (List UInt8)) : Prop :=
  ∀ s line, s.phase = .read true [] → AtLast buffSize [] line pieces s →
    (Delivers buffSize s [] ↔ EndsWell (int32 buffSize) pieces)

theorem prefix_of_not_mem {a b c d : List UInt8} (h : a ++ b = c ++ 10 :: d) (ha : 10 ∉ a) :
    ∃ tail, c = a ++ tail := by
  obtain ⟨tail, hc, -⟩ | ⟨middle, hac, hrest⟩ := List.append_eq_append_iff.mp h
  · exact ⟨tail, hc⟩
  · cases middle with
    | nil => exact ⟨[], by rw [hac, List.append_nil, List.append_nil]⟩
    | cons x middle =>
        obtain ⟨rfl, -⟩ := List.cons.inj hrest
        exact absurd (hac ▸ List.mem_append_right c List.mem_cons_self) ha

theorem delivers_parse_iff (line : List UInt8) {piece : List UInt8} {pieces : List (List UInt8)}
    (hphase : s.phase = .parse true piece) (h : AtLast buffSize piece line pieces s)
    (hpos : 0 < piece.length) (hint : piece.length < 2 ^ 31) (hlater : ReadsLast buffSize pieces) :
    Delivers buffSize s [] ↔ EndsWell (int32 buffSize) (piece :: pieces) := by
  have hblank : 32 ∉ piece := by
    intro hmem
    have hall : 32 ∈ piece ++ pieces.flatten := List.mem_append_left _ hmem
    rw [h.bytes] at hall
    obtain hline | hrest := List.mem_append.mp hall
    · exact h.blank hline
    · exact absurd hrest (by decide)
  obtain ⟨parser, nparse, hexec, hle, hdrop, hcs, herror⟩ :=
    HttpResponseParser.execute_line hpos (by omega) hblank s.parser
  have hdata : parser.data.body = [] := (HttpResponseParser.execute_ok hexec).2.2.trans h.data
  have hnext : s.next buffSize = s.parse buffSize true piece := by
    simp only [next, hphase]
  simp only [parse, hexec, if_neg (not_lt.mpr hle), hdrop] at hnext
  have hfailed : parser.hasError = decide ((HttpClient.scan 1 piece).1 = 0) := by
    rw [HttpResponseParser.hasError, herror, h.error, ← hcs]
    rfl
  have hfinished : parser.isFinished = decide ((HttpClient.scan 1 piece).1 = 120) := by
    rw [← hcs]
    rfl
  rw [hfailed, hfinished] at hnext
  rw [← delivers_next]
  unfold EndsWell
  simp only [lineEnd]
  generalize hscan : HttpClient.scan 1 piece = stop at hnext hcs
  have hstop := HttpClient.scan_line hblank (by decide : 1 ∈ lineStates)
  simp only [hscan] at hstop
  by_cases hzero : stop.1 = 0
  · rw [if_pos (decide_eq_true hzero)] at hnext
    rw [hnext, if_pos (.inl hzero)]
    refine ⟨fun h => absurd h (not_delivers rfl (fun _ h => by cases h) []), fun h => ?_⟩
    obtain ⟨_, _, _, hnone, -⟩ := h
    cases hnone
  rw [if_neg (by rw [decide_eq_true_eq]; exact hzero)] at hnext
  by_cases hfull : (stop.2.length : Int) = int32 buffSize
  · rw [if_pos hfull] at hnext
    rw [hnext, if_pos (.inr hfull)]
    refine ⟨fun h => absurd h (not_delivers rfl (fun _ h => by cases h) []), fun h => ?_⟩
    obtain ⟨_, _, _, hnone, -⟩ := h
    cases hnone
  rw [if_neg hfull] at hnext
  rw [if_neg (not_or.mpr ⟨hzero, hfull⟩)]
  obtain hzero' | ⟨hline, hnil, hfeed⟩ | ⟨hend, pre, hfeed, hpiece⟩ := hstop
  · exact absurd hzero' hzero
  · -- the line goes on behind this piece
    have hopen : stop.1 ≠ 120 := by
      intro heq
      rw [heq] at hline
      exact absurd hline (by decide)
    rw [decide_eq_false hopen, Bool.not_false, if_pos rfl] at hnext
    rw [if_neg hopen, hnext]
    obtain ⟨tail, htail⟩ := prefix_of_not_mem h.bytes hfeed
    refine hlater _ tail (by rw [hnil]; rfl) ⟨h.arrives, h.fits, ?_, ?_, ?_, ?_, h.body, hdata⟩
    · have hbytes := h.bytes
      rw [htail, List.append_assoc] at hbytes
      exact List.append_cancel_left hbytes
    · exact fun hmem => h.feed (htail ▸ List.mem_append_right piece hmem)
    · exact fun hmem => h.blank (htail ▸ List.mem_append_right piece hmem)
    · exact herror.trans h.error
  · -- this piece ends the line
    have hclosed : (!decide (stop.1 = 120)) = false := by
      rw [decide_eq_true hend]
      rfl
    rw [hclosed, if_neg Bool.false_ne_true, if_true] at hnext
    rw [if_pos hend, hnext]
    have hbytes := h.bytes
    rw [hpiece, List.append_assoc, List.cons_append] at hbytes
    have hrest : stop.2 ++ pieces.flatten = crlf :=
      (Support.Lines.eq_of_first hfeed h.feed hbytes).2
    have hlength := congrArg List.length hrest
    rw [List.length_append] at hlength
    have hdigit : piece.head?.any isXdigit :=
      HttpClient.scan_digit hblank (by rw [hscan]; exact hend)
    have hend' : parser.isFinished = true := by
      rw [hfinished, hscan]
      exact decide_eq_true hend
    obtain ⟨hcontent, hdone⟩ := HttpResponseParser.contentLen_size hdigit hexec hend'
    have hiff : Delivers buffSize (goto { s with parser := parser } (.chunk piece stop.2)
        ([.parsed nparse piece.length] ++ [.level stop.2.length])) [] ↔
        Closes (int32 buffSize) _ stop.2 pieces :=
      delivers_chunk_iff rfl hcontent (by rw [← hcontent]; exact hdone) h.body hdata
        h.arrives.reads hlength h.fits hfull
    refine hiff.trans ⟨fun hcloses => ⟨piece, stop.2, pieces, rfl, hcloses⟩, ?_⟩
    rintro ⟨_, _, _, hsome, hcloses⟩
    cases hsome
    exact hcloses

theorem readsLast (hbuff : buffSize < 2 ^ 64) (pieces : List (List UInt8)) :
    ReadsLast buffSize pieces := by
  induction pieces with
  | nil =>
      intro s line _ h
      have hbytes := congrArg List.length h.bytes
      simp at hbytes
  | cons piece pieces ih =>
      intro s line hphase h
      obtain ⟨hpos, hint, events, hreads, hwindow, hrest⟩ := h.arrives.cons
      have hsize := h.fits piece List.mem_cons_self
      have hroom : subSize buffSize ([] : List UInt8).length = buffSize :=
        subSize_of_le hbuff (Nat.zero_le _)
      have hnext : s.next buffSize = s.read buffSize true [] := by
        simp only [next, hphase]
      have hresult : Event.result buffSize (.moves piece.length hpos hint) =
          (piece.length : Int) := by
        show ((min piece.length buffSize : Nat) : Int) = _
        rw [Nat.min_eq_left hsize]
      simp only [read, receive, hreads, hroom, hresult, Int.toNat_natCast, hwindow, List.nil_append]
        at hnext
      rw [if_neg (by omega), if_pos (by simp only [List.length_nil]; omega)] at hnext
      rw [← delivers_next, hnext]
      have hlater : ∀ p ∈ pieces, p.length ≤ buffSize :=
        fun p hp => h.fits p (List.mem_cons_of_mem piece hp)
      exact delivers_parse_iff line rfl ⟨hrest, hlater, h.bytes, h.feed, h.blank, h.error, h.body,
        h.data⟩ hpos hint ih

/-! ## The whole call -/

/-- The pieces that the loop over the size lines is given. -/
def afterHead (surplus : List UInt8) (later : List (List UInt8)) : List (List UInt8) :=
  if surplus = [] then later else surplus :: later

/-- Behind the head of a chunked response without chunks. -/
theorem delivers_last_iff (hbuff : buffSize < 2 ^ 64) (line : List UInt8) {surplus : List UInt8}
    {later : List (List UInt8)} (hphase : s.phase = nextLine surplus)
    (h : AtLast buffSize surplus line later s) (hint : surplus.length < 2 ^ 31) :
    Delivers buffSize s [] ↔ EndsWell (int32 buffSize) (afterHead surplus later) := by
  unfold nextLine at hphase
  unfold afterHead
  by_cases hnil : surplus = []
  · rw [if_pos hnil] at hphase ⊢
    rw [hnil] at h
    exact readsLast hbuff later s line hphase h
  · rw [if_neg hnil] at hphase ⊢
    exact delivers_parse_iff line hphase h (List.length_pos_iff.mpr hnil) hint
      (readsLast hbuff later)

/-- The steps over the first read, which brings a whole head. -/
theorem next_head {raw : HttpClientParser} {content : Content buffSize}
    (hbuff : buffSize < 2 ^ 64) (first : HeadRead raw content) {later : List (List UInt8)}
    {stream : Stream} (harrives : Incoming stream (first.bytes :: later))
    (hfits : first.bytes.length ≤ buffSize) : ∃ t : RecvState,
      (∀ body, Delivers buffSize t body ↔ Delivers buffSize (start raw stream) body) ∧
      t.phase = .parse false first.bytes ∧ t.parser = .new raw ∧ t.body = [] ∧
      Incoming t.stream later := by
  obtain ⟨hpos, hint, events, hreads, hwindow, hrest⟩ := harrives.cons
  have hroom : subSize buffSize ([] : List UInt8).length = buffSize :=
    subSize_of_le hbuff (Nat.zero_le _)
  have hnext : (start raw stream).next buffSize = (start raw stream).read buffSize false [] := rfl
  have hstream : (start raw stream).stream = stream := rfl
  have hresult : Event.result buffSize (.moves first.bytes.length hpos hint) =
      (first.bytes.length : Int) := by
    show ((min first.bytes.length buffSize : Nat) : Int) = _
    rw [Nat.min_eq_left hfits]
  simp only [read, receive, hstream, hreads, hroom, hresult, Int.toNat_natCast, hwindow,
    List.nil_append] at hnext
  rw [if_neg (by omega), if_pos (by simp only [List.length_nil]; omega)] at hnext
  refine ⟨_, fun body => delivers_next, ?_⟩
  rw [hnext]
  exact ⟨rfl, rfl, rfl, hrest⟩

/-- Only empty bodies are delivered, and these if the reads cut the closing size line well. -/
theorem recvResponse_delivers {raw : HttpClientParser} {content : Content buffSize}
    (hbuff : buffSize < 2 ^ 64) (first : HeadRead raw content) {later : List (List UInt8)}
    {stream : Stream} (harrives : Incoming stream (first.bytes :: later))
    (hfits : ∀ piece ∈ first.bytes :: later, piece.length ≤ buffSize)
    (hbytes : first.surplus ++ later.flatten = content.bytes) :
    Delivers buffSize (start raw stream) content.body ↔ content.body = [] ∧
      (first.surplus.length : Int) ≠ int32 buffSize ∧
      EndsWell (int32 buffSize) (afterHead first.surplus later) := by
  by_cases hempty : content.body = []
  · obtain ⟨hsize, hlater⟩ := List.forall_mem_cons.mp hfits
    obtain ⟨hpos, hint, -⟩ := harrives.cons
    obtain ⟨t, hiff, hphase, hparser, hbody, hrest⟩ := next_head hbuff first harrives hsize
    rw [and_iff_right hempty, hempty, ← hiff]
    have hparsed := first.parsed
    have hle := HttpResponseParser.execute_le hpos (by omega) hparsed
    have hnext : t.next buffSize = t.parse buffSize false first.bytes := by
      simp only [next, hphase]
    simp only [parse, hparser, hparsed, if_neg (not_lt.mpr hle), first.accepted, first.finished,
      Bool.not_true, Bool.false_eq_true, if_false] at hnext
    rw [← delivers_next]
    change t.next buffSize = if (first.surplus.length : Int) = int32 buffSize then _ else _ at hnext
    by_cases hfull : (first.surplus.length : Int) = int32 buffSize
    · rw [if_pos hfull] at hnext
      rw [hnext]
      refine ⟨fun h => absurd h (not_delivers rfl (fun _ h => by cases h) []), fun h => ?_⟩
      exact absurd hfull h.1
    rw [if_neg hfull] at hnext
    rw [and_iff_right hfull]
    obtain ⟨text, hblank, hfeed, hcontent, hchunked⟩ := content.of_empty hempty first.announced
    rw [if_pos hchunked] at hnext
    rw [hnext]
    have hshort : first.surplus.length ≤ first.bytes.length := by
      rw [HeadRead.surplus, List.length_drop]
      omega
    have herror : first.parser.error = 0 := by
      have haccepted := first.accepted
      rw [HttpResponseParser.hasError, Bool.or_eq_false_iff, decide_eq_false_iff_not, not_not]
        at haccepted
      exact haccepted.1
    have hdata : first.parser.data.body = [] := (HttpResponseParser.execute_ok hparsed).2.2
    exact delivers_last_iff hbuff text rfl ⟨hrest, hlater, hbytes.trans hcontent, hfeed, hblank,
      herror, hbody, hdata⟩ (by omega)
  · refine ⟨fun h => absurd (delivers_nothing h) hempty, fun h => absurd h.1 hempty⟩

/-- A chunked response without chunks, its head alone in the first read. -/
theorem recvResponse_delivers_empty :
    let head := chars "HTTP/1.1 200 OK\r\nTransfer-Encoding: chunked\r\n\r\n"
    let stream : Stream := { Stream.ofBytes (head ++ chars "0\r\n\r\n") 0 with
      reads := [.moves 47 (by decide) (by decide), .moves 4 (by decide) (by decide),
        .moves 1 (by decide) (by decide)] }
    Delivers 4096 (start .fresh stream) [] := by
  intro head stream
  let parser : HttpResponseParser :=
    { parser := ⟨120, 47, -1, 200, true, false, false, 36, 17, 17⟩
      data := { reason := chars "OK", headers := [(chars "Transfer-Encoding", chars "chunked")] }
      error := 0 }
  let content : Content 4096 :=
    .chunked [] (chars "0\r\n") ⟨by decide, by decide, by decide⟩ (by decide)
  let first : HeadRead .fresh content :=
    { bytes := head, parser := parser, nparse := 47, parsed := by decide +kernel
      accepted := rfl, finished := rfl, announced := rfl }
  let later : List (List UInt8) := [chars "0\r\n\r", chars "\n"]
  have harrives : Incoming stream (first.bytes :: later) := by
    refine ⟨.cons ⟨by decide, by decide, rfl⟩ (.cons ⟨by decide, by decide, rfl⟩
      (.cons ⟨by decide, by decide, rfl⟩ .nil)), ?_⟩
    decide
  have hends : EndsWell (int32 (4096 : Nat)) (afterHead first.surplus later) := by
    refine ⟨chars "0\r\n\r", [13], [chars "\n"], ?_, .inl ⟨?_, .inr ⟨?_, ?_⟩⟩⟩
    all_goals decide +kernel
  exact (recvResponse_delivers (by decide) first harrives (by decide) rfl).mpr
    ⟨rfl, by decide +kernel, hends⟩

/-- A body of three bytes that comes with its head is lost. -/
theorem recvResponse_loses_body :
    let bytes := chars "HTTP/1.1 200 OK\r\nContent-Length: 3\r\n\r\nabc"
    let stream : Stream :=
      { Stream.ofBytes bytes 0 with reads := [.moves 41 (by decide) (by decide)] }
    let content : Content 4096 := .length (chars "abc") (by decide)
    ∃ first : HeadRead .fresh content, Incoming stream [first.bytes] ∧
      first.surplus = content.bytes ∧ ¬ Delivers 4096 (start .fresh stream) content.body := by
  intro bytes stream content
  let parser : HttpResponseParser :=
    { parser := ⟨120, 38, 3, 200, false, false, false, 33, 17, 14⟩
      data := { reason := chars "OK", headers := [(chars "Content-Length", chars "3")] }
      error := 0 }
  have hlength : parser.getContentLength = 3 := by decide +kernel
  let first : HeadRead .fresh content :=
    { bytes := bytes, parser := parser, nparse := 38, parsed := by decide +kernel
      accepted := rfl, finished := rfl, announced := ⟨rfl, hlength⟩ }
  have harrives : Incoming stream [bytes] :=
    ⟨.cons ⟨by decide, by decide, rfl⟩ .nil, by decide⟩
  have hsurplus : bytes.drop 38 = chars "abc" := by decide
  refine ⟨first, harrives, hsurplus, ?_⟩
  intro h
  have hnil : chars "abc" = [] := delivers_nothing h
  exact absurd hnil (by decide)

end RecvState

end Lyslg.Http
