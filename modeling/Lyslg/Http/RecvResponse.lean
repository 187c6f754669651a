import Lyslg.Http.ResponseParser
import Lyslg.Stream.FixSize
import Mathlib.Logic.Function.Iterate
/-!
# `HttpConnection::recvResponse`

The call as a machine that takes one read, one call of `execute` or one chunk in a step.  The
lengths that a step uses are kept in `ops`, up to the one that ends the call.
-/

namespace Lyslg.Http

open Support.Machine Support.Memory

/-- How a call ends. -/
inductive ResponseOutcome where
  /-- none is `nullptr` -/
  | returned (response : Option HttpResponse)
  | escaped (e : Escape)
  /-- waits in `read` -/
  | waits
  | fault (f : Fault)
  /-- went on behind an overflow of an `int` or an access outside the buffer -/
  | undefined
  deriving DecidableEq

/-- Where a call is, with `data` in the buffer. -/
inductive ResponsePhase where
  /-- at the `read` of the loop over the head, or of that over a size line -/
  | read (chunck : Bool) (data : List UInt8)
  /-- before the `execute` of these loops -/
  | parse (chunck : Bool) (data : List UInt8)
  /-- behind the size line that `buffer` began with -/
  | chunk (buffer data : List UInt8)
  /-- before the loop that reads the `left` bytes of a chunk, or what is left of them -/
  | rest (left : Int)
  | ended (outcome : ResponseOutcome)
  deriving DecidableEq

/-- A length that is used, as the number it stands for. -/
inductive BufferOp where
  /-- `offset`, or `len` -/
  | level (v : Int)
  /-- the result of an addition of `int`s -/
  | sum (v : Int)
  /-- `read(data + start, n)` -/
  | read (start n : Int)
  /-- `execute` returns `nparse` -/
  | parsed (nparse buffered : Nat)
  /-- `body.append(data, n)` -/
  | append (n : Int) (buffered : Nat)
  /-- `memmove(data, data + src, n)` -/
  | memmove (src n : Int) (buffered : Nat)
  /-- `body.resize(n)` -/
  | resize (n : Int)
  /-- a size line with this value gives the length of a chunk -/
  | sizeLine (value : Nat)
  deriving DecidableEq

structure RecvState where
  phase : ResponsePhase
  parser : HttpResponseParser
  body : List UInt8
  stream : Stream
  ops : List BufferOp

namespace RecvState

/-- The start of a call; `raw` is what the memory of its `httpclient_parser` held before. -/
def start (raw : HttpClientParser) (stream : Stream) : RecvState :=
  { phase := .read false [], parser := .new raw, body := [], stream := stream, ops := [] }

def goto (s : RecvState) (phase : ResponsePhase) (ops : List BufferOp) : RecvState :=
  { s with phase := phase, ops := s.ops ++ ops }

/-- `close(); return nullptr;` -/
def refuse (s : RecvState) (ops : List BufferOp) : RecvState :=
  { s with
    phase := .ended (.returned none), stream := { s.stream with closed := true }
    ops := s.ops ++ ops }

/-- A read of up to `room` bytes: its result and the bytes, or none when it waits. -/
def receive (room : Nat) (s : RecvState) : Option (Int × List UInt8 × RecvState) :=
  match s.stream.reads with
  | [] => none
  | ev :: events =>
      let rt := ev.result room
      let bytes := window s.stream.input s.stream.taken rt.toNat
      some (rt, bytes,
        { s with stream := { s.stream with taken := s.stream.taken + rt.toNat, reads := events } })

/-- `read(data + len, buff_size - len)` and `len += rt`. -/
def read (buffSize : Nat) (chunck : Bool) (data : List UInt8) (s : RecvState) : RecvState :=
  let room := subSize buffSize data.length
  let ops : List BufferOp := [.level data.length, .read data.length room]
  match s.receive room with
  | none => s.goto (.ended .waits) ops
  | some (rt, bytes, s) =>
      let len : Int := data.length + rt
      if rt ≤ 0 then s.refuse ops
      else if len < 2 ^ 31 then
        s.goto (.parse chunck (data ++ bytes)) (ops ++ [.sum len, .level len])
      else s.goto (.ended .undefined) (ops ++ [.sum len])

/-- The top of the loop over the chunks. -/
def nextLine (data : List UInt8) : ResponsePhase :=
  if data = [] then .read true [] else .parse true data

/-- Without chunks, the rest of the call, for a content length of `length` and with `buffered`
behind the head in the buffer. -/
def content (length : Int) (buffered : List UInt8) (s : RecvState) : RecvState :=
  if 0 < length then
    let offset := buffered.length
    let len := if (offset : Int) ≤ length then offset else length.toNat
    let body := splice (List.replicate length.toNat 0) 0 (buffered.take len)
    if 0 < length - offset then
      let run := readFixSize s.stream body len (length - offset).toNat
      let s := { s with stream := run.dev.1 }
      match run.status with
      | .returned v =>
          if v ≤ 0 then s.refuse [] else s.goto (.ended (.returned (some s.parser.data))) []
      | .blocked => s.goto (.ended .waits) []
      | .fault f => s.goto (.ended (.fault f)) []
    else s.goto (.ended (.returned (some s.parser.data))) []
  else s.goto (.ended (.returned (some s.parser.data))) []

/-- `execute` and what follows in the two loops around it. -/
def parse (buffSize : Nat) (chunck : Bool) (buffer : List UInt8) (s : RecvState) : RecvState :=
  match s.parser.execute buffer chunck with
  | .error e => s.goto (.ended (.escaped e)) []
  | .ok (parser, nparse) =>
      let s := { s with parser := parser }
      let ops : List BufferOp := [.parsed nparse buffer.length]
      if buffer.length < nparse then s.goto (.ended .undefined) ops
      else if parser.hasError then s.refuse ops
      else
        let data := buffer.drop nparse
        let ops : List BufferOp := ops ++ [.level data.length]
        if (data.length : Int) = int32 buffSize then s.refuse ops
        else if !parser.isFinished then s.goto (.read chunck data) ops
        else if chunck then s.goto (.chunk buffer data) ops
        else if parser.parser.chunked then s.goto (nextLine data) ops
        else (s.goto s.phase ops).content (int64 parser.getContentLength) data

/-- The end of a round of the loop over the chunks. -/
def nextChunk (data : List UInt8) (s : RecvState) : ResponsePhase :=
  if s.parser.parser.chunksDone then .ended (.returned (some s.parser.data)) else nextLine data

/-- One chunk, as far as the buffer holds it. -/
def chunk (buffer data : List UInt8) (s : RecvState) : RecvState :=
  let n := s.parser.parser.contentLen
  let len : Int := data.length
  let ops : List BufferOp := [.sizeLine (leadingValue 16 buffer), .sum (n + 2)]
  if 2 ^ 31 ≤ n + 2 then s.goto (.ended .undefined) ops
  else if n + 2 ≤ len then
    let ops : List BufferOp := ops ++ [.append n data.length]
    -- as a `size_t`, a negative length is longer than a string can be
    if n < 0 then s.goto (.ended (.escaped .lengthError)) ops
    else
      let s := { s with body := s.body ++ data.take n.toNat }
      s.goto (s.nextChunk (data.drop (n + 2).toNat))
        (ops ++ [.memmove (n + 2) (len - n - 2) data.length, .level (len - (n + 2))])
  else
    let s := { s with body := s.body ++ data }
    s.goto (.rest (n - len + 2)) (ops ++ [.append len data.length, .sum (n - len + 2)])

/-- The loop that reads what is left of a chunk. -/
def rest (buffSize : Nat) (left : Int) (s : RecvState) : RecvState :=
  if 0 < left then
    let n := if int32 buffSize < left then int32 buffSize else left
    let ops : List BufferOp := [.read 0 n]
    match s.receive (sizeT n) with
    | none => s.goto (.ended .waits) ops
    | some (rt, bytes, s) =>
        if rt ≤ 0 then s.refuse ops
        else if buffSize + 1 < rt then s.goto (.ended .undefined) ops
        else
          let s := { s with body := s.body ++ bytes }
          s.goto (.rest (left - rt)) (ops ++ [.append rt bytes.length])
  else
    let ops : List BufferOp := [.resize (s.body.length - 2)]
    if s.body.length < 2 then s.goto (.ended (.escaped .lengthError)) ops
    else
      let s := { s with body := s.body.take (s.body.length - 2) }
      s.goto (s.nextChunk []) ops

/-- One step of `recvResponse`. -/
def next (buffSize : Nat) (s : RecvState) : RecvState :=
  match s.phase with
  | .read chunck data => s.read buffSize chunck data
  | .parse chunck data => s.parse buffSize chunck data
  | .chunk buffer data => s.chunk buffer data
  | .rest left => s.rest buffSize left
  | .ended _ => s

/-- The state of `recvResponse` after `n` steps. -/
def after (buffSize : Nat) (raw : HttpClientParser) (stream : Stream) (n : Nat) : RecvState :=
  (next buffSize)^[n] (start raw stream)

end RecvState

end Lyslg.Http
