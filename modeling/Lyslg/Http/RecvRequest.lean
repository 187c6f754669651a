import Lyslg.Http.RequestParser
import Lyslg.Stream.FixSize
/-!
# `HttpSession::recvRequest`

The call reads into a buffer until the parser has a whole head, and then reads what is
missing of the body.  `body.reserve` makes room for the body, which is taken to be there,
but leaves its size at 0, so the body that is set is empty.
-/

namespace Lyslg.Http

open Support.Machine Support.Memory

/-- How far a call got. -/
inductive Outcome where
  /-- none is `nullptr` -/
  | returned (request : Option HttpRequest)
  /-- left by a `std::length_error` -/
  | lengthError
  /-- waits in `read`, for the body once there is a request -/
  | waits (request : Option HttpRequest)
  | fault (f : Fault)
  deriving DecidableEq

/-- The loop of `recvRequest`, until the head is there: the parser and the bytes behind the
head, or the outcome of the call. -/
abbrev HeadRun := Except Outcome (HttpRequestParser × List UInt8)

/-- `close(); return nullptr;` -/
def refuse (s : Stream) : HeadRun × Stream := (.error (.returned none), { s with closed := true })

/-- The loop, with the read events to come and what the buffer holds before `offset`. -/
def recvHead (buffSize : Nat) :
    List Event → List UInt8 → HttpRequestParser → Stream → HeadRun × Stream
  | [], _, _, s => (.error (.waits none), { s with reads := [] })
  | ev :: events, data, parser, s =>
      let offset := data.length
      let len := ev.result (subSize buffSize offset)
      let bytes := window s.input s.taken len.toNat
      let s := { s with taken := s.taken + len.toNat, reads := events }
      if len ≤ 0 then refuse s
      else
        let data := data ++ bytes
        match parser.execute data with
        | none => (.error .lengthError, s)
        | some (parser, nparse) =>
            if parser.hasError then refuse s
            else
              let data := data.drop nparse
              if (data.length : Int) = int32 buffSize then refuse s
              else if parser.isFinished then (.ok (parser, data), s)
              else recvHead buffSize events data parser s

/-- What follows the loop, for a content length of `length` and with `buffered` behind the
head in the buffer. -/
def recvBody (length : Int) (data : HttpRequest) (buffered : List UInt8) (s : Stream) :
    Outcome × Stream :=
  if 0 < length then
    let offset := buffered.length
    let len := if (offset : Int) ≤ length then offset else length.toNat
    let body := splice (List.replicate length.toNat 0) 0 (buffered.take len)
    let data := { data with body := [] }
    if 0 < length - offset then
      let run := readFixSize s body len (length - offset).toNat
      match run.status with
      | .returned v =>
          if v ≤ 0 then (.returned none, { run.dev.1 with closed := true })
          else (.returned (some data.init), run.dev.1)
      | .blocked => (.waits (some data), run.dev.1)
      | .fault f => (.fault f, run.dev.1)
    else (.returned (some data.init), s)
  else (.returned (some data.init), s)

/-- `HttpSession::recvRequest()`; `raw` is what the memory of its `http_parser` held
before. -/
def recvRequest (buffSize : Nat) (raw : HttpParser) (s : Stream) : Outcome × Stream :=
  match recvHead buffSize s.reads [] (.new raw) s with
  | (.error outcome, s) => (outcome, s)
  | (.ok (parser, data), s) => recvBody (int64 parser.getContentLength) parser.data data s

end Lyslg.Http
