import Lyslg.Http.HttpClientTable
import Lyslg.Http.RequestParser
import Lyslg.Support.Scanner
/-!
# The response parser

`httpclient_parser_execute` runs the machine over one buffer, which ends in a NUL.  Its
callbacks do not touch the `httpclient_parser`, so a run is a list of calls, as it is for the
request parser; those of chunks do nothing and are left out.

The assertion about `body_start` is part of the model: a head may end the machine more than
once, and then `body_start` is a position in an earlier buffer.
-/

namespace Lyslg.Http

open HttpClient Support Support.Machine

/-! ## Numbers -/

/-- `isspace` -/
def isSpace (c : UInt8) : Bool := c = 32 || (9 ≤ c && c ≤ 13)

/-- The value of a hexadecimal digit. -/
def digitValue (c : UInt8) : Nat :=
  if c ≤ 57 then c.toNat - 48 else if c ≤ 70 then c.toNat - 55 else c.toNat - 87

def isDigit (base : Nat) (c : UInt8) : Bool := isXdigit c && digitValue c < base

/-- The value of the digits that `s` begins with. -/
def leadingValue (base : Nat) (s : List UInt8) : Nat :=
  (s.takeWhile (isDigit base)).foldl (fun n c => base * n + digitValue c) 0

/-- `s` without the `0x` that base 16 allows before a digit. -/
def skipPrefix (base : Nat) (s : List UInt8) : List UInt8 :=
  match s with
  | 48 :: x :: c :: rest =>
      if base = 16 ∧ (x = 120 ∨ x = 88) ∧ isDigit base c then c :: rest else s
  | _ => s

/-- `strtol(s, NULL, base)`, which stops at the bounds of `long`. -/
def strtol (s : List UInt8) (base : Nat) : Int :=
  match s.dropWhile isSpace with
  | 45 :: s => max (-(leadingValue base (skipPrefix base s) : Int)) (-2 ^ 63)
  | 43 :: s => min (leadingValue base (skipPrefix base s) : Int) (2 ^ 63 - 1)
  | s => min (leadingValue base (skipPrefix base s) : Int) (2 ^ 63 - 1)

/-- `atoi` -/
def atoi (s : List UInt8) : Int := int32 (strtol s 10)

/-! ## `httpclient_parser` -/

structure HttpClientParser where
  cs : Nat
  bodyStart : Nat
  contentLen : Int
  status : Int
  chunked : Bool
  chunksDone : Bool
  close : Bool
  mark : Nat
  fieldStart : Nat
  fieldLen : Nat
  deriving DecidableEq, Repr

/-- A callback, with positions in the buffer for its pointers. -/
inductive ResponseCall where
  | reasonPhrase (pos len : Nat)
  | statusCode (pos len : Nat)
  | httpVersion (pos len : Nat)
  | httpField (field flen value vlen : Nat)
  deriving DecidableEq, Repr

namespace HttpClientParser

/-- `httpclient_parser_init`, which leaves `status` as it is. -/
def init (parser : HttpClientParser) : HttpClientParser :=
  { parser with
    cs := 1, bodyStart := 0, contentLen := -1, chunked := false, chunksDone := false
    close := false, mark := 0, fieldStart := 0, fieldLen := 0 }

/-- The machine before a head. -/
def fresh : HttpClientParser := init ⟨0, 0, 0, 0, false, false, false, 0, 0, 0⟩

/-- An action at position `p` of the buffer. -/
def act (buffer : List UInt8) (p : Nat) (parser : HttpClientParser) :
    HttpClient.Action → HttpClientParser × List ResponseCall
  | .mark | .startValue => ({ parser with mark := p }, [])
  | .startField => ({ parser with fieldStart := p }, [])
  | .writeField => ({ parser with fieldLen := HttpParser.len parser.fieldStart p }, [])
  | .writeContentLen =>
      ({ parser with contentLen := int32 (strtol (buffer.drop parser.mark) 10) }, [])
  | .writeConnectionClose => ({ parser with close := true }, [])
  | .writeValue => (parser, [.httpField parser.fieldStart parser.fieldLen parser.mark
      (HttpParser.len parser.mark p)])
  | .reasonPhrase => (parser, [.reasonPhrase parser.mark (HttpParser.len parser.mark p)])
  | .statusCode =>
      ({ parser with status := int32 (strtol (buffer.drop parser.mark) 10) },
        [.statusCode parser.mark (HttpParser.len parser.mark p)])
  | .httpVersion => (parser, [.httpVersion parser.mark (HttpParser.len parser.mark p)])
  | .chunkSize =>
      let contentLen := int32 (strtol (buffer.drop parser.mark) 16)
      ({ parser with chunked := true, contentLen := contentLen, chunksDone := contentLen ≤ 0 }, [])
  | .transChunked => ({ parser with chunked := true }, [])
  | .done => ({ parser with bodyStart := p + 1 }, [])

def actAll (buffer : List UInt8) (p : Nat) (parser : HttpClientParser) :
    List HttpClient.Action → HttpClientParser × List ResponseCall
  | [] => (parser, [])
  | a :: actions =>
      let step := parser.act buffer p a
      let rest := actAll buffer p step.1 actions
      (rest.1, step.2 ++ rest.2)

/-- The machine over a buffer. -/
def scanner (buffer : List UInt8) :
    Scanner UInt8 HttpClientParser HttpClient.Transition ResponseCall where
  next parser c := HttpClient.next parser.cs c
  follow p parser t := { parser with cs := t.target }.actAll buffer p t.actions
  ends t := .done ∈ t.actions
  fail parser := { parser with cs := 0 }

/-- `httpclient_parser_execute(parser, buffer, len, 0)`, with its result as a `size_t`: it is
-1 when a mark is not in the buffer, and there is none when an assertion fails.  The assertion
on the length as an `int` is left to `HttpResponseParser.checkedExecute`. -/
def execute (parser : HttpClientParser) (buffer : List UInt8) :
    HttpClientParser × Option Nat × List ResponseCall :=
  let run :=
    (scanner buffer).exec { parser with mark := 0, fieldLen := 0, fieldStart := 0 } 0 buffer
  let inBuffer : Bool := run.1.mark < buffer.length && run.1.fieldLen ≤ buffer.length &&
    run.1.fieldStart < buffer.length
  let nread := if inBuffer then run.2.1 else sizeT (-1)
  (run.1, if run.1.bodyStart ≤ buffer.length then some nread else none, run.2.2)

/-- `httpclient_parser_has_error` -/
def hasError (parser : HttpClientParser) : Bool := parser.cs = 0

/-- `httpclient_parser_is_finished`, which only knows one of the final states. -/
def isFinished (parser : HttpClientParser) : Bool := parser.cs = 120

end HttpClientParser

/-! ## `HttpResponseParser` -/

/-- `HttpResponse`, as its constructor leaves it. -/
structure HttpResponse where
  status : Int := 200
  version : Nat := 0x11
  close : Bool := true
  body : List UInt8 := []
  reason : List UInt8 := []
  headers : Headers := []
  deriving DecidableEq, Repr

/-- What keeps a call from returning. -/
inductive Escape where
  /-- a `std::length_error` -/
  | lengthError
  /-- a failed assertion, which ends the process -/
  | assertion
  deriving DecidableEq, Repr

structure HttpResponseParser where
  parser : HttpClientParser
  data : HttpResponse
  error : Int
  deriving DecidableEq, Repr

namespace HttpResponseParser

/-- The constructor; `raw` is what the memory of the `httpclient_parser` held before. -/
def new (raw : HttpClientParser) : HttpResponseParser :=
  { parser := raw.init, data := {}, error := 0 }

def setError (self : HttpResponseParser) (v : Int) : HttpResponseParser := { self with error := v }

/-- A callback on `buffer`; none is a `std::length_error`. -/
def callback (buffer : List UInt8) (self : HttpResponseParser) :
    ResponseCall → Option HttpResponseParser
  | .reasonPhrase pos len => do
      let reason ← stdString buffer pos len
      return { self with data := { self.data with reason := reason } }
  | .statusCode pos _ =>
      some { self with data := { self.data with status := atoi (buffer.drop pos) } }
  | .httpVersion pos len =>
      match charsToVersion (buffer.drop pos) len with
      | none => some (self.setError 1001)
      | some v => some { self with data := { self.data with version := v } }
  | .httpField field flen value vlen =>
      if flen = 0 then some self
      else do
        let key ← stdString buffer field flen
        let val ← stdString buffer value vlen
        return { self with data := { self.data with headers := self.data.headers.set key val } }

/-- `HttpResponseParser::execute(data, len, chunck)`, before it moves what is left of the
buffer to its front. -/
def execute (self : HttpResponseParser) (data : List UInt8) (chunck : Bool) :
    Except Escape (HttpResponseParser × Nat) :=
  let parser := if chunck then self.parser.init else self.parser
  let run := parser.execute data
  match run.2.2.foldlM (callback data) { self with parser := run.1 } with
  | none => .error .lengthError
  | some self =>
      match run.2.1 with
      | none => .error .assertion
      | some nparse => .ok (self, nparse)

/-- `execute` with the assertion of `httpclient_parser_execute` that compares the length with
itself as an `int`. -/
def checkedExecute (self : HttpResponseParser) (data : List UInt8) (chunck : Bool) :
    Except Escape (HttpResponseParser × Nat) :=
  if (data.length : Int) = int32 data.length then self.execute data chunck else .error .assertion

def hasError (self : HttpResponseParser) : Bool := self.error ≠ 0 || self.parser.hasError

/-- `isFinished()`, of a parser without an error. -/
def isFinished (self : HttpResponseParser) : Bool := self.parser.isFinished

/-- `getHeaderAs<uint64_t>("content-length", 0)`. -/
def getContentLength (self : HttpResponseParser) : Nat :=
  ((self.data.headers.find (chars "content-length")).bind lexicalCastU64).getD 0

end HttpResponseParser

end Lyslg.Http
