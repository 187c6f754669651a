import Lyslg.Http.Http11Table
import Lyslg.Http.Request
/-!
# The request parser

`http_parser_execute` runs the machine over one buffer and calls back with positions in
that buffer; `HttpRequestParser` turns the callbacks into an `HttpRequest`.  The callbacks
leave the `http_parser` alone, so its run is a list of calls.

`nread`, `body_start` and `content_len` are left out, as only assertions that always hold
read them, and so is `header_done`, whose callback does nothing.
-/

namespace Lyslg.Http

open Http11 Support.Machine

/-! ## `http_parser` -/

structure HttpParser where
  cs : Nat
  mark : Nat
  fieldStart : Nat
  fieldLen : Nat
  queryStart : Nat
  uriRelaxed : Bool
  deriving DecidableEq, Repr

/-- The callbacks that take one piece of the request line. -/
inductive Element where
  | requestMethod | requestUri | fragment | requestPath | queryString | httpVersion
  deriving DecidableEq, Repr

/-- A callback, with positions in the buffer for its pointers. -/
inductive Call where
  | element (cb : Element) (pos len : Nat)
  | httpField (field flen value vlen : Nat)
  deriving DecidableEq, Repr

namespace HttpParser

/-- `http_parser_init`, which leaves `query_start` and `uri_relaxed` as they are. -/
def init (parser : HttpParser) : HttpParser :=
  { parser with cs := 1, mark := 0, fieldStart := 0, fieldLen := 0 }

/-- `LEN(AT, FPC)`, for the value of the mark `AT`. -/
def len (mark fpc : Nat) : Nat := subSize fpc mark

/-- An action at position `p`. -/
def act (p : Nat) (parser : HttpParser) : Action → HttpParser × List Call
  | .mark | .startValue => ({ parser with mark := p }, [])
  | .startField => ({ parser with fieldStart := p }, [])
  | .writeField => ({ parser with fieldLen := len parser.fieldStart p }, [])
  | .writeValue => (parser, [.httpField parser.fieldStart parser.fieldLen parser.mark
      (len parser.mark p)])
  | .requestMethod => (parser, [.element .requestMethod parser.mark (len parser.mark p)])
  | .requestUri => (parser, [.element .requestUri parser.mark (len parser.mark p)])
  | .fragment => (parser, [.element .fragment parser.mark (len parser.mark p)])
  | .startQuery => ({ parser with queryStart := p }, [])
  | .queryString =>
      (parser, [.element .queryString parser.queryStart (len parser.queryStart p)])
  | .httpVersion => (parser, [.element .httpVersion parser.mark (len parser.mark p)])
  | .requestPath => (parser, [.element .requestPath parser.mark (len parser.mark p)])
  | .xml | .json | .done => (parser, [])

def actAll (p : Nat) (parser : HttpParser) : List Action → HttpParser × List Call
  | [] => (parser, [])
  | a :: actions =>
      let step := parser.act p a
      let rest := actAll p step.1 actions
      (rest.1, step.2 ++ rest.2)

/-- A transition at position `p`. -/
def follow (p : Nat) (parser : HttpParser) (t : Transition) : HttpParser × List Call :=
  { parser with cs := t.target }.actAll p t.actions

/-- The machine from position `p` on: where it stops, and the callbacks on the way. -/
def exec (parser : HttpParser) (p : Nat) : List UInt8 → HttpParser × Nat × List Call
  | [] => (parser, p, [])
  | c :: bytes =>
      match next parser.uriRelaxed parser.cs c with
      | none => ({ parser with cs := 0 }, p, [])
      | some t =>
          let step := parser.follow p t
          -- `fbreak` moves on before it leaves
          if .done ∈ t.actions then (step.1, p + 1, step.2)
          else
            let rest := exec step.1 (p + 1) bytes
            (rest.1, rest.2.1, step.2 ++ rest.2.2)

/-- `http_parser_execute(parser, buffer, len, 0)`, with `nread` for its result. -/
def execute (parser : HttpParser) (buffer : List UInt8) : HttpParser × Nat × List Call :=
  if buffer.length = 0 then (parser, 0, [])
  else { parser with mark := 0, fieldLen := 0, fieldStart := 0 }.exec 0 buffer

/-- `http_parser_has_error` -/
def hasError (parser : HttpParser) : Bool := parser.cs = 0

/-- `http_parser_is_finished` -/
def isFinished (parser : HttpParser) : Bool := 348 ≤ parser.cs

end HttpParser

/-! ## `HttpRequestParser` -/

structure HttpRequestParser where
  parser : HttpParser
  data : HttpRequest
  error : Int
  deriving DecidableEq, Repr

/-- `std::string(buffer + pos, len)`, which throws when `len` is over `max_size()`. -/
def stdString (buffer : List UInt8) (pos len : Nat) : Option (List UInt8) :=
  if len < 2 ^ 63 then some ((buffer.drop pos).take len) else none

/-- `strncmp(s, t, len) == 0`, for a literal `t`. -/
def strncmpZero (s t : List UInt8) (len : Nat) : Bool := cStr (s.take len) = t.take len

/-- The version that `on_request_version` finds in the `length` characters at `s`. -/
def charsToVersion (s : List UInt8) (length : Nat) : Option Nat :=
  if strncmpZero s (chars "HTTP/1.1") length then some 0x11
  else if strncmpZero s (chars "HTTP/1.0") length then some 0x10
  else none

namespace HttpRequestParser

/-- The constructor; `raw` is what the memory of the `http_parser` held before. -/
def new (raw : HttpParser) : HttpRequestParser :=
  { parser := raw.init, data := {}, error := 0 }

def setError (self : HttpRequestParser) (v : Int) : HttpRequestParser := { self with error := v }

/-- `on_request_method` -/
def onRequestMethod (self : HttpRequestParser) (at' : List UInt8) : HttpRequestParser :=
  match charsToHttpMethod at' with
  | .invalidMethod => self.setError 1000
  | m => { self with data := { self.data with method := m } }

/-- `on_request_version` -/
def onRequestVersion (self : HttpRequestParser) (at' : List UInt8) (length : Nat) :
    HttpRequestParser :=
  match charsToVersion at' length with
  | none => self.setError 1001
  | some v => { self with data := { self.data with version := v } }

/-- A callback on `buffer`; none is a `std::length_error`. -/
def callback (buffer : List UInt8) (self : HttpRequestParser) : Call → Option HttpRequestParser
  | .element .requestMethod pos _ => some (self.onRequestMethod (buffer.drop pos))
  | .element .requestUri _ _ => some self
  | .element .fragment pos len => do
      let fragment ← stdString buffer pos len
      return { self with data := { self.data with fragment := fragment } }
  | .element .requestPath pos len => do
      let path ← stdString buffer pos len
      return { self with data := { self.data with path := path } }
  | .element .queryString pos len => do
      let query ← stdString buffer pos len
      return { self with data := { self.data with query := query } }
  | .element .httpVersion pos len => some (self.onRequestVersion (buffer.drop pos) len)
  | .httpField field flen value vlen =>
      if flen = 0 then some self
      else do
        let key ← stdString buffer field flen
        let val ← stdString buffer value vlen
        return { self with data := self.data.setHeader key val }

/-- `HttpRequestParser::execute(data, len)`: the parser after it, and how many bytes it
took. -/
def execute (self : HttpRequestParser) (data : List UInt8) : Option (HttpRequestParser × Nat) :=
  do
    let run := self.parser.execute data
    let self ← run.2.2.foldlM (callback data) { self with parser := run.1 }
    return (self, run.2.1)

def hasError (self : HttpRequestParser) : Bool := self.error ≠ 0 || self.parser.hasError

/-- `isFinished()`, of a parser without an error. -/
def isFinished (self : HttpRequestParser) : Bool := self.parser.isFinished

def getContentLength (self : HttpRequestParser) : Nat := self.data.contentLength

end HttpRequestParser

end Lyslg.Http
