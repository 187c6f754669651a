import Lyslg.Http.KeepAlive
import Mathlib.Data.Nat.Digits.Lemmas
/-!
# `HttpRequest::dump`

The text of a request, and which requests should come back from it when it is parsed.
-/

namespace Lyslg.Http

open Support.Machine

/-- `HttpMethodToString` -/
def httpMethodToString (m : HttpMethod) : List UInt8 :=
  (httpMethodMap.lookup m).getD (chars "<unknown>")

/-- `os << n`, for an unsigned `n`. -/
def dumpNat (n : Nat) : List UInt8 :=
  if n = 0 then [48] else (Nat.digits 10 n).reverse.map fun d => UInt8.ofNat (48 + d)

/-- `os << i.first << ": " << i.second << "\r\n"` -/
def dumpHeader (header : List UInt8 × List UInt8) : List UInt8 :=
  header.1 ++ chars ": " ++ header.2 ++ chars "\r\n"

/-- `HttpRequest::dump`; the constructor does not set `m_websocket`. -/
def HttpRequest.dump (r : HttpRequest) (websocket : Bool) : List UInt8 :=
  httpMethodToString r.method ++ chars " " ++ r.path
    ++ (if r.query = [] then [] else chars "?") ++ r.query
    ++ (if r.fragment = [] then [] else chars "#") ++ r.fragment
    ++ chars " HTTP/" ++ dumpNat (r.version >>> 4) ++ chars "." ++ dumpNat (r.version &&& 0x0f)
    ++ chars "\r\n"
    ++ (if websocket then []
      else chars "connection: " ++
        chars (if r.close then "close" else "keep-alive") ++ chars "\r\n")
    ++ (r.headers.flatMap fun header =>
      if !websocket && strcasecmpZero header.1 (chars "connection") then [] else dumpHeader header)
    ++ (if r.body ≠ [] then
        chars "content-length: " ++ dumpNat r.body.length ++ chars "\r\n\r\n" ++ r.body
      else chars "\r\n")

/-- `HttpRequestParser::execute` with the assertion of `http_parser_execute` that compares the
length with itself as an `int`; none is an exit by an assertion or an exception. -/
def HttpRequestParser.checkedExecute (self : HttpRequestParser) (data : List UInt8) :
    Option (HttpRequestParser × Nat) :=
  if (data.length : Int) = int32 data.length then self.execute data else none

/-! ## Which requests should come back -/

def isAlnum (c : UInt8) : Bool :=
  (48 ≤ c && c ≤ 57) || (65 ≤ c && c ≤ 90) || (97 ≤ c && c ≤ 122)

/-- The unreserved characters of a URI. -/
def isUnreserved (c : UInt8) : Bool := isAlnum c || c = 45 || c = 46 || c = 95 || c = 126

/-- `=` and `&` besides. -/
def isParam (c : UInt8) : Bool := isUnreserved c || c = 61 || c = 38

def isNameChar (c : UInt8) : Bool := isAlnum c || c = 45

def isValueChar (c : UInt8) : Bool := c ≠ 0 && c ≠ 10 && c ≠ 13 && c ≠ 127

/-- `/`, or segments behind one `/` each, the first of them not empty. -/
def PathText (path : List UInt8) : Prop :=
  ∃ rest, path = 47 :: rest ∧ rest.head? ≠ some 47 ∧ ∀ c ∈ rest, isUnreserved c ∨ c = 47

/-- A header that fits a line. -/
structure HeaderLine (header : List UInt8 × List UInt8) : Prop where
  name : ∀ c ∈ header.1, isNameChar c
  value : ∀ c ∈ header.2, isValueChar c
  start : header.2.head? ≠ some 32 ∧ header.2.head? ≠ some 9

/-- A header that `dump` does not write by itself. -/
structure HeaderText (header : List UInt8 × List UInt8) : Prop extends HeaderLine header where
  connection : strcasecmpZero header.1 (chars "connection") = false
  contentLength : strcasecmpZero header.1 (chars "content-length") = false

structure HttpRequest.Textual (r : HttpRequest) : Prop where
  method : ∀ c ∈ httpMethodToString r.method, 65 ≤ c ∧ c ≤ 90
  version : r.version = 0x10 ∨ r.version = 0x11
  path : PathText r.path
  query : ∀ c ∈ r.query, isParam c
  fragment : ∀ c ∈ r.fragment, isParam c
  headers : ∀ header ∈ r.headers, HeaderText header
  /-- the keys of a map are different -/
  map : r.headers.Pairwise fun a b => strcasecmpZero a.1 b.1 = false

/-- The header lines of the text. -/
def HttpRequest.fields (r : HttpRequest) : List (List UInt8 × List UInt8) :=
  (chars "connection", chars (if r.close then "close" else "keep-alive")) ::
    (r.headers ++ if r.body ≠ [] then [(chars "content-length", dumpNat r.body.length)] else [])

/-- `parsed` is the request, with the headers that `dump` adds. -/
structure HttpRequest.Recovered (r parsed : HttpRequest) : Prop where
  method : parsed.method = r.method
  version : parsed.version = r.version
  path : parsed.path = r.path
  query : parsed.query = r.query
  fragment : parsed.fragment = r.fragment
  headers : ∀ header, header ∈ parsed.headers ↔ header ∈ r.fields
  contentLength : parsed.contentLength = r.body.length

/-- A parser that is fed the text finishes the request and leaves the body; `raw` is what the
memory of its `http_parser` held before. -/
def HttpRequest.RoundTrips (r : HttpRequest) (raw : HttpParser) : Prop :=
  ∃ parser nparse,
    (HttpRequestParser.new raw).checkedExecute (r.dump false) = some (parser, nparse) ∧
      parser.isFinished = true ∧ parser.hasError = false ∧
      (r.dump false).drop nparse = r.body ∧ r.Recovered parser.data

end Lyslg.Http
