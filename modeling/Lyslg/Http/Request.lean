import Lyslg.Support.Machine
import Mathlib.Data.List.TakeWhile
/-!
# HTTP requests

What the request parser fills in: the method, the version, the parts of the target and
the headers, which are a `std::map` ordered by `CaseInsensitiveLess`.
-/

namespace Lyslg.Http

open Support.Machine

/-- A string literal as the bytes of a `char` array. -/
def chars (s : String) : List UInt8 := s.toList.map fun c => UInt8.ofNat c.toNat

/-- `isxdigit` -/
def isXdigit (c : UInt8) : Bool :=
  (48 ≤ c && c ≤ 57) || (65 ≤ c && c ≤ 70) || (97 ≤ c && c ≤ 102)

namespace ListMembers

/-- A property of the members of a list is checked of these, and not of every byte. -/
scoped instance (priority := 2000) decidableMembers {α : Type} (p : α → Prop) [DecidablePred p]
    (xs : List α) : Decidable (∀ x ∈ xs, p x) := List.decidableBAll p xs

end ListMembers

/-- What is checked of every byte holds of all bytes. -/
theorem forall_byte {P : UInt8 → Prop} (h : ∀ n : Fin 256, P (.ofFin n)) (c : UInt8) : P c :=
  h c.toFin

/-! ## Methods -/

inductive HttpMethod where
  | delete | get | head | post | put | connect | options | trace
  | copy | lock | mkcol | move | propfind | proppatch | search | unlock | bind | rebind | unbind
  | acl | report | mkactivity | checkout | merge | msearch | notify | subscribe | unsubscribe
  | patch | purge | mkcalendar | link | unlink | source
  | invalidMethod
  deriving DecidableEq, Repr

/-- `HTTP_METHOD_MAP`. -/
def httpMethodMap : List (HttpMethod × List UInt8) := [
  (.delete, chars "DELETE"), (.get, chars "GET"), (.head, chars "HEAD"), (.post, chars "POST"),
  (.put, chars "PUT"), (.connect, chars "CONNECT"), (.options, chars "OPTIONS"),
  (.trace, chars "TRACE"), (.copy, chars "COPY"), (.lock, chars "LOCK"),
  (.mkcol, chars "MKCOL"), (.move, chars "MOVE"), (.propfind, chars "PROPFIND"),
  (.proppatch, chars "PROPPATCH"), (.search, chars "SEARCH"), (.unlock, chars "UNLOCK"),
  (.bind, chars "BIND"), (.rebind, chars "REBIND"), (.unbind, chars "UNBIND"),
  (.acl, chars "ACL"), (.report, chars "REPORT"), (.mkactivity, chars "MKACTIVITY"),
  (.checkout, chars "CHECKOUT"), (.merge, chars "MERGE"), (.msearch, chars "M-SEARCH"),
  (.notify, chars "NOTIFY"), (.subscribe, chars "SUBSCRIBE"),
  (.unsubscribe, chars "UNSUBSCRIBE"), (.patch, chars "PATCH"), (.purge, chars "PURGE"),
  (.mkcalendar, chars "MKCALENDAR"), (.link, chars "LINK"), (.unlink, chars "UNLINK"),
  (.source, chars "SOURCE")]

/-- `CharsToHttpMethod`: the first name that the characters at `m` begin with. -/
def charsToHttpMethod (m : List UInt8) : HttpMethod :=
  ((httpMethodMap.find? fun entry => entry.2.isPrefixOf m).map Prod.fst).getD .invalidMethod

/-! ## Headers -/

/-- The characters before the first NUL. -/
def cStr (s : List UInt8) : List UInt8 := s.takeWhile (· ≠ 0)

theorem cStr_eq {s : List UInt8} (h : 0 ∉ s) : cStr s = s := by
  refine List.takeWhile_eq_self_iff.mpr fun c hc => ?_
  exact decide_eq_true fun heq => h (heq ▸ hc)

def toLower (c : UInt8) : UInt8 := if 65 ≤ c ∧ c ≤ 90 then c + 32 else c

/-- `strcmp(lhs, rhs) < 0`. -/
def lexLess : List UInt8 → List UInt8 → Bool
  | [], [] => false
  | [], _ :: _ => true
  | _ :: _, [] => false
  | a :: lhs, b :: rhs => a < b || (a == b && lexLess lhs rhs)

/-- `CaseInsensitiveLess`, that is `strcasecmp(lhs, rhs) < 0`. -/
def caseInsensitiveLess (lhs rhs : List UInt8) : Bool :=
  lexLess ((cStr lhs).map toLower) ((cStr rhs).map toLower)

/-- `strcasecmp(lhs, rhs) == 0`. -/
def strcasecmpZero (lhs rhs : List UInt8) : Bool :=
  !caseInsensitiveLess lhs rhs && !caseInsensitiveLess rhs lhs

/-- A `MapType`, in its order. -/
abbrev Headers := List (List UInt8 × List UInt8)

namespace Headers

/-- `m_headers[key] = val`; a key that is there keeps its spelling. -/
def set (m : Headers) (key val : List UInt8) : Headers :=
  match m with
  | [] => [(key, val)]
  | (k, v) :: rest =>
      if caseInsensitiveLess key k then (key, val) :: (k, v) :: rest
      else if caseInsensitiveLess k key then (k, v) :: set rest key val
      else (k, val) :: rest

/-- `m_headers.find(key)`. -/
def find (m : Headers) (key : List UInt8) : Option (List UInt8) :=
  (List.find? (fun entry => !caseInsensitiveLess entry.1 key && !caseInsensitiveLess key entry.1)
    m).map Prod.snd

end Headers

/-! ## Requests -/

/-- `HttpRequest`, as its constructor leaves it; `version` is 0x11 for HTTP/1.1. -/
structure HttpRequest where
  method : HttpMethod := .get
  version : Nat := 0x11
  close : Bool := true
  path : List UInt8 := chars "/"
  query : List UInt8 := []
  fragment : List UInt8 := []
  body : List UInt8 := []
  headers : Headers := []
  deriving DecidableEq, Repr

/-- The value of decimal digits, if there is one and it fits a `uint64_t`. -/
def decimal (digits : List UInt8) : Option Nat :=
  if digits = [] ∨ digits.any fun c => c < 48 || 57 < c then none
  else
    let n := digits.foldl (fun n c => 10 * n + (c.toNat - 48)) 0
    if n < 2 ^ 64 then some n else none

/-- `boost::lexical_cast<uint64_t>`, which wraps a number with a minus sign. -/
def lexicalCastU64 : List UInt8 → Option Nat
  | [] => none
  | c :: s =>
      if c = 43 then decimal s
      else if c = 45 then (decimal s).map fun n => sizeT (-(n : Int))
      else decimal (c :: s)

namespace HttpRequest

def setHeader (r : HttpRequest) (key val : List UInt8) : HttpRequest :=
  { r with headers := r.headers.set key val }

/-- `getHeaderAs<uint64_t>(key, def)`. -/
def getHeaderAsU64 (r : HttpRequest) (key : List UInt8) (dflt : Nat) : Nat :=
  ((r.headers.find key).bind lexicalCastU64).getD dflt

/-- `getHeaderAs<uint64_t>("content-length", 0)`. -/
def contentLength (r : HttpRequest) : Nat := r.getHeaderAsU64 (chars "content-length") 0

/-- `HttpRequest::init`. -/
def init (r : HttpRequest) : HttpRequest :=
  let conn := (r.headers.find (chars "connection")).getD []
  if conn.isEmpty then r
  else
    let keepAlive := chars "keep-alive"
    { r with close := caseInsensitiveLess conn keepAlive || caseInsensitiveLess keepAlive conn }

end HttpRequest

end Lyslg.Http
