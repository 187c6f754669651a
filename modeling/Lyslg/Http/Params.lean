import Lyslg.Http.Request
import Lyslg.Support.OrderedMap
import Lyslg.Util.StdString
import Lyslg.Util.UrlReference
import Mathlib.Data.List.TakeWhile
/-!
# Parameters and cookies of a request

`PARSE_PARAM` goes over a text with one position: it looks for the next `=` first, and for the
separator from there on.  The maps of a request are ordered by `CaseInsensitiveLess`.
-/

namespace Lyslg.Http

open StdString StringUtil Support Support.Machine

namespace Headers

/-- `m.insert(std::make_pair(key, val))` -/
def insert (m : Headers) (key val : List UInt8) : Headers :=
  OrderedMap.insert caseInsensitiveLess m key val

end Headers

/-- `strcasestr(haystack, needle) != nullptr` -/
def strcasestrFound (haystack needle : List UInt8) : Bool :=
  ((cStr haystack).map toLower).tails.any fun rest => ((cStr needle).map toLower).isPrefixOf rest

/-- The members of an `HttpRequest` that `initParam` fills in, with those that it reads. -/
structure ParamRequest extends HttpRequest where
  params : Headers := []
  cookies : Headers := []
  parserParamFlag : Nat := 0
  deriving DecidableEq, Repr

/-- The loop of `PARSE_PARAM(str, m, flag, trim)` from position `last` on; none is an exit by an
exception, or by a read past the end. -/
def parseParamLoop (str : List UInt8) (flag : UInt8) (trim : List UInt8 → Option (List UInt8))
    (last : Nat) (m : Headers) : Option Headers :=
  let key := find str 61 last
  if hkey : key = npos then some m
  else
    let pos := find str flag key
    do
      let name ← trim (← substr str last (subSize key last))
      let value ← urlDecode (← substr str (key + 1) (subSize (subSize pos key) 1)) true
      if hpos : pos = npos then return m.insert name value
      else parseParamLoop str flag trim (pos + 1) (m.insert name value)
termination_by str.length - last
decreasing_by
  have hkeyBounds := find_bounds hkey
  have hposBounds := find_bounds hpos
  simp +zetaDelta only at hkeyBounds hposBounds ⊢
  omega

def parseParam (str : List UInt8) (m : Headers) (flag : UInt8)
    (trim : List UInt8 → Option (List UInt8)) : Option Headers :=
  parseParamLoop str flag trim 0 m

namespace ParamRequest

def getHeader (r : ParamRequest) (key dflt : List UInt8) : List UInt8 :=
  (r.headers.find key).getD dflt

def getParam (r : ParamRequest) (key dflt : List UInt8) : List UInt8 :=
  (r.params.find key).getD dflt

def initQueryParam (r : ParamRequest) : Option ParamRequest :=
  if r.parserParamFlag &&& 0x1 ≠ 0 then some r
  else do
    let params ← parseParam r.query r.params 38 some
    return { r with params := params, parserParamFlag := r.parserParamFlag ||| 0x1 }

def initBodyParam (r : ParamRequest) : Option ParamRequest :=
  if r.parserParamFlag &&& 0x2 ≠ 0 then some r
  else if !strcasestrFound (r.getHeader (chars "content-type") [])
      (chars "application/x-www-form-urlencoded") then
    some { r with parserParamFlag := r.parserParamFlag ||| 0x2 }
  else do
    let params ← parseParam r.body r.params 38 some
    return { r with params := params, parserParamFlag := r.parserParamFlag ||| 0x2 }

def initCookies (r : ParamRequest) : Option ParamRequest :=
  if r.parserParamFlag &&& 0x4 ≠ 0 then some r
  else
    let cookie := r.getHeader (chars "cookie") []
    if cookie.isEmpty then some { r with parserParamFlag := r.parserParamFlag ||| 0x4 }
    else do
      let cookies ← parseParam cookie r.cookies 59 fun str => trim str (chars " \t\r\n")
      return { r with cookies := cookies, parserParamFlag := r.parserParamFlag ||| 0x4 }

end ParamRequest

/-! ## The reference splitting -/

/-- The key of a segment is in front of its first `=`, the value behind. -/
def splitEntry (trim : List UInt8 → List UInt8) (segment : List UInt8) : List UInt8 × List UInt8 :=
  (trim (segment.takeWhile (· ≠ 61)), decoded true (segment.dropWhile (· ≠ 61)).tail)

/-- The entries of the segments that have an `=`. -/
def referenceEntries (sep : UInt8) (trim : List UInt8 → List UInt8) (q : List UInt8) :
    List (List UInt8 × List UInt8) :=
  ((q.splitOn sep).filter (61 ∈ ·)).map (splitEntry trim)

/-- The first of several keys that are equal ignoring case wins. -/
def referenceParams (sep : UInt8) (trim : List UInt8 → List UInt8) (q : List UInt8) : Headers :=
  OrderedMap.insertAll caseInsensitiveLess [] (referenceEntries sep trim q)

/-- No segment without `=` is in front of one with `=`. -/
def KeysAlone (sep : UInt8) (q : List UInt8) : Prop :=
  (q.splitOn sep).Pairwise fun a b => 61 ∈ b → 61 ∈ a

instance (sep : UInt8) (q : List UInt8) : Decidable (KeysAlone sep q) :=
  inferInstanceAs (Decidable (List.Pairwise _ _))

end Lyslg.Http
