import Lyslg.Http.ClientRequest
import Lyslg.Http.ConnectionPool
/-!
# `DoRequest`

The request that the client makes of a URL, the headers of its caller and a body, alone or through
a pool, and what the server gets of it.
-/

namespace Lyslg.Http

open Support Support.Machine Support.Memory
open scoped ListMembers

/-! ## The client -/

/-- The loop over the headers of the caller, with `has_host`. -/
def addHeaders : Headers → HttpRequest → Bool → HttpRequest × Bool
  | [], req, hasHost => (req, hasHost)
  | i :: headers, req, hasHost =>
      if strcasecmpZero i.1 (chars "connection") then
        addHeaders headers
          (if strcasecmpZero i.2 (chars "keep-alive") then { req with close := false } else req)
          hasHost
      else
        addHeaders headers (req.setHeader i.1 i.2)
          (if !hasHost && strcasecmpZero i.1 (chars "host") then !i.2.isEmpty else hasHost)

/-- The request that `HttpConnection::DoRequest` sends. -/
def HttpConnection.doRequest (method : HttpMethod) (uri : Uri) (headers : Headers)
    (body : List UInt8) : HttpRequest :=
  let req : HttpRequest :=
    { method := method, path := uri.getPath, query := uri.getQuery, fragment := uri.getFragment }
  let (req, hasHost) := addHeaders headers req false
  let req := if hasHost then req else req.setHeader (chars "Host") uri.getHost
  { req with body := body }

namespace HttpConnectionPool

/-- The request that `HttpConnectionPool::doRequest` sends for a `url`. -/
def doRequest (host vhost : List UInt8) (method : HttpMethod) (url : List UInt8)
    (headers : Headers) (body : List UInt8) : HttpRequest :=
  let req : HttpRequest := { method := method, path := url, close := false }
  let (req, hasHost) := addHeaders headers req false
  let req := if hasHost then req
    else if vhost = [] then req.setHeader (chars "Host") host
    else req.setHeader (chars "Host") vhost
  { req with body := body }

/-- The `url` that `doGet`, `doPost` and `doRequest` make of a `Uri`. -/
def urlOf (uri : Uri) : List UInt8 :=
  uri.getPath ++ (if uri.getQuery = [] then [] else chars "?") ++ uri.getQuery
    ++ (if uri.getFragment = [] then [] else chars "#") ++ uri.getFragment

end HttpConnectionPool

/-! ## What the caller asks for -/

def isConnection (header : List UInt8 × List UInt8) : Bool :=
  strcasecmpZero header.1 (chars "connection")

/-- The header asks for a connection that stays open. -/
def keepsAlive (header : List UInt8 × List UInt8) : Bool :=
  isConnection header && strcasecmpZero header.2 (chars "keep-alive")

/-- The header names a host. -/
def namesHost (header : List UInt8 × List UInt8) : Bool :=
  !isConnection header && (strcasecmpZero header.1 (chars "host") && !header.2.isEmpty)

/-- The header lines that are asked for, of which the last one of a name counts. -/
def askedLines (close : Bool) (host : List UInt8) (headers : Headers)
    (body : List UInt8) : Headers :=
  (chars "connection", chars (if close then "close" else "keep-alive")) ::
    ((headers.filter fun header => !isConnection header) ++
      (if headers.any namesHost then [] else [(chars "Host", host)])) ++
    if body ≠ [] then [(chars "content-length", dumpNat body.length)] else []

theorem addHeaders_eq (headers : Headers) (req : HttpRequest) (hasHost : Bool) :
    addHeaders headers req hasHost =
      ({ req with
        close := req.close && !headers.any keepsAlive
        headers := (headers.filter fun header => !isConnection header).foldl
          (fun m header => m.set header.1 header.2) req.headers },
        hasHost || headers.any namesHost) := by
  induction headers generalizing req hasHost with
  | nil => simp [addHeaders]
  | cons i headers ih =>
      rw [addHeaders, List.any_cons, List.any_cons, List.filter_cons]
      by_cases hconn : strcasecmpZero i.1 (chars "connection") = true
      · have hnot : isConnection i = true := hconn
        rw [if_pos hconn, ih, namesHost, keepsAlive, hnot]
        cases strcasecmpZero i.2 (chars "keep-alive") <;> simp
      · have hnot : isConnection i = false := Bool.eq_false_iff.mpr hconn
        rw [if_neg hconn, ih, namesHost, keepsAlive, hnot]
        cases hasHost <;> cases strcasecmpZero i.1 (chars "host") <;>
          simp [HttpRequest.setHeader]

/-! ## The header lines -/

/-- The lines in front of the length. -/
def callerLines (host : List UInt8) (headers : Headers) : Headers :=
  (headers.filter fun header => !isConnection header) ++
    if headers.any namesHost then [] else [(chars "Host", host)]

/-- A request whose headers are set one after the other. -/
def HttpRequest.withLines (r : HttpRequest) (lines : Headers) : HttpRequest :=
  { r with headers := lines.foldl (fun m header => m.set header.1 header.2) [] }

/-- A request whose headers are those of a caller. -/
def fromCaller (r : HttpRequest) (host : List UInt8) (headers : Headers) : HttpRequest :=
  r.withLines (callerLines host headers)

theorem HttpConnection.doRequest_eq (method : HttpMethod) (uri : Uri) (headers : Headers)
    (body : List UInt8) :
    HttpConnection.doRequest method uri headers body = fromCaller
      { method := method, path := uri.getPath, query := uri.getQuery, fragment := uri.getFragment
        close := !headers.any keepsAlive, body := body } uri.getHost headers := by
  unfold HttpConnection.doRequest fromCaller HttpRequest.withLines callerLines
  simp only [addHeaders_eq]
  cases headers.any namesHost <;> simp [HttpRequest.setHeader]

theorem HttpConnectionPool.doRequest_eq (host vhost : List UInt8) (method : HttpMethod)
    (url : List UInt8) (headers : Headers) (body : List UInt8) :
    HttpConnectionPool.doRequest host vhost method url headers body = fromCaller
      { method := method, path := url, close := false, body := body }
      (if vhost = [] then host else vhost) headers := by
  unfold HttpConnectionPool.doRequest fromCaller HttpRequest.withLines callerLines
  simp only [addHeaders_eq]
  cases headers.any namesHost <;> by_cases hvhost : vhost = [] <;>
    simp [HttpRequest.setHeader, hvhost]

section

variable {r : HttpRequest} {host key : List UInt8} {headers : Headers}

theorem callerLines_connection (host : List UInt8) (headers : Headers) :
    ∀ header ∈ callerLines host headers, isConnection header = false := by
  have hhost : isConnection (chars "Host", host) = false :=
    (by decide : strcasecmpZero (chars "Host") (chars "connection") = false)
  intro header hheader
  obtain hheader | hheader := List.mem_append.mp hheader
  · simpa using (List.mem_filter.mp hheader).2
  · split at hheader
    · cases hheader
    · rw [List.mem_singleton.mp hheader]
      exact hhost

/-- The header that was set last is the one that is found, from either end of the map. -/
theorem find_withLines (r : HttpRequest) (lines : Headers) (key : List UInt8) :
    Headers.find (r.withLines lines).headers.reverse key = Headers.find lines.reverse key := by
  have hfind (m : Headers) : m.find key = OrderedMap.find caseInsensitiveLess m key := rfl
  have hsorted : OrderedMap.Sorted caseInsensitiveLess (r.withLines lines).headers := by
    unfold HttpRequest.withLines
    rw [Headers.foldl_set_eq_assignAll]
    exact OrderedMap.Sorted.assignAll caseInsensitiveLess_weak List.Pairwise.nil _
  rw [hfind, hsorted.find_reverse caseInsensitiveLess_weak, ← hfind]
  exact Headers.find_fields lines key

/-- Keys and values of the headers come from the lines. -/
theorem forall_withLines (r : HttpRequest) {P Q : List UInt8 → Prop} {lines : Headers}
    (h : ∀ header ∈ lines, P header.1 ∧ Q header.2) :
    ∀ header ∈ (r.withLines lines).headers, P header.1 ∧ Q header.2 := by
  unfold HttpRequest.withLines
  rw [Headers.foldl_set_eq_assignAll]
  exact OrderedMap.forall_mem_assignAll (by simp) h

/-- The text has the lines that are asked for, but for those that others take the place of. -/
theorem find_lines (r : HttpRequest) (host : List UInt8) (headers : Headers) (key : List UInt8) :
    Headers.find ((fromCaller r host headers).lines false).reverse key =
      Headers.find (askedLines r.close host headers r.body).reverse key := by
  have hfind (m : Headers) : m.find key = OrderedMap.find caseInsensitiveLess m key := rfl
  have hplain : (r.withLines (callerLines host headers)).headers.filter
      (fun header => false || !strcasecmpZero header.1 (chars "connection")) =
        (r.withLines (callerLines host headers)).headers := by
    rw [List.filter_eq_self]
    intro header hheader
    have hkeys :=
      forall_withLines r (P := fun key => strcasecmpZero key (chars "connection") = false)
      (Q := fun _ => True)
      (fun entry hentry => ⟨callerLines_connection host headers entry hentry, trivial⟩)
      header hheader
    rw [hkeys.1]
    rfl
  have hlines : (fromCaller r host headers).lines false =
      [(chars "connection", chars (if r.close then "close" else "keep-alive"))] ++
        (r.withLines (callerLines host headers)).headers ++
        if r.body ≠ [] then [(chars "content-length", dumpNat r.body.length)] else [] := by
    unfold HttpRequest.lines fromCaller
    rw [hplain]
    rfl
  have hasked : askedLines r.close host headers r.body =
      [(chars "connection", chars (if r.close then "close" else "keep-alive"))] ++
        callerLines host headers ++
        if r.body ≠ [] then [(chars "content-length", dumpNat r.body.length)] else [] := rfl
  have hmap : OrderedMap.find caseInsensitiveLess
      (r.withLines (callerLines host headers)).headers.reverse key =
        OrderedMap.find caseInsensitiveLess (callerLines host headers).reverse key :=
    find_withLines r (callerLines host headers) key
  rw [hlines, hasked, hfind, hfind]
  simp only [List.reverse_append, OrderedMap.find_append, hmap]

theorem headerLine_length (n : Nat) : HeaderLine (chars "content-length", dumpNat n) := by
  have hname : ∀ c ∈ chars "content-length", isNameChar c := by decide +kernel
  have hvalue (c : UInt8) (hc : c ∈ dumpNat n) := digitChar ((dumpNat_spec n).2.1 c hc)
  refine ⟨hname, fun c hc => (hvalue c hc).header, fun h => ?_, fun h => ?_⟩
  · exact absurd (hvalue 32 (List.mem_of_mem_head? h)).space (by decide)
  · exact absurd (hvalue 9 (List.mem_of_mem_head? h)).space (by decide)

/-- The caller's headers and the host fit lines, and no body is announced that is not there. -/
structure CallerText (host : List UInt8) (headers : Headers) (body : List UInt8) : Prop where
  fits : ∀ header ∈ headers, HeaderLine header ∧ header.1 ≠ []
  hostFits : HeaderLine (chars "Host", host)
  announced : body = [] →
    ∀ header ∈ headers, strcasecmpZero header.1 (chars "content-length") = false

/-- Lines that fit can be sent, with those that `dump` adds. -/
theorem sendable_withLines (hline : r.LineText) {lines : Headers} (websocket : Bool)
    (hfits : ∀ header ∈ lines, HeaderLine header ∧ header.1 ≠ [])
    (hannounced : r.body = [] →
      ∀ header ∈ lines, strcasecmpZero header.1 (chars "content-length") = false) :
    (r.withLines lines).Sendable websocket := by
  have hmap : ∀ header ∈ (r.withLines lines).headers,
      (((∀ c ∈ header.1, isNameChar c) ∧ header.1 ≠ []) ∧
        (r.body = [] → strcasecmpZero header.1 (chars "content-length") = false)) ∧
      ((∀ c ∈ header.2, isValueChar c) ∧ header.2.head? ≠ some 32 ∧ header.2.head? ≠ some 9) := by
    apply forall_withLines r
      (P := fun key => ((∀ c ∈ key, isNameChar c) ∧ key ≠ []) ∧
        (r.body = [] → strcasecmpZero key (chars "content-length") = false))
      (Q := fun val : List UInt8 => (∀ c ∈ val, isValueChar c) ∧ val.head? ≠ some 32 ∧
        val.head? ≠ some 9)
    intro header hheader
    obtain ⟨hfit, hnamed⟩ := hfits header hheader
    exact ⟨⟨⟨hfit.name, hnamed⟩, fun hbody => hannounced hbody header hheader⟩,
      ⟨hfit.value, hfit.start⟩⟩
  have hown : ∀ field ∈ (r.withLines lines).lines websocket, HeaderLine field ∧ field.1 ≠ [] := by
    intro field hfield
    simp only [HttpRequest.lines, List.mem_append] at hfield
    obtain (hadded | hheader) | hlength := hfield
    · split at hadded
      · cases hadded
      · rw [List.mem_singleton.mp hadded]
        refine ⟨?_, (by decide : chars "connection" ≠ [])⟩
        cases (r.withLines lines).close <;>
          exact ⟨by decide +kernel, by decide +kernel, by decide⟩
    · obtain ⟨⟨⟨hletters, hnamed⟩, -⟩, hvalue, hstart⟩ := hmap field (List.mem_filter.mp hheader).1
      exact ⟨⟨hletters, hvalue, hstart⟩, hnamed⟩
    · split at hlength
      · rw [List.mem_singleton.mp hlength]
        exact ⟨headerLine_length _, (by decide : chars "content-length" ≠ [])⟩
      · cases hlength
  exact ⟨⟨hline.method, hline.version, hline.path, hline.query, hline.fragment⟩,
    fun field hfield => (hown field hfield).1, fun field hfield => (hown field hfield).2,
    fun hbody header hheader => (hmap header hheader).1.2 hbody⟩

theorem sendable_fromCaller (hline : r.LineText) (h : CallerText host headers r.body) :
    (fromCaller r host headers).Sendable false := by
  have hname : chars "Host" ≠ [] := by decide
  have hlength : strcasecmpZero (chars "Host") (chars "content-length") = false := by decide
  refine sendable_withLines hline false (fun header hheader => ?_) (fun hbody header hheader => ?_)
  · obtain hheader | hheader := List.mem_append.mp hheader
    · exact h.fits header (List.mem_filter.mp hheader).1
    · split at hheader
      · cases hheader
      · rw [List.mem_singleton.mp hheader]
        exact ⟨h.hostFits, hname⟩
  · obtain hheader | hheader := List.mem_append.mp hheader
    · exact h.announced hbody header (List.mem_filter.mp hheader).1
    · split at hheader
      · cases hheader
      · rw [List.mem_singleton.mp hheader]
        exact hlength

/-- The server agrees with the client on whether the connection stays open. -/
theorem init_received (r : HttpRequest) :
    (r.received false).init = { r.received false with close := r.close } := by
  have hself : strcasecmpZero (chars "connection") (chars "connection") = true := by decide
  have hlength : strcasecmpZero (chars "content-length") (chars "connection") = false := by decide
  have hfind : (r.received false).headers.find (chars "connection") =
      some (chars (if r.close then "close" else "keep-alive")) := by
    rw [HttpRequest.received_find]
    refine Headers.find_eq (List.mem_reverse.mpr ?_) (fun field hfield hequal => ?_) hself
    · simp [HttpRequest.lines]
    · simp only [HttpRequest.lines, Bool.false_eq_true, if_false, Bool.false_or, List.mem_reverse,
        List.mem_append, List.mem_singleton, List.mem_filter] at hfield
      obtain (hfield | ⟨-, hother⟩) | hown := hfield
      · exact hfield
      · rw [hequal] at hother
        cases hother
      · split at hown
        · rw [List.mem_singleton.mp hown, hlength] at hequal
          cases hequal
        · cases hown
  have hclose : caseInsensitiveLess (chars "close") (chars "keep-alive") = true := by decide
  have hkeep : caseInsensitiveLess (chars "keep-alive") (chars "keep-alive") = false := by decide
  have hne : (chars "close").isEmpty = false ∧ (chars "keep-alive").isEmpty = false := by decide
  unfold HttpRequest.init
  rw [hfind]
  cases r.close <;> simp [hne, hclose, hkeep]

/-- What the server has got is what was asked for, but for the body, which it takes and drops. -/
structure Asked (method : HttpMethod) (uri : Uri) (close : Bool) (lines : Headers)
    (got : HttpRequest) : Prop where
  method : got.method = method
  version : got.version = 0x11
  path : got.path = uri.getPath
  query : got.query = uri.getQuery
  fragment : got.fragment = uri.getFragment
  close : got.close = close
  headers : ∀ key, got.headers.find key = Headers.find lines.reverse key
  body : got.body = []

/-- The method and the URL fit the request line. -/
def UriText (method : HttpMethod) (uri : Uri) : Prop :=
  ({ method := method, path := uri.getPath, query := uri.getQuery,
     fragment := uri.getFragment } : HttpRequest).LineText

/-- The request for a URL with the headers of a caller. -/
def uriRequest (method : HttpMethod) (uri : Uri) (close : Bool) (host : List UInt8)
    (headers : Headers) (body : List UInt8) : HttpRequest :=
  fromCaller
    { method := method, path := uri.getPath, query := uri.getQuery, fragment := uri.getFragment,
      close := close, body := body } host headers

/-- The text of a request from a caller fits the buffer, and the next reads bring it. -/
structure Sent (websocket : Bool) (buffSize : Nat) (r : HttpRequest) (s : Stream) : Prop where
  short : (r.head websocket).length < buffSize
  size : (r.dump websocket).length < 2 ^ 31
  arrives : r.Arrives websocket buffSize s

variable {method : HttpMethod} {uri : Uri} {close : Bool} {body : List UInt8} {buffSize : Nat}
  {s : Stream}

theorem recvRequest_uriRequest (huri : UriText method uri) (hcaller : CallerText host headers body)
    (hbuff : buffSize < 2 ^ 31)
    (hsent : Sent false buffSize (uriRequest method uri close host headers body) s)
    (raw : HttpParser) :
    ∃ got, (recvRequest buffSize raw s).1 = .returned (some got) ∧
      Asked method uri close (askedLines close host headers body) got ∧
      (recvRequest buffSize raw s).2.input = s.input ∧
      (recvRequest buffSize raw s).2.taken =
        s.taken + ((uriRequest method uri close host headers body).dump false).length := by
  have hline : ({ method := method, path := uri.getPath, query := uri.getQuery,
                  fragment := uri.getFragment, close := close, body := body } :
        HttpRequest).LineText :=
    ⟨huri.method, huri.version, huri.path, huri.query, huri.fragment⟩
  have hsend : (uriRequest method uri close host headers body).Sendable false :=
    sendable_fromCaller hline hcaller
  obtain ⟨houtcome, hinput, htaken⟩ :=
    HttpRequest.recvRequest_dump hsend hbuff hsent.short hsent.size hsent.arrives raw
  refine ⟨_, houtcome, ?_, hinput, htaken⟩
  rw [init_received]
  exact ⟨rfl, rfl, rfl, rfl, rfl, rfl, fun key =>
    (HttpRequest.received_find _ false key).trans (find_lines _ host headers key), rfl⟩

theorem exists_reading {text : List UInt8} (hpos : 0 < text.length) (hsize : text.length < 2 ^ 31) :
    ∃ s : Stream, window s.input s.taken text.length = text ∧
      s.reads = [.moves text.length hpos hsize] :=
  ⟨{ Stream.ofBytes text 0 with reads := [.moves text.length hpos hsize] },
    (ready_ofBytes text 0).input, rfl⟩

/-- A stream whose next read brings the whole text. -/
theorem exists_sent {r : HttpRequest} {websocket : Bool}
    (hshort : (r.dump websocket).length < buffSize)
    (hsize : (r.dump websocket).length < 2 ^ 31) : ∃ s, Sent websocket buffSize r s := by
  have hlength := congrArg List.length (r.dump_eq_head websocket)
  have hnewline : (chars "\r\n").length = 2 := by decide
  have hhead : 2 ≤ (r.head websocket).length := by
    unfold HttpRequest.head
    rw [List.length_append, hnewline]
    exact Nat.le_add_left _ _
  rw [List.length_append] at hlength
  have hpos : 0 < (r.dump websocket).length := by omega
  obtain ⟨s, hinput, hreads⟩ := exists_reading hpos hsize
  have hroom : min (r.dump websocket).length buffSize = (r.dump websocket).length :=
    Nat.min_eq_left (by omega)
  have hread : (s.reads.head?.map (Event.result buffSize)).getD 0 = (r.dump websocket).length := by
    rw [hreads, List.head?_cons, Option.map_some, Option.getD_some]
    exact congrArg Nat.cast hroom
  refine ⟨s, by omega, hsize, hinput, by omega, hread.le, ?_⟩
  rw [hread, Int.toNat_natCast, Nat.sub_self, hreads]
  rfl

/-- The server gets what `HttpConnection::DoRequest` is asked to send, and the whole text is taken
from the stream. -/
theorem doRequest_received (huri : UriText method uri)
    (hcaller : CallerText uri.getHost headers body)
    (hbuff : buffSize < 2 ^ 31)
    (hsent : Sent false buffSize (HttpConnection.doRequest method uri headers body) s)
    (raw : HttpParser) :
    ∃ got, (recvRequest buffSize raw s).1 = .returned (some got) ∧
      Asked method uri (!headers.any keepsAlive)
        (askedLines (!headers.any keepsAlive) uri.getHost headers body) got ∧
      (recvRequest buffSize raw s).2.input = s.input ∧
      (recvRequest buffSize raw s).2.taken =
        s.taken + ((HttpConnection.doRequest method uri headers body).dump false).length := by
  rw [HttpConnection.doRequest_eq] at hsent ⊢
  exact recvRequest_uriRequest huri hcaller hbuff hsent raw

/-- Two headers of the caller, one of which asks to keep the connection, and a body. -/
theorem doRequest_received_keepAlive :
    let uri : Uri :=
      { host := chars "a", path := chars "/a%20b", query := chars "q=x+y%26z",
        fragment := chars "f" }
    let headers : Headers := [(chars "X-Id", chars "7"), (chars "connection", chars "Keep-Alive")]
    ∃ s got, (recvRequest 4096 (.fresh false) s).1 = .returned (some got) ∧
      Asked .post uri false (askedLines false (chars "a") headers (chars "hi")) got := by
  intro uri headers
  have huri : UriText .post uri :=
    ⟨by decide +kernel, .inr rfl, ⟨chars "a%20b", by decide, by decide, by decide +kernel⟩,
      by decide +kernel, by decide +kernel⟩
  have hname : ∀ header ∈ headers, ∀ c ∈ header.1, isNameChar c := by decide +kernel
  have hvalue : ∀ header ∈ headers, ∀ c ∈ header.2, isValueChar c := by decide +kernel
  have hstart : ∀ header ∈ headers, header.2.head? ≠ some 32 ∧ header.2.head? ≠ some 9 := by decide
  have hnamed : ∀ header ∈ headers, header.1 ≠ [] := by decide
  have hcaller : CallerText uri.getHost headers (chars "hi") :=
    ⟨fun header hmem => ⟨⟨hname header hmem, hvalue header hmem, hstart header hmem⟩,
      hnamed header hmem⟩, ⟨by decide +kernel, by decide +kernel, by decide⟩,
      fun hnil => absurd hnil (by decide)⟩
  have hlength : ((HttpConnection.doRequest .post uri headers (chars "hi")).dump false).length <
      4096 := by decide +kernel
  obtain ⟨s, hsent⟩ :
      ∃ s, Sent false 4096 (HttpConnection.doRequest .post uri headers (chars "hi")) s :=
    exists_sent (by omega) (by omega)
  obtain ⟨got, houtcome, hasked, -⟩ :=
    doRequest_received huri hcaller (by decide) hsent (.fresh false)
  exact ⟨s, got, houtcome, hasked⟩

/-! ## Through the pool -/

/-- The text of the pool's request, which has the whole of the URL in its path, is the one that the
parts of the URL give. -/
theorem pool_head (body : List UInt8) :
    (fromCaller
      { method := method, path := HttpConnectionPool.urlOf uri, close := close, body := body } host
        headers).head false =
      (uriRequest method uri close host headers body).head false := by
  have htarget : dumpTarget (HttpConnectionPool.urlOf uri) [] [] =
      dumpTarget uri.getPath uri.getQuery uri.getFragment := by
    simp [dumpTarget, dumpPathQuery, HttpConnectionPool.urlOf]
  unfold HttpRequest.head HttpRequest.requestLine uriRequest fromCaller HttpRequest.withLines
  simp only [htarget]
  rfl

theorem pool_sent {r t : HttpRequest} (hhead : r.head false = t.head false)
    (hbody : r.body = t.body) :
    r.dump false = t.dump false ∧ (Sent false buffSize r s ↔ Sent false buffSize t s) := by
  have hdump : r.dump false = t.dump false := by
    rw [r.dump_eq_head, t.dump_eq_head, hhead, hbody]
  refine ⟨hdump, fun h => ?_, fun h => ?_⟩
  · obtain ⟨hshort, hsize, hinput, hfirst, hwithin, hlater⟩ := h
    rw [hhead] at hshort hfirst
    rw [hdump] at hsize hinput hwithin hlater
    exact ⟨hshort, hsize, hinput, hfirst, hwithin, hlater⟩
  · obtain ⟨hshort, hsize, hinput, hfirst, hwithin, hlater⟩ := h
    rw [← hhead] at hshort hfirst
    rw [← hdump] at hsize hinput hwithin hlater
    exact ⟨hshort, hsize, hinput, hfirst, hwithin, hlater⟩

/-- Through the pool the server gets the parts of the URL as in a request without a pool, and the
connection stays open whatever the caller's headers say. -/
theorem poolRequest_received {vhost : List UInt8} (huri : UriText method uri)
    (hcaller : CallerText (if vhost = [] then host else vhost) headers body)
    (hbuff : buffSize < 2 ^ 31)
    (hsent : Sent false buffSize
      (HttpConnectionPool.doRequest host vhost method (HttpConnectionPool.urlOf uri) headers
        body) s)
    (raw : HttpParser) :
    ∃ got, (recvRequest buffSize raw s).1 = .returned (some got) ∧
      Asked method uri false
        (askedLines false (if vhost = [] then host else vhost) headers body) got ∧
      (recvRequest buffSize raw s).2.input = s.input ∧
      (recvRequest buffSize raw s).2.taken = s.taken + ((HttpConnectionPool.doRequest host vhost
        method (HttpConnectionPool.urlOf uri) headers body).dump false).length := by
  rw [HttpConnectionPool.doRequest_eq] at hsent ⊢
  obtain ⟨hdump, hiff⟩ := pool_sent (pool_head body) rfl
  rw [hdump]
  exact recvRequest_uriRequest huri hcaller hbuff (hiff.mp hsent) raw

/-- A pool that does not close the connection for a caller who asks for it. -/
theorem poolRequest_received_close :
    let uri : Uri := { path := chars "/b", query := chars "x=1", fragment := chars "f" }
    let headers : Headers := [(chars "connection", chars "close")]
    ∃ s got, (recvRequest 4096 (.fresh false) s).1 = .returned (some got) ∧
      Asked .get uri false (askedLines false (chars "v") headers []) got := by
  intro uri headers
  have huri : UriText .get uri :=
    ⟨by decide +kernel, .inr rfl, ⟨chars "b", by decide, by decide, by decide +kernel⟩,
      by decide +kernel, by decide +kernel⟩
  have hname : ∀ header ∈ headers, ∀ c ∈ header.1, isNameChar c := by decide +kernel
  have hvalue : ∀ header ∈ headers, ∀ c ∈ header.2, isValueChar c := by decide +kernel
  have hstart : ∀ header ∈ headers, header.2.head? ≠ some 32 ∧ header.2.head? ≠ some 9 := by decide
  have hnamed : ∀ header ∈ headers, header.1 ≠ [] := by decide
  have hannounced : ∀ header ∈ headers,
      strcasecmpZero header.1 (chars "content-length") = false := by
    decide
  have hcaller : CallerText (if chars "v" = [] then chars "h" else chars "v") headers [] :=
    ⟨fun header hmem => ⟨⟨hname header hmem, hvalue header hmem, hstart header hmem⟩,
      hnamed header hmem⟩, ⟨by decide +kernel, by decide +kernel, by decide⟩, fun _ => hannounced⟩
  have hlength : ((HttpConnectionPool.doRequest (chars "h") (chars "v") .get
      (HttpConnectionPool.urlOf uri) headers []).dump false).length < 4096 := by
    decide +kernel
  obtain ⟨s, hsent⟩ : ∃ s,
    Sent false 4096 (HttpConnectionPool.doRequest (chars "h") (chars "v") .get
      (HttpConnectionPool.urlOf uri) headers []) s := exists_sent (by omega) (by omega)
  obtain ⟨got, houtcome, hasked, -⟩ :=
    poolRequest_received huri hcaller (by decide) hsent (.fresh false)
  exact ⟨s, got, houtcome, hasked⟩

end

end Lyslg.Http
