import Lyslg.Http.DoRequest
import Lyslg.Http.Exchanges
import Lyslg.Http.WSServer
import Lyslg.Util.Base64RoundTrip
/-!
# The handshake of a WebSocket

What `WSConnection::Create` asks for, what `handleShake` makes of it and answers, and what the
client makes of the answer.  The client looks at the status only.
-/

namespace Lyslg.Http

open Support Support.Machine Support.Memory Base64
open scoped ListMembers

/-! ## The two sides -/

namespace WSConnection

/-- The loop over the headers of the caller, with `has_host` and `has_conn`. -/
def addHeaders : Headers → HttpRequest → Bool → Bool → HttpRequest × Bool × Bool
  | [], req, hasHost, hasConn => (req, hasHost, hasConn)
  | i :: headers, req, hasHost, hasConn =>
      if strcasecmpZero i.1 (chars "connection") then
        addHeaders headers (req.setHeader i.1 i.2) hasHost true
      else
        addHeaders headers (req.setHeader i.1 i.2)
          (if !hasHost && strcasecmpZero i.1 (chars "host") then !i.2.isEmpty else hasHost) hasConn

/-- The request that `WSConnection::Create` sends; `random` is `random_string(16)`. -/
def request (uri : Uri) (headers : Headers) (random : List UInt8) : HttpRequest :=
  let req : HttpRequest :=
    { method := .get, path := uri.getPath, query := uri.getQuery, fragment := uri.getFragment }
  let (req, hasHost, hasConn) := addHeaders headers req false false
  let req := if hasConn then req else req.setHeader (chars "connection") (chars "Upgrade")
  let req := req.setHeader (chars "Upgrade") (chars "websocket")
  let req := req.setHeader (chars "Sec-webSocket-Version") (chars "13")
  let req := req.setHeader (chars "Sec-webSocket-Key") (base64encode random)
  if hasHost then req else req.setHeader (chars "Host") uri.getHost

end WSConnection

/-- What `handleShake` makes of the key, with the `sha1sum` of the crypto library. -/
def acceptValue (sha1sum : List UInt8 → List UInt8) (key : List UInt8) : List UInt8 :=
  base64encode (sha1sum (key ++ chars "258EAFA5-E914-47DA-95CA-C5AB0DC85B11"))

/-- The response that `handleShake` sends when it accepts `req`. -/
def shakeResponse (sha1sum : List UInt8 → List UInt8) (req : HttpRequest) : ResponseMessage :=
  { version := req.version, close := req.close, status := 101
    reason := chars "Web Socket Protocol Handshake"
    headers := (((Headers.set [] (chars "Upgrade") (chars "websocket")).set (chars "Connection")
      (chars "Upgrade"))).set (chars "Sec-WebSocket-Accept")
        (acceptValue sha1sum (req.getHeader (chars "Sec-WebSocket-Key"))) }

/-! ## The request -/

namespace WSConnection

/-- The headers in the order they are set. -/
def shakeLines (host : List UInt8) (headers : Headers) (random : List UInt8) : Headers :=
  headers ++ (if headers.any isConnection then [] else [(chars "connection", chars "Upgrade")]) ++
    [(chars "Upgrade", chars "websocket"), (chars "Sec-webSocket-Version", chars "13"),
      (chars "Sec-webSocket-Key", base64encode random)] ++
    if headers.any namesHost then [] else [(chars "Host", host)]

theorem addHeaders_eq (headers : Headers) (req : HttpRequest) (hasHost hasConn : Bool) :
    addHeaders headers req hasHost hasConn =
      ({ req with headers := headers.foldl (fun m header => m.set header.1 header.2) req.headers },
        hasHost || headers.any namesHost, hasConn || headers.any isConnection) := by
  induction headers generalizing req hasHost hasConn with
  | nil => simp [addHeaders]
  | cons i headers ih =>
      rw [addHeaders, List.any_cons, List.any_cons]
      by_cases hconn : strcasecmpZero i.1 (chars "connection") = true
      · have hnot : isConnection i = true := hconn
        rw [if_pos hconn, ih, namesHost, hnot]
        simp [HttpRequest.setHeader]
      · have hnot : isConnection i = false := Bool.eq_false_iff.mpr hconn
        rw [if_neg hconn, ih, namesHost, hnot]
        cases hasHost <;> cases strcasecmpZero i.1 (chars "host") <;>
          simp [HttpRequest.setHeader]

theorem request_eq (uri : Uri) (headers : Headers) (random : List UInt8) :
    request uri headers random = HttpRequest.withLines
      { method := .get, path := uri.getPath, query := uri.getQuery, fragment := uri.getFragment }
      (shakeLines uri.getHost headers random) := by
  unfold request HttpRequest.withLines shakeLines
  simp only [addHeaders_eq]
  cases headers.any namesHost <;> cases headers.any isConnection <;>
    simp [HttpRequest.setHeader]

/-- The connection header of the caller, of several the last one. -/
def askedConnection (headers : Headers) : List UInt8 :=
  (Headers.find headers.reverse (chars "Connection")).getD (chars "Upgrade")

/-- The headers of the caller and the host fit lines, and no body is announced. -/
structure ShakeText (host : List UInt8) (headers : Headers) : Prop where
  fits : ∀ header ∈ headers, HeaderLine header ∧ header.1 ≠ []
  hostFits : HeaderLine (chars "Host", host)
  announced : ∀ header ∈ headers, strcasecmpZero header.1 (chars "content-length") = false

section

variable {host random : List UInt8} {headers : Headers}

theorem find_connection (headers : Headers) :
    (headers.any isConnection = false → Headers.find headers.reverse (chars "Connection") = none) ∧
    (headers.any isConnection = true →
      Headers.find headers.reverse (chars "Connection") ≠ none) := by
  have hfold : foldedKey (chars "Connection") = foldedKey (chars "connection") := by decide
  have hcase (key : List UInt8) :
      strcasecmpZero key (chars "Connection") = strcasecmpZero key (chars "connection") := by
    rw [Bool.eq_iff_iff]
    refine (same_iff key _).trans ?_
    rw [hfold]
    exact (same_iff key _).symm
  constructor
  · intro hany
    refine Headers.find_eq_none fun header hheader => ?_
    rw [hcase]
    exact Bool.eq_false_iff.mpr fun h =>
      (List.any_eq_false.mp hany) header (List.mem_reverse.mp hheader) h
  · intro hany hnone
    obtain ⟨header, hmem, hconn⟩ := List.any_eq_true.mp hany
    rw [Headers.find, Option.map_eq_none_iff, List.find?_eq_none] at hnone
    exact hnone header (List.mem_reverse.mpr hmem) ((hcase header.1).trans hconn)

variable (host headers) in
theorem find_host {key : List UInt8} (hkey : strcasecmpZero (chars "Host") key = false) :
    Headers.find
    (if headers.any namesHost then [] else [(chars "Host", host)] : Headers).reverse key =
      none := by
  split
  · rfl
  · rw [List.reverse_singleton, Headers.find_cons, hkey]
    rfl

theorem find_shakeLines {key : List UInt8} (hkey : strcasecmpZero (chars "Host") key = false) :
    Headers.find (shakeLines host headers random).reverse key =
      (Headers.find [(chars "Sec-webSocket-Key", base64encode random),
        (chars "Sec-webSocket-Version", chars "13"), (chars "Upgrade", chars "websocket")] key).or
        (Headers.find (headers ++ if headers.any isConnection then []
          else [(chars "connection", chars "Upgrade")]).reverse key) := by
  have hfind (m : Headers) : m.find key = OrderedMap.find caseInsensitiveLess m key := rfl
  have hhost := find_host host headers hkey
  rw [hfind] at hhost
  rw [shakeLines, hfind, List.reverse_append, OrderedMap.find_append, hhost, Option.none_or,
    List.reverse_append, OrderedMap.find_append]
  rfl

variable (host headers random) in
/-- What the server looks for in the headers. -/
theorem find_shaken : Headers.find (shakeLines host headers random).reverse (chars "Upgrade") =
      some (chars "websocket") ∧
    Headers.find (shakeLines host headers random).reverse (chars "Connection") =
      some (askedConnection headers) ∧
    Headers.find (shakeLines host headers random).reverse (chars "Sec-webSocket-Version") =
      some (chars "13") ∧
    Headers.find (shakeLines host headers random).reverse (chars "Sec-WebSocket-Key") =
      some (base64encode random) := by
  refine ⟨?_, ?_, ?_, ?_⟩
  · rw [find_shakeLines (by decide)]
    rfl
  · rw [find_shakeLines (by decide)]
    change Headers.find _ _ = _
    rw [askedConnection]
    cases hany : headers.any isConnection with
    | false =>
        rw [(find_connection headers).1 hany, if_neg Bool.false_ne_true, List.reverse_append]
        rfl
    | true =>
        rw [if_pos rfl, List.append_nil]
        exact (Option.some_get (Option.isSome_iff_ne_none.mpr ((find_connection headers).2 hany))
          ).symm.trans (by rw [← Option.get_eq_getD])
  · rw [find_shakeLines (by decide)]
    rfl
  · rw [find_shakeLines (by decide)]
    rfl

/-- The characters of an encoded text stand in header lines on both sides. -/
theorem base64_char {x : List UInt8} {c : UInt8} (hc : c ∈ base64encode x) :
    isValueChar c ∧ HttpClientParser.isLineChar c ∧ isSpace c = false ∧ c ≠ 32 ∧ c ≠ 9 := by
  have hall : ∀ c ∈ base64 ++ [61],
      isValueChar c ∧ HttpClientParser.isLineChar c ∧ isSpace c = false ∧ c ≠ 32 ∧ c ≠ 9 := by
    decide +kernel
  refine hall c ?_
  have hdenotes := base64encode_denotes x
  revert hc
  generalize base64encode x = text at hdenotes
  have hgroup : ∀ {group bytes : List UInt8} {padding : Nat}, IsGroup group padding bytes →
      ∀ c ∈ group, c ∈ base64 ++ [61] := by
    intro group bytes padding h c hc
    cases h <;> simp only [List.mem_cons, List.not_mem_nil, or_false] at hc <;> grind
  induction hdenotes with
  | nil => exact fun hc => absurd hc List.not_mem_nil
  | last hlast => exact hgroup hlast c
  | group hfirst _ ih =>
      intro hc
      obtain hc | hc := List.mem_append.mp hc
      · exact hgroup hfirst c hc
      · exact ih hc

theorem base64encode_ne_nil {x : List UInt8} (h : x ≠ []) : base64encode x ≠ [] := by
  intro hnil
  have hback := base64decode_denotes (base64encode_denotes x)
  rw [hnil] at hback
  exact h (Option.some.inj (hback.symm.trans (base64decode_denotes Denotes.nil)))

theorem sendable_request {uri : Uri} (huri : UriText .get uri)
    (h : ShakeText uri.getHost headers) : (request uri headers random).Sendable true := by
  have hfixed :
    ∀ header ∈ [(chars "connection", chars "Upgrade"), (chars "Upgrade", chars "websocket"),
      (chars "Sec-webSocket-Version", chars "13")], ((∀ c ∈ header.1, isNameChar c) ∧
        (∀ c ∈ header.2, isValueChar c) ∧ header.2.head? ≠ some 32 ∧ header.2.head? ≠ some 9) ∧
          header.1 ≠ [] ∧ strcasecmpZero header.1 (chars "content-length") = false := by
    decide +kernel
  have hkey : (∀ c ∈ chars "Sec-webSocket-Key", isNameChar c) ∧ chars "Sec-webSocket-Key" ≠ [] ∧
      strcasecmpZero (chars "Sec-webSocket-Key") (chars "content-length") = false := by
    decide +kernel
  have hhost : chars "Host" ≠ [] ∧
      strcasecmpZero (chars "Host") (chars "content-length") = false := by decide
  have hall : ∀ header ∈ shakeLines uri.getHost headers random,
      (HeaderLine header ∧ header.1 ≠ []) ∧
        strcasecmpZero header.1 (chars "content-length") = false := by
    intro header hheader
    have hknown (hin : header ∈ [(chars "connection", chars "Upgrade"),
        (chars "Upgrade", chars "websocket"), (chars "Sec-webSocket-Version", chars "13")]) :
        (HeaderLine header ∧ header.1 ≠ []) ∧
          strcasecmpZero header.1 (chars "content-length") = false := by
      obtain ⟨⟨hname, hvalue, hstart⟩, hne, hother⟩ := hfixed header hin
      exact ⟨⟨⟨hname, hvalue, hstart⟩, hne⟩, hother⟩
    simp only [shakeLines, List.mem_append, List.mem_cons, List.not_mem_nil, or_false] at hheader
    obtain ((hheader | hheader) | hheader | hheader | hheader) | hheader := hheader
    · exact ⟨h.fits header hheader, h.announced header hheader⟩
    · split at hheader
      · cases hheader
      · exact hknown (by rw [List.mem_singleton.mp hheader]; exact List.mem_cons_self)
    · exact hknown (by simp [hheader])
    · exact hknown (by simp [hheader])
    · rw [hheader]
      refine ⟨⟨⟨hkey.1, fun c hc => (base64_char hc).1, fun hspace => ?_, fun htab => ?_⟩,
        hkey.2.1⟩,
        hkey.2.2⟩
      · exact (base64_char (List.mem_of_mem_head? hspace)).2.2.2.1 rfl
      · exact (base64_char (List.mem_of_mem_head? htab)).2.2.2.2 rfl
    · split at hheader
      · cases hheader
      · rw [List.mem_singleton.mp hheader]
        exact ⟨⟨h.hostFits, hhost.1⟩, hhost.2⟩
  rw [request_eq]
  exact sendable_withLines ⟨huri.method, huri.version, huri.path, huri.query, huri.fragment⟩ true
    (fun header hheader => (hall header hheader).1)
    (fun _ header hheader => (hall header hheader).2)

theorem init_eq (r : HttpRequest) : ∃ close, r.init = { r with close := close } := by
  unfold HttpRequest.init
  dsimp only
  split
  · exact ⟨_, rfl⟩
  · exact ⟨_, rfl⟩

/-- What the server has got of a request for a handshake. -/
structure Shaking (uri : Uri) (headers : Headers) (random : List UInt8) (got : HttpRequest) :
    Prop where
  method : got.method = .get
  version : got.version = 0x11
  path : got.path = uri.getPath
  query : got.query = uri.getQuery
  fragment : got.fragment = uri.getFragment
  headers : ∀ key,
    got.headers.find key = Headers.find (shakeLines uri.getHost headers random).reverse key
  body : got.body = []

theorem recvRequest_shake {uri : Uri} (huri : UriText .get uri) (h : ShakeText uri.getHost headers)
    {buffSize : Nat} (hbuff : buffSize < 2 ^ 31) {s : Stream}
    (hsent : Sent true buffSize (request uri headers random) s) (raw : HttpParser) :
    ∃ got, (recvRequest buffSize raw s).1 = .returned (some got) ∧
      Shaking uri headers random got ∧ (recvRequest buffSize raw s).2.input = s.input ∧
      (recvRequest buffSize raw s).2.taken =
        s.taken + ((request uri headers random).dump true).length := by
  obtain ⟨houtcome, hinput, htaken⟩ := HttpRequest.recvRequest_dump (sendable_request huri h) hbuff
    hsent.short hsent.size hsent.arrives raw
  obtain ⟨close, hinit⟩ := init_eq ((request uri headers random).received true)
  rw [hinit, request_eq] at houtcome
  refine ⟨_, houtcome, ⟨rfl, rfl, rfl, rfl, rfl, fun key => ?_, rfl⟩, hinput, htaken⟩
  · rw [HttpRequest.received_find]
    have hlines (r : HttpRequest) (hbody : r.body = []) : r.lines true = r.headers := by
      simp [HttpRequest.lines, hbody]
    rw [hlines _ rfl]
    exact find_withLines _ _ key

/-- The server accepts a handshake iff the connection header of the caller, if there is one, asks
for an upgrade as well. -/
theorem handleShake_shaking {uri : Uri} {got : HttpRequest} (h : Shaking uri headers random got)
    (hrandom : random ≠ []) : handleShake (some got) =
      if strcasecmpZero (askedConnection headers) (chars "Upgrade") then some got else none := by
  obtain ⟨hupgrade, hconnection, hversion, hkey⟩ :=
    find_shaken uri.getHost random headers
  rw [← h.headers] at hupgrade hconnection hversion hkey
  have hwebsocket : strcasecmpZero (chars "websocket") (chars "websocket") = true := by decide
  have hthirteen : lexicalCastInt (chars "13") = some 13 := by decide
  have hkeyed : (base64encode random).isEmpty = false := by
    simpa using base64encode_ne_nil hrandom
  unfold handleShake HttpRequest.getHeader HttpRequest.getHeaderAsInt
  simp only [hupgrade, hconnection, hversion, hkey, Option.getD_some, Option.bind_some, hthirteen,
    hwebsocket, hkeyed]
  cases strcasecmpZero (askedConnection headers) (chars "Upgrade") <;> rfl

end

end WSConnection

/-! ## The response -/

section

variable {sha1sum : List UInt8 → List UInt8} {req : HttpRequest}

theorem shakeResponse_headers (sha1sum : List UInt8 → List UInt8) (req : HttpRequest) :
    (shakeResponse sha1sum req).headers = [(chars "Connection", chars "Upgrade"),
      (chars "Sec-WebSocket-Accept",
        acceptValue sha1sum (req.getHeader (chars "Sec-WebSocket-Key"))),
      (chars "Upgrade", chars "websocket")] :=
  rfl

theorem shakeResponse_fields (sha1sum : List UInt8 → List UInt8) (req : HttpRequest) :
    (shakeResponse sha1sum req).fields true = (shakeResponse sha1sum req).headers := by
  simp [ResponseMessage.fields, shakeResponse]

theorem shakeResponse_textual (hversion : req.version = 0x11) :
    (shakeResponse sha1sum req).Textual ∧
      ∀ header ∈ (shakeResponse sha1sum req).headers, header.1 ≠ [] := by
  have hreason : ∀ c ∈ chars "Web Socket Protocol Handshake", HttpClientParser.isLineChar c := by
    decide +kernel
  have hfixed : ∀ header ∈ [(chars "Connection", chars "Upgrade"),
      (chars "Upgrade", chars "websocket")], (∀ c ∈ header.1, HttpClientParser.isTokenChar c) ∧
        (∀ c ∈ header.2, HttpClientParser.isLineChar c) ∧
          (header.2.head?.all fun c => !isSpace c) ∧ header.1 ≠ [] := by
    decide +kernel
  have haccept : (∀ c ∈ chars "Sec-WebSocket-Accept", HttpClientParser.isTokenChar c) ∧
      chars "Sec-WebSocket-Accept" ≠ [] := by
    decide +kernel
  have hall : ∀ header ∈ (shakeResponse sha1sum req).headers,
      HttpClientParser.Line header ∧ header.1 ≠ [] := by
    intro header hheader
    have hknown (hin : header ∈ [(chars "Connection", chars "Upgrade"),
        (chars "Upgrade", chars "websocket")]) :
        HttpClientParser.Line header ∧ header.1 ≠ [] := by
      obtain ⟨hname, hvalue, hstart, hne⟩ := hfixed header hin
      exact ⟨⟨hname, hvalue, fun c hc => by
        rw [Option.mem_def.mp hc] at hstart
        simpa using hstart⟩, hne⟩
    rw [shakeResponse_headers] at hheader
    simp only [List.mem_cons, List.not_mem_nil, or_false] at hheader
    obtain hheader | hheader | hheader := hheader
    · exact hknown (by simp [hheader])
    · rw [hheader]
      exact ⟨⟨haccept.1, fun c hc => (WSConnection.base64_char hc).2.1, fun c hc =>
        (WSConnection.base64_char (List.mem_of_mem_head? hc)).2.2.1⟩, haccept.2⟩
    · exact hknown (by simp [hheader])
  have hstatus : (-2 ^ 31 : Int) ≤ 101 ∧ (101 : Int) < 2 ^ 31 := by decide
  exact ⟨⟨.inr hversion, hstatus, hreason, fun header hheader => (hall header hheader).1,
    fun cookie hcookie => absurd hcookie List.not_mem_nil⟩,
    fun header hheader => (hall header hheader).2⟩

/-- The client reads an answer, and with it what its first read brings of the frames behind it. -/
theorem receives_shake (hversion : req.version = 0x11) {buffSize : Nat} (hbuff : buffSize < 2 ^ 31)
    {surplus : List UInt8} {later : List (List UInt8)} {s : Stream}
    (hincoming : Incoming s (((shakeResponse sha1sum req).dump true ++ surplus) :: later))
    (hfits : ((shakeResponse sha1sum req).dump true ++ surplus).length ≤ buffSize)
    (raw : HttpClientParser) :
    ∃ response t, Answered buffSize s (raw, response) t ∧
      (shakeResponse sha1sum req).Recovered true response ∧ Incoming t later ∧
      t.taken = s.taken + ((shakeResponse sha1sum req).dump true ++ surplus).length := by
  obtain ⟨htextual, hnamed⟩ := @shakeResponse_textual sha1sum req hversion
  have hdump : (shakeResponse sha1sum req).dump true = (shakeResponse sha1sum req).head true := by
    rw [(shakeResponse sha1sum req).dump_eq_head]
    exact List.append_nil _
  rw [hdump] at hincoming hfits ⊢
  have hlast : ∃ last ∈ ((shakeResponse sha1sum req).fields true).getLast?, last.2 ≠ [] := by
    rw [shakeResponse_fields, shakeResponse_headers]
    exact ⟨(chars "Upgrade", chars "websocket"), rfl, (by decide : chars "websocket" ≠ [])⟩
  obtain ⟨parser, hexec, hfinished, herror, hrecovered, hplain⟩ :=
    execute_response htextual hnamed hlast
      (rfl : (shakeResponse sha1sum req).head true ++ surplus = _ ++ surplus) (by omega) raw
  have hnone : ∀ key ∈ [chars "Connection", chars "Sec-WebSocket-Accept", chars "Upgrade"],
      key.map toLower ≠ HttpClientParser.encodingName ∧
        strcasecmpZero key (chars "content-length") = false := by decide
  have hkeys : ∀ field ∈ (shakeResponse sha1sum req).fields true,
      field.1 ∈ [chars "Connection", chars "Sec-WebSocket-Accept", chars "Upgrade"] := by
    rw [shakeResponse_fields, shakeResponse_headers]
    simp
  have hchunked := hplain fun field hfield => (hnone field.1 (hkeys field hfield)).1
  have hlength : parser.getContentLength = 0 := by
    unfold HttpResponseParser.getContentLength
    rw [hrecovered.headers, Headers.find_eq_none fun field hfield =>
      (hnone field.1 (hkeys field (List.mem_reverse.mp hfield))).2]
    rfl
  have hlong := (shakeResponse sha1sum req).length_head true
  obtain ⟨second, hphase, hparser, hnext, hlater, htaken⟩ :=
    RecvState.next_first hbuff hfits hincoming raw
  obtain ⟨ops, hparsed⟩ := RecvState.next_parsed hbuff (List.length_pos_iff.mp (by omega)) hfits
    hphase (by rw [hparser]; exact hexec) hfinished herror hchunked
  have hzero : int64 ((0 : Nat) : Int) = 0 := int64_natCast (by decide)
  rw [hlength, hzero, RecvState.content, if_neg (lt_irrefl 0)] at hparsed
  refine ⟨parser.data, second.stream, ⟨2, ?_⟩, hrecovered, hlater, htaken⟩
  simp only [RecvState.after, Function.iterate_succ_apply,
    Function.iterate_zero_apply, hnext, hparsed]
  exact ⟨rfl, rfl⟩

end

/-! ## All of it -/

/-- `WSConnection::Create` and `handleShake`: the request is got whole, it is accepted iff the
caller does not ask for another connection, and the answer to it has the status that the client
looks at.  What the first read brings of the frames behind the answer is taken from the stream
too, and lost. -/
theorem handshake {uri : Uri} {headers : Headers} {random : List UInt8} (huri : UriText .get uri)
    (hcaller : WSConnection.ShakeText uri.getHost headers) (hrandom : random ≠ []) {buffSize : Nat}
    (hbuff : buffSize < 2 ^ 31) {s : Stream}
    (hsent : Sent true buffSize (WSConnection.request uri headers random) s) (raw : HttpParser)
    (sha1sum : List UInt8 → List UInt8) :
    ∃ got, (recvRequest buffSize raw s).1 = .returned (some got) ∧
      WSConnection.Shaking uri headers random got ∧
      (recvRequest buffSize raw s).2.taken =
        s.taken + ((WSConnection.request uri headers random).dump true).length ∧
      handleShake (some got) =
        (if strcasecmpZero (WSConnection.askedConnection headers) (chars "Upgrade") then some got
          else none) ∧
      ∀ (answerSize : Nat) (surplus : List UInt8) (later : List (List UInt8)) (t : Stream)
        (raw' : HttpClientParser), answerSize < 2 ^ 31 →
        Incoming t (((shakeResponse sha1sum got).dump true ++ surplus) :: later) →
        ((shakeResponse sha1sum got).dump true ++ surplus).length ≤ answerSize →
        ∃ response u, Answered answerSize t (raw', response) u ∧ response.status = 101 ∧
          response.headers.find (chars "Sec-WebSocket-Accept") =
            some (acceptValue sha1sum (base64encode random)) ∧
          Incoming u later ∧
          u.taken = t.taken + ((shakeResponse sha1sum got).dump true).length + surplus.length := by
  obtain ⟨got, houtcome, hshaking, hinput, htaken⟩ :=
    WSConnection.recvRequest_shake huri hcaller hbuff hsent raw
  refine ⟨got, houtcome, hshaking, htaken,
    WSConnection.handleShake_shaking hshaking hrandom, ?_⟩
  intro answerSize surplus later t raw' hanswer hincoming hfits
  obtain ⟨response, u, hanswered, hrecovered, hlater, htaken'⟩ :=
    receives_shake hshaking.version hanswer hincoming hfits raw'
  refine ⟨response, u, hanswered, hrecovered.status, ?_, hlater, ?_⟩
  · have hkey : got.getHeader (chars "Sec-WebSocket-Key") = base64encode random := by
      rw [HttpRequest.getHeader, hshaking.headers, (WSConnection.find_shaken _ _ _).2.2.2]
      rfl
    rw [hrecovered.headers, shakeResponse_fields, shakeResponse_headers, hkey]
    rfl
  · rw [htaken', List.length_append, Nat.add_assoc]

/-- A handshake whose answer comes in one read with a frame of two bytes. -/
theorem handshake_frame_behind :
    ∃ s got, (recvRequest 4096 (.fresh false) s).1 = .returned (some got) ∧
      got.query = chars "token=a%3Db" ∧ handleShake (some got) = some got ∧
      ∀ t raw', Incoming t [(shakeResponse id got).dump true ++ [129, 0]] →
        ((shakeResponse id got).dump true ++ [129, 0]).length ≤ 4096 →
        ∃ response u, Answered 4096 t (raw', response) u ∧ response.status = 101 ∧
          u.taken = t.taken + ((shakeResponse id got).dump true).length + 2 := by
  let uri : Uri := { host := chars "a", path := chars "/chat", query := chars "token=a%3Db" }
  let headers : Headers := [(chars "Connection", chars "upgrade")]
  let random := chars "0123456789abcdef"
  have huri : UriText .get uri :=
    ⟨by decide +kernel, .inr rfl, ⟨chars "chat", by decide, by decide, by decide +kernel⟩,
      by decide +kernel, by decide +kernel⟩
  have hfits : ∀ header ∈ headers, (∀ c ∈ header.1, isNameChar c) ∧
    (∀ c ∈ header.2, isValueChar c) ∧
      (header.2.head? ≠ some 32 ∧ header.2.head? ≠ some 9) ∧ header.1 ≠ [] ∧
        strcasecmpZero header.1 (chars "content-length") = false := by decide +kernel
  have hcaller : WSConnection.ShakeText uri.getHost headers := by
    refine ⟨fun header hmem => ?_, ⟨by decide +kernel, by decide +kernel, by decide⟩,
      fun header hmem => (hfits header hmem).2.2.2.2⟩
    obtain ⟨hname, hvalue, hstart, hne, -⟩ := hfits header hmem
    exact ⟨⟨hname, hvalue, hstart⟩, hne⟩
  have hrandom : random ≠ [] := by decide
  have hlength : ((WSConnection.request uri headers random).dump true).length < 4096 := by
    decide +kernel
  obtain ⟨s, hsent⟩ : ∃ s, Sent true 4096 (WSConnection.request uri headers random) s :=
    exists_sent (by omega) (by omega)
  obtain ⟨got, houtcome, hshaking, -, hshake, hanswer⟩ :=
    handshake huri hcaller hrandom (by decide) hsent (.fresh false) id
  have hupgrade : strcasecmpZero (WSConnection.askedConnection headers)
      (chars "Upgrade") = true := by
    decide
  rw [if_pos hupgrade] at hshake
  refine ⟨s, got, houtcome, hshaking.query, hshake, fun t raw' hincoming hfits => ?_⟩
  obtain ⟨response, u, hanswered, hstatus, -, -, htaken⟩ :=
    hanswer 4096 [129, 0] [] t raw' (by decide) hincoming hfits
  exact ⟨response, u, hanswered, hstatus, htaken⟩

end Lyslg.Http
