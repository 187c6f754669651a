import Lyslg.Http.HttpServer
/-!
# A pool and a server

The calls of `HttpConnectionPool::doRequest` on one connection, which `HttpServer::handleClient`
serves at the other end.
-/

namespace Lyslg.Http

open Support Support.Machine Support.Memory

/-! ## The calls -/

/-- A call of `doRequest` for a URL, and the pieces in which its text gets to the server: the head
with the `surplus` behind it, and the `later` ones. -/
structure PoolCall (host vhost : List UInt8) (buffSize : Nat) where
  method : HttpMethod
  uri : Uri
  headers : Headers
  body : List UInt8
  surplus : List UInt8
  later : List (List UInt8)
  uriText : UriText method uri
  callerText : CallerText (if vhost = [] then host else vhost) headers body
  text : surplus ++ later.flatten = body
  request : HttpRequest
  request_eq : request =
    HttpConnectionPool.doRequest host vhost method (HttpConnectionPool.urlOf uri) headers body
  head : (request.head false).length < buffSize
  first : (request.head false ++ surplus).length ≤ buffSize
  short : (request.dump false).length < 2 ^ 31

namespace PoolCall

variable {host vhost : List UInt8} {buffSize : Nat}

/-- The request with the URL in its parts. -/
def parts (x : PoolCall host vhost buffSize) : HttpRequest :=
  uriRequest x.method x.uri false (if vhost = [] then host else vhost) x.headers x.body

/-- The header lines that count. -/
def lines (x : PoolCall host vhost buffSize) : Headers :=
  askedLines false (if vhost = [] then host else vhost) x.headers x.body

def pieces (x : PoolCall host vhost buffSize) : List (List UInt8) :=
  (x.request.head false ++ x.surplus) :: x.later

theorem request_head (x : PoolCall host vhost buffSize) :
    x.request.head false = x.parts.head false := by
  rw [x.request_eq, HttpConnectionPool.doRequest_eq]
  exact pool_head x.body

theorem request_dump (x : PoolCall host vhost buffSize) :
    x.request.dump false = x.parts.head false ++ x.body := by
  rw [x.request.dump_eq_head, x.request_head, x.request_eq, HttpConnectionPool.doRequest_eq]
  rfl

theorem sendable (x : PoolCall host vhost buffSize) : x.parts.Sendable false := by
  have hline : ({ method := x.method, path := x.uri.getPath, query := x.uri.getQuery,
                  fragment := x.uri.getFragment, close := false, body := x.body } :
        HttpRequest).LineText :=
    ⟨x.uriText.method, x.uriText.version, x.uriText.path, x.uriText.query, x.uriText.fragment⟩
  exact sendable_fromCaller hline x.callerText

/-- The text as it comes to a server. -/
def arrival (x : PoolCall host vhost buffSize) (hbuff : buffSize < 2 ^ 31) (relaxed : Bool) :
    Arrival relaxed buffSize where
  message := x.parts.message false x.sendable relaxed hbuff (x.request_head ▸ x.head) (by
    have htext := congrArg List.length x.request_dump
    have hsize := x.short
    rw [List.length_append] at htext
    exact (by omega : x.body.length < 2 ^ 64))
  surplus := x.surplus
  later := x.later
  text := x.text
  fits := x.request_head ▸ x.first
  short := x.request_dump ▸ x.short

theorem arrival_pieces (x : PoolCall host vhost buffSize) (hbuff : buffSize < 2 ^ 31)
    (relaxed : Bool) : (x.arrival hbuff relaxed).pieces = x.pieces := by
  rw [pieces, x.request_head]
  rfl

theorem arrival_asked (x : PoolCall host vhost buffSize) (hbuff : buffSize < 2 ^ 31)
    (relaxed : Bool) : Asked x.method x.uri false x.lines (x.arrival hbuff relaxed).request := by
  have hrequest : (x.arrival hbuff relaxed).request = (x.parts.received false).init := rfl
  rw [hrequest, init_received]
  exact ⟨rfl, rfl, rfl, rfl, rfl, rfl, fun key =>
    (HttpRequest.received_find _ false key).trans (find_lines _ _ x.headers key), rfl⟩

end PoolCall

/-! ## The exchanges -/

section

variable {host vhost : List UInt8} {buffSize clientSize : Nat} {s c : Stream} {relaxed : Bool}

/-- The loop over requests that leave the connection open. -/
theorem HttpServer.handleClient_open (fnmatch : List UInt8 → List UInt8 → Bool) {self : HttpServer}
    (hbuff : buffSize < 2 ^ 31) {size : Nat} (hfits : size < 2 ^ 64)
    (arrivals : List (HttpParser × Arrival relaxed buffSize))
    (hraw : ∀ arrival ∈ arrivals, arrival.1.uriRelaxed = relaxed)
    (hincoming : Incoming s (arrivals.flatMap fun arrival => arrival.2.pieces))
    (hopen : ∀ arrival ∈ arrivals, self.isLast arrival.2.request = false)
    (hsize : ∀ arrival ∈ arrivals,
      ((self.respond fnmatch arrival.2.request).dump false).length ≤ size)
    (hwrites : Flows s.writes (arrivals.length * size)) :
    let run := self.handleClient fnmatch buffSize (arrivals.map Prod.fst) s
    run.1 = arrivals.map (fun arrival => arrival.2.request) ∧ run.2.1 = .serving ∧
      run.2.2.taken =
        s.taken + (arrivals.map fun arrival => arrival.2.message.bytes.length).sum ∧
      run.2.2.output = s.output ++ run.1.flatMap fun got =>
        (self.respond fnmatch got).dump false := by
  induction arrivals generalizing s with
  | nil => exact ⟨rfl, rfl, rfl, (List.append_nil _).symm⟩
  | cons arrival arrivals ih =>
      obtain ⟨raw, x⟩ := arrival
      obtain ⟨hfirst, hraws⟩ := List.forall_mem_cons.mp hraw
      obtain ⟨hstays, hopens⟩ := List.forall_mem_cons.mp hopen
      obtain ⟨hone, hsizes⟩ := List.forall_mem_cons.mp hsize
      have hroom : ((self.respond fnmatch x.request).dump false).length + arrivals.length * size ≤
          ((raw, x) :: arrivals).length * size := by
        rw [List.length_cons, Nat.add_mul, Nat.one_mul, Nat.add_comm]
        exact Nat.add_le_add_left hone _
      obtain ⟨t, hlater, hflow, houtput, htaken, -, hrun⟩ := handleClient_cons fnmatch self hbuff x
        hfirst hincoming (lt_of_le_of_lt hone hfits) (hwrites.weaken hroom) (arrivals.map Prod.fst)
      obtain ⟨hrounds, hloop, htaken', houtput'⟩ := ih hraws hlater hopens hsizes hflow
      have hstays : self.isLast x.request = false := hstays
      rw [hstays, if_neg Bool.false_ne_true] at hrun
      rw [hrounds] at houtput'
      simp only [List.map_cons, hrun, hrounds, hloop, htaken', houtput', htaken, houtput,
        List.sum_cons, List.flatMap_cons, List.append_assoc, Nat.add_assoc, and_self]

/-- The pieces of the deliveries are the texts one after the other. -/
theorem flatten_deliveries (deliveries : List (HttpClientParser × Delivery clientSize)) :
    (deliveries.flatMap fun delivery => delivery.2.pieces).flatten =
      (deliveries.map fun delivery => delivery.2.response).flatMap fun r => r.dump false := by
  induction deliveries with
  | nil => rfl
  | cons delivery deliveries ih =>
      rw [List.flatMap_cons, List.flatten_append, ih, List.map_cons, List.flatMap_cons,
        Delivery.pieces, List.flatten_cons, delivery.2.text]

/-- A server that keeps connections answers every call of a pool, and the client gets the answers
in the order of its calls, each the one to its call. -/
theorem pool_exchanges (fnmatch : List UInt8 → List UInt8 → Bool) {self : HttpServer}
    (hkeep : self.isKeepalive = true) (hbuff : buffSize < 2 ^ 31) (hclient : clientSize < 2 ^ 31)
    (calls : List (HttpParser × PoolCall host vhost buffSize))
    (hraw : ∀ call ∈ calls, call.1.uriRelaxed = relaxed)
    (hincoming : Incoming s (calls.flatMap fun call => call.2.pieces))
    {size : Nat} (hfits : size < 2 ^ 64)
    (hsize : ∀ call ∈ calls, ∀ got, Asked call.2.method call.2.uri false call.2.lines got →
      ((self.respond fnmatch got).dump false).length ≤ size)
    (hwrites : Flows s.writes (calls.length * size)) :
    let run := self.handleClient fnmatch buffSize (calls.map Prod.fst) s
    List.Forall₂ (fun call got => Asked call.2.method call.2.uri false call.2.lines got)
        calls run.1 ∧
      run.2.1 = .serving ∧
      run.2.2.taken = s.taken + (calls.map fun call => (call.2.request.dump false).length).sum ∧
      run.2.2.output = s.output ++ run.1.flatMap
      (fun got => (self.respond fnmatch got).dump false) ∧
      ∀ deliveries : List (HttpClientParser × Delivery clientSize),
        deliveries.map (fun delivery => delivery.2.response) = run.1.map (self.respond fnmatch) →
        (deliveries.flatMap fun delivery => delivery.2.pieces).flatten =
            run.1.flatMap (fun got => (self.respond fnmatch got).dump false) ∧
          ∀ c, Incoming c (deliveries.flatMap fun delivery => delivery.2.pieces) →
            ∃ responses t, Run (Answered clientSize) c ((deliveries.map Prod.fst).zip responses) t ∧
              List.Forall₂ (fun got response => (self.respond fnmatch got).Recovered false response)
                run.1 responses := by
  intro run
  let arrivals := calls.map fun call => (call.1, call.2.arrival hbuff relaxed)
  have hraws : arrivals.map Prod.fst = calls.map Prod.fst := by simp [arrivals]
  have hpieces : (arrivals.flatMap fun arrival => arrival.2.pieces) =
      calls.flatMap fun call => call.2.pieces := by
    simp [arrivals, List.flatMap_map, PoolCall.arrival_pieces]
  have hopen : ∀ arrival ∈ arrivals, self.isLast arrival.2.request = false := by
    simp only [arrivals, List.forall_mem_map, HttpServer.isLast, hkeep]
    exact fun call _ => (call.2.arrival_asked hbuff relaxed).close
  obtain ⟨hrounds, hloop, htaken, houtput⟩ := HttpServer.handleClient_open fnmatch hbuff hfits
    arrivals (List.forall_mem_map.mpr hraw) (hpieces ▸ hincoming) hopen
    (List.forall_mem_map.mpr fun call hcall =>
      hsize call hcall _ (call.2.arrival_asked hbuff relaxed))
    (by rwa [List.length_map])
  rw [hraws] at hrounds hloop houtput htaken
  refine ⟨?_, hloop, htaken.trans (congrArg (s.taken + ·) ?_), houtput,
    fun deliveries hdeliveries => ⟨?_, fun c hc => ?_⟩⟩
  · have hgot : run.1 = _ := hrounds
    rw [hgot, List.map_map, List.forall₂_map_right_iff, List.forall₂_same]
    exact fun call _ => call.2.arrival_asked hbuff relaxed
  · rw [List.map_map]
    refine congrArg List.sum (List.map_congr_left fun call _ => ?_)
    change (call.2.arrival hbuff relaxed).message.bytes.length = _
    rw [call.2.request_dump]
    rfl
  · rw [flatten_deliveries, hdeliveries, List.flatMap_map]
  · rw [← List.append_nil (deliveries.flatMap _)] at hc
    obtain ⟨responses, t, hanswered, hrecovered, -⟩ := receives_all hclient deliveries hc
    refine ⟨responses, t, hanswered, ?_⟩
    rw [← List.forall₂_map_left_iff (f := self.respond fnmatch)
      (R := fun r response => r.Recovered false response), ← hdeliveries,
      List.forall₂_map_left_iff]
    exact hrecovered

/-- A call of a pool whose caller asks to close the connection, to a server without servlets. -/
theorem pool_exchanges_not_found :
    ∃ (s : Stream) (got : HttpRequest), (HttpServer.handleClient (fun _ _ => false)
        { isKeepalive := true } 4096 [.fresh false] s).1 = [got] ∧ got.path = chars "/b" ∧
      (HttpServer.respond (fun _ _ => false) { isKeepalive := true } got).status = 404 := by
  let uri : Uri := { path := chars "/b" }
  let headers : Headers := [(chars "connection", chars "close")]
  let req : HttpRequest := HttpConnectionPool.doRequest (chars "h") [] .get
    (HttpConnectionPool.urlOf uri) headers []
  let self : HttpServer := { isKeepalive := true }
  have huri : UriText .get uri :=
    ⟨by decide +kernel, .inr rfl, ⟨chars "b", by decide, by decide, by decide +kernel⟩,
      by decide +kernel, by decide +kernel⟩
  have hfits : ∀ header ∈ headers, (∀ c ∈ header.1, isNameChar c) ∧
    (∀ c ∈ header.2, isValueChar c) ∧
      (header.2.head? ≠ some 32 ∧ header.2.head? ≠ some 9) ∧ header.1 ≠ [] ∧
        strcasecmpZero header.1 (chars "content-length") = false := by decide +kernel
  have hcaller : CallerText (if ([] : List UInt8) = [] then chars "h" else []) headers [] := by
    refine ⟨fun header hmem => ?_, ⟨by decide +kernel, by decide +kernel, by decide⟩,
      fun _ header hmem => (hfits header hmem).2.2.2.2⟩
    obtain ⟨hname, hvalue, hstart, hne, -⟩ := hfits header hmem
    exact ⟨⟨hname, hvalue, hstart⟩, hne⟩
  have hlength : (req.head false ++ []).length = 52 ∧ (req.head false).length = 52 ∧
      (req.dump false).length = 52 := by decide +kernel
  let x : PoolCall (chars "h") [] 4096 :=
    { method := .get, uri := uri, headers := headers, body := [], surplus := [], later := []
      uriText := huri, callerText := hcaller, text := rfl, request := req, request_eq := rfl
      head := hlength.2.1.trans_lt (by decide), first := hlength.1.le.trans (by decide)
      short := hlength.2.2.trans_lt (by decide) }
  have hpieces : ∀ piece ∈ [(HttpParser.fresh false, x)].flatMap fun call => call.2.pieces,
      0 < piece.length ∧ piece.length < 2 ^ 31 := by
    intro piece hpiece
    have hmem : piece ∈ [req.head false ++ []] := hpiece
    obtain rfl := List.mem_singleton.mp hmem
    omega
  obtain ⟨s, hincoming, hwrites⟩ := exists_connection (1 * 400) hpieces
  have hanswer (got : HttpRequest) : self.respond (fun _ _ => false) got =
      NotFoundServlet.handle (chars "lyslg/1.0") got
        { version := got.version, close := got.close || !true
          headers := Headers.set [] (chars "Server") (chars "lyslg/1.0.0") } := rfl
  have hsize : ((NotFoundServlet.handle (chars "lyslg/1.0") {}
      { version := 0x11, close := false || !true
        headers := Headers.set [] (chars "Server") (chars "lyslg/1.0.0") }).dump false).length ≤
        400 := by
    decide +kernel
  obtain ⟨hasked, -⟩ := pool_exchanges (fun _ _ => false) (rfl : self.isKeepalive = true)
    (by decide) (by decide : 4096 < 2 ^ 31) [(HttpParser.fresh false, x)]
    (fun call hcall => congrArg (fun call => call.1.uriRelaxed) (List.mem_singleton.mp hcall))
    hincoming
    (by decide : 400 < 2 ^ 64)
    (fun call _ got hgot => by
      rw [hanswer, hgot.version, hgot.close]
      exact hsize)
    hwrites
  obtain ⟨got, rest, hgot, hnone, hrun⟩ := List.forall₂_cons_left_iff.mp hasked
  rw [List.forall₂_nil_left_iff.mp hnone] at hrun
  exact ⟨s, got, hrun, hgot.path, congrArg (fun r => r.status) (hanswer got)⟩

end

end Lyslg.Http
