import Lyslg.Http.DoRequest
import Lyslg.Http.Exchanges
import Lyslg.Http.Servlet
import Lyslg.Stream.Call
/-!
# `HttpServer::handleClient`

The loop over the requests of a connection.  The servlets leave the session alone and change the
response only; `m_websocket`, which the constructor of a response does not set, is taken to be
false.
-/

namespace Lyslg.Http

open Support Support.Machine Support.Memory

/-! ## The loop -/

/-- What `Servlet::handle` makes of the response. -/
abbrev Handler := HttpRequest → ResponseMessage → ResponseMessage

/-- `NotFoundServlet::handle`. -/
def NotFoundServlet.handle (name : List UInt8) : Handler := fun _ response =>
  { response with
    status := 404
    headers := (response.headers.set (chars "Server") (chars "lyslg/1.0.0")).set
      (chars "Content-Type") (chars "text/html")
    body := chars "<html><head><title>404 Not Found" ++
      chars "</title></head><body><center><h1>404 Not Found</h1></center>" ++
      chars "<hr><center>" ++ name ++ chars "</center></body></html>" }

/-- `ServletDispatch::handle`. -/
def ServletDispatch.handle (fnmatch : List UInt8 → List UInt8 → Bool)
    (d : ServletDispatch Handler) : Handler := fun request response =>
  match d.getMatchedServlet fnmatch request.path with
  | some slt => slt request response
  | none => response

structure HttpServer where
  isKeepalive : Bool := false
  name : List UInt8 := chars "lyslg/1.0.0"
  dispatch : ServletDispatch Handler := .new (NotFoundServlet.handle (chars "lyslg/1.0"))

/-- `HttpSession::sendResponse`. -/
def sendResponse (rsp : ResponseMessage) : StreamCall Int := writeFix (rsp.dump false)

/-- Where the loop is. -/
inductive ClientLoop where
  /-- before the next `recvRequest` -/
  | serving
  /-- behind `session->close()` -/
  | closed
  /-- `recvRequest` has not returned -/
  | receiving (outcome : Outcome)
  /-- `sendResponse` has not returned -/
  | sending (stop : Stop)

namespace HttpServer

variable (fnmatch : List UInt8 → List UInt8 → Bool)

/-- The response to a request. -/
def respond (self : HttpServer) (req : HttpRequest) : ResponseMessage :=
  self.dispatch.handle fnmatch req
    { version := req.version, close := req.close || !self.isKeepalive
      headers := Headers.set [] (chars "Server") self.name }

/-- `HttpServer::handleClient`, with what the memory of the parser of each `recvRequest` held
before, and the requests that it answered. -/
def handleClient (self : HttpServer) (buffSize : Nat) :
    List HttpParser → Stream → List HttpRequest × ClientLoop × Stream
  | [], s => ([], .serving, s)
  | raw :: raws, s =>
      match recvRequest buffSize raw s with
      | (.returned none, s) => ([], .closed, { s with closed := true })
      | (.returned (some req), s) =>
          match sendResponse (self.respond fnmatch req) s with
          | .error stop s => ([], .sending stop, s)
          | .ok _ s =>
              if !self.isKeepalive || req.close then ([req], .closed, { s with closed := true })
              else
                let run := handleClient self buffSize raws s
                (req :: run.1, run.2)
      | (outcome, s) => ([], .receiving outcome, s)

end HttpServer

/-! ## A request that arrives -/

/-- A message that comes in pieces, the first of which is the head with the `surplus` behind it. -/
structure Arrival (relaxed : Bool) (buffSize : Nat) where
  message : Message relaxed buffSize
  surplus : List UInt8
  later : List (List UInt8)
  text : surplus ++ later.flatten = message.body
  fits : (message.head ++ surplus).length ≤ buffSize
  short : message.bytes.length < 2 ^ 31

section

variable {relaxed : Bool} {buffSize : Nat} {s : Stream}

def Arrival.pieces (x : Arrival relaxed buffSize) : List (List UInt8) :=
  (x.message.head ++ x.surplus) :: x.later

/-- What the server has got. -/
def Arrival.request (x : Arrival relaxed buffSize) : HttpRequest := x.message.request.init

/-- The body is read to its end. -/
theorem recvBody_brings (surplus : List UInt8) {later more : List (List UInt8)}
    (h : Incoming s (later ++ more)) {data : HttpRequest} (hempty : data.body = [])
    (hsize : surplus.length + later.flatten.length < 2 ^ 31) :
    ∃ reads, recvBody ((surplus.length + later.flatten.length : Nat) : Int) data surplus s =
        (.returned (some data.init),
          { s with taken := s.taken + later.flatten.length, reads := reads }) ∧
      Incoming { s with taken := s.taken + later.flatten.length, reads := reads } more := by
  have hdata : { data with body := [] } = data := by rw [← hempty]
  by_cases hleft : later.flatten.length = 0
  · obtain ⟨now, rest, hreads, hnow, hmore⟩ := h.reads.split
    rw [hnow.eq_nil hleft, List.nil_append] at h
    rw [hleft, recvBody_buffered hempty (by omega)]
    exact ⟨s.reads, rfl, h⟩
  · have hmemory : (splice (List.replicate (surplus.length + later.flatten.length) 0) 0
        (surplus.take surplus.length)).length = surplus.length + later.flatten.length := by
      rw [length_splice _ _ _ (by simp), List.length_replicate]
    obtain ⟨hstatus, htaken, hrest, hsame⟩ := readFixSize_brings h surplus.length
      (by rw [hmemory]) (by rw [hmemory]; omega) rfl
    rw [hsame] at hrest
    refine ⟨_, ?_, hrest⟩
    have hcount : (((surplus.length + later.flatten.length : Nat) : Int) - surplus.length).toNat =
        later.flatten.length := by omega
    unfold recvBody
    rw [if_pos (by omega)]
    simp only
    rw [if_pos (by omega : (surplus.length : Int) ≤ (surplus.length + later.flatten.length : Nat)),
      if_pos (by omega), hcount, Int.toNat_natCast, hstatus]
    simp only
    rw [int32_natCast (by omega), if_neg (by omega), hdata, ← hsame]

/-- `recvRequest` takes a message, and the rest of the stream stays as it is. -/
theorem recvRequest_arrival (hbuff : buffSize < 2 ^ 31) (x : Arrival relaxed buffSize)
    {raw : HttpParser} (hraw : raw.uriRelaxed = relaxed) {more : List (List UInt8)}
    (h : Incoming s (x.pieces ++ more)) :
    ∃ reads, recvRequest buffSize raw s = (.returned (some x.request),
        { s with taken := s.taken + x.message.bytes.length, reads := reads }) ∧
      Incoming { s with taken := s.taken + x.message.bytes.length, reads := reads } more := by
  have hfits := x.fits
  have hshort := x.short
  have hpos := x.message.head_pos
  have hbody := congrArg List.length x.text
  obtain ⟨hsome, hint, events, hreads, hwindow, hrest⟩ := h.cons
  have hresult : Event.result buffSize (.moves (x.message.head ++ x.surplus).length hsome hint) =
      ((x.message.head ++ x.surplus).length : Int) := by
    show ((min (x.message.head ++ x.surplus).length buffSize : Nat) : Int) = _
    rw [Nat.min_eq_left hfits]
  rw [List.length_append] at hfits hbody
  rw [Message.bytes, List.length_append] at hshort
  have hreach := recvHead_message (by omega) hraw hreads hresult hwindow
  rw [if_neg (by rw [int32_natCast hbuff]; omega)] at hreach
  obtain ⟨parser, hdata, hrun⟩ := hreach
  obtain ⟨-, -, hempty⟩ := headRequest_eq_some x.message.parsed
  obtain ⟨reads, hrecv, hincoming⟩ := recvBody_brings x.surplus hrest hempty (by omega)
  have htaken : s.taken + (x.message.head ++ x.surplus).length + x.later.flatten.length =
      s.taken + x.message.bytes.length := by
    rw [Message.bytes, List.length_append, List.length_append, ← hbody,
      Nat.add_assoc, Nat.add_assoc]
  rw [hbody] at hrecv
  rw [recvRequest_ok hrun, hdata, answer, x.message.length_eq, int64_natCast (by omega), hrecv]
  simp only [htaken] at hincoming ⊢
  exact ⟨reads, rfl, hincoming⟩

/-- `sendResponse` on a stream that moves bytes. -/
theorem sendResponse_flows {rsp : ResponseMessage} (hsize : (rsp.dump false).length < 2 ^ 64)
    {more : Nat} (h : Flows s.writes ((rsp.dump false).length + more)) :
    ∃ v writes, sendResponse rsp s =
        .ok v { s with output := s.output ++ rsp.dump false, writes := writes } ∧
      Flows writes more := by
  have hio := inOrder_writeTransfer s (Nat.le_refl (rsp.dump false).length)
  have hstart : s = { s with output := s.output ++ slice (rsp.dump false) 0 0 } := by simp
  obtain ⟨hstatus, hdev, hflow⟩ := fixLoop_flows hio hsize (Nat.zero_le _) hstart h
  rw [Nat.sub_zero] at hstatus hdev hflow
  refine ⟨int32 (rsp.dump false).length, _, ?_, hflow⟩
  unfold sendResponse writeFix FixRun.settle writeFixSize
  simp only [hstatus, hdev, slice_full]
  rfl

/-! ## The whole connection -/

namespace HttpServer

/-- The request is the last one of the connection. -/
def isLast (self : HttpServer) (req : HttpRequest) : Bool := !self.isKeepalive || req.close

/-- The requests up to the last one of the connection. -/
def served (self : HttpServer) : List HttpRequest → List HttpRequest
  | [] => []
  | req :: reqs => if self.isLast req then [req] else req :: served self reqs

/-- What the peer is sent. -/
def answers (fnmatch : List UInt8 → List UInt8 → Bool) (self : HttpServer)
    (requests : List HttpRequest) : List UInt8 :=
  (self.served requests).flatMap fun req => (self.respond fnmatch req).dump false

variable (fnmatch : List UInt8 → List UInt8 → Bool) (self : HttpServer)

/-- One round of the loop. -/
theorem handleClient_cons (hbuff : buffSize < 2 ^ 31) (x : Arrival relaxed buffSize)
    {raw : HttpParser} (hraw : raw.uriRelaxed = relaxed) {more : List (List UInt8)}
    (hincoming : Incoming s (x.pieces ++ more))
    (hsize : ((self.respond fnmatch x.request).dump false).length < 2 ^ 64) {outgoing : Nat}
    (hwrites : Flows s.writes (((self.respond fnmatch x.request).dump false).length + outgoing))
    (raws : List HttpParser) :
    ∃ t : Stream, Incoming t more ∧ Flows t.writes outgoing ∧
      t.output = s.output ++ (self.respond fnmatch x.request).dump false ∧
      t.taken = s.taken + x.message.bytes.length ∧ t.closed = s.closed ∧
      self.handleClient fnmatch buffSize (raw :: raws) s =
        if self.isLast x.request then ([x.request], .closed, { t with closed := true })
        else
          (x.request :: (self.handleClient fnmatch buffSize raws t).1,
            (self.handleClient fnmatch buffSize raws t).2) := by
  obtain ⟨reads, hrecv, hlater⟩ := recvRequest_arrival hbuff x hraw hincoming
  obtain ⟨v, writes, hsend, hflow⟩ := sendResponse_flows
    (s := { s with taken := s.taken + x.message.bytes.length, reads := reads }) hsize hwrites
  refine ⟨{ s with
    taken := s.taken + x.message.bytes.length, reads := reads
    output := s.output ++ (self.respond fnmatch x.request).dump false, writes := writes },
    ⟨hlater.reads, hlater.input⟩, hflow, rfl, rfl, rfl, ?_⟩
  rw [handleClient]
  simp only [hrecv, hsend]
  rfl

/-- Each request up to the last one gets its response, in their order; nothing behind it is read,
and the connection is closed behind it. -/
theorem handleClient_answers (hbuff : buffSize < 2 ^ 31)
    (arrivals : List (HttpParser × Arrival relaxed buffSize))
    (hraw : ∀ arrival ∈ arrivals, arrival.1.uriRelaxed = relaxed)
    (hincoming : Incoming s (arrivals.flatMap fun arrival => arrival.2.pieces))
    (hsize : ∀ arrival ∈ arrivals,
      ((self.respond fnmatch arrival.2.request).dump false).length < 2 ^ 64)
    (hwrites : Flows s.writes
      (self.answers fnmatch (arrivals.map fun arrival => arrival.2.request)).length) :
    let requests := arrivals.map fun arrival => arrival.2.request
    let run := self.handleClient fnmatch buffSize (arrivals.map Prod.fst) s
    run.1 = self.served requests ∧
      run.2.1 = (if requests.any self.isLast then .closed else .serving) ∧
      run.2.2.output = s.output ++ self.answers fnmatch requests ∧
      run.2.2.taken = s.taken + ((arrivals.take (self.served requests).length).map
        fun arrival => arrival.2.message.bytes.length).sum ∧
      run.2.2.closed = (s.closed || requests.any self.isLast) := by
  induction arrivals generalizing s with
  | nil => simp [handleClient, served, answers]
  | cons arrival arrivals ih =>
      obtain ⟨raw, x⟩ := arrival
      obtain ⟨hfirst, hraws⟩ := List.forall_mem_cons.mp hraw
      obtain ⟨hfits, hsizes⟩ := List.forall_mem_cons.mp hsize
      by_cases hlast : self.isLast x.request = true
      · have hone : self.answers fnmatch
          (x.request :: arrivals.map fun arrival => arrival.2.request) =
            (self.respond fnmatch x.request).dump false := by
          rw [answers, served, if_pos hlast, List.flatMap_singleton]
        rw [List.map_cons, hone, ← Nat.add_zero (List.length _)] at hwrites
        obtain ⟨t, -, -, houtput, htaken, -, hrun⟩ := handleClient_cons fnmatch self
          hbuff x hfirst hincoming hfits hwrites (arrivals.map Prod.fst)
        rw [if_pos hlast] at hrun
        simp only [List.map_cons, hrun, hone, served, hlast, if_true, List.any_cons, Bool.true_or,
          List.length_singleton, List.take_succ_cons, List.take_zero, List.map_nil, List.sum_cons,
          List.sum_nil, Nat.add_zero, Bool.or_true, houtput, htaken, and_self]
      · have hmore : self.answers fnmatch
          (x.request :: arrivals.map fun arrival => arrival.2.request) =
            (self.respond fnmatch x.request).dump false ++
              self.answers fnmatch (arrivals.map fun arrival => arrival.2.request) := by
          rw [answers, served, if_neg hlast, List.flatMap_cons, answers]
        rw [List.map_cons, hmore, List.length_append] at hwrites
        obtain ⟨t, hlater, hflow, houtput, htaken, hclosed, hrun⟩ := handleClient_cons fnmatch self
          hbuff x hfirst hincoming hfits hwrites (arrivals.map Prod.fst)
        obtain ⟨hrounds, hloop, houtput', htaken', hclosed'⟩ := ih hraws hlater hsizes hflow
        rw [if_neg hlast] at hrun
        simp only [List.map_cons, hrun, hmore, served, hlast, Bool.false_eq_true, if_false,
          List.any_cons, Bool.false_or, hrounds, hloop, houtput', htaken', hclosed',
          houtput, htaken,
          hclosed, List.length_cons, List.take_succ_cons, List.sum_cons, List.append_assoc,
          Nat.add_assoc, and_self]

end HttpServer

/-- A stream that brings the pieces and takes `outgoing` bytes. -/
theorem exists_connection {pieces : List (List UInt8)} (outgoing : Nat)
    (h : ∀ piece ∈ pieces, 0 < piece.length ∧ piece.length < 2 ^ 31) :
    ∃ s, Incoming s pieces ∧ Flows s.writes outgoing := by
  obtain ⟨s, hincoming⟩ := exists_incoming h
  exact ⟨{ s with writes := List.replicate outgoing (.moves 1 (by decide) (by decide)) },
    ⟨hincoming.reads, hincoming.input⟩, flows_replicate _ _ _⟩

/-- Of three requests, the second asks to close the connection. -/
theorem handleClient_answers_two :
    ∃ (s : Stream) (raws : List HttpParser), raws.length = 3 ∧
      let run := HttpServer.handleClient (fun _ _ => false) { isKeepalive := true } 4096 raws s
      (run.1.map fun req => req.path) = [chars "/", chars "/a"] ∧ run.2.2.closed = true := by
  let first : HttpRequest := { close := false }
  let second : HttpRequest := { path := chars "/a" }
  have hsendable : first.Sendable false ∧ second.Sendable false := by
    have hlines :
      (∀ field ∈ first.lines false ++ second.lines false, (∀ c ∈ field.1, isNameChar c) ∧
        (∀ c ∈ field.2, isValueChar c) ∧ (field.2.head? ≠ some 32 ∧ field.2.head? ≠ some 9) ∧
          field.1 ≠ []) := by decide +kernel
    have hfit (field : List UInt8 × List UInt8)
        (hmem : field ∈ first.lines false ++ second.lines false) : HeaderLine field ∧
        field.1 ≠ [] := by
      obtain ⟨hname, hvalue, hstart, hne⟩ := hlines field hmem
      exact ⟨⟨hname, hvalue, hstart⟩, hne⟩
    exact ⟨⟨⟨by decide +kernel, .inr rfl, ⟨[], rfl, by decide, rfl⟩, rfl, rfl⟩,
        fun field h => (hfit field (List.mem_append_left _ h)).1,
        fun field h => (hfit field (List.mem_append_left _ h)).2, by simp [first]⟩,
      ⟨⟨by decide +kernel, .inr rfl, ⟨chars "a", by decide, by decide, by decide +kernel⟩,
        rfl, rfl⟩, fun field h => (hfit field (List.mem_append_right _ h)).1,
        fun field h => (hfit field (List.mem_append_right _ h)).2, by simp [second]⟩⟩
  have hfirst : (first.head false ++ []).length = 42 ∧ (first.head false).length = 42 := by
    decide +kernel
  have hsecond : (second.head false ++ []).length = 38 ∧ (second.head false).length = 38 := by
    decide +kernel
  let x : Arrival false 4096 :=
    { message := first.message false hsendable.1 false (by decide) (by omega) (by decide)
      surplus := [], later := [], text := rfl
      fits := hfirst.1.le.trans (by decide), short := hfirst.1.trans_lt (by decide) }
  let y : Arrival false 4096 :=
    { message := second.message false hsendable.2 false (by decide) (by omega) (by decide)
      surplus := [], later := [], text := rfl
      fits := hsecond.1.le.trans (by decide), short := hsecond.1.trans_lt (by decide) }
  let arrivals := [(HttpParser.fresh false, x), (.fresh false, y), (.fresh false, x)]
  let got :=
    [(first.received false).init, (second.received false).init, (first.received false).init]
  have hrequests : (arrivals.map fun arrival => arrival.2.request) = got := rfl
  have hpieces : ∀ piece ∈ arrivals.flatMap fun arrival => arrival.2.pieces,
      0 < piece.length ∧ piece.length < 2 ^ 31 := by
    intro piece hpiece
    have hmem : piece ∈ [first.head false ++ [], second.head false ++ [], first.head false ++ []] :=
      hpiece
    simp only [List.mem_cons, List.not_mem_nil, or_false] at hmem
    obtain rfl | rfl | rfl := hmem <;> omega
  obtain ⟨s, hincoming, hwrites⟩ := exists_connection 1000 hpieces
  let self : HttpServer := { isKeepalive := true }
  have hsize : ∀ req ∈ got, ((self.respond (fun _ _ => false) req).dump false).length < 2 ^ 64 := by
    decide +kernel
  have hroom : (self.answers (fun _ _ => false) got).length ≤ 1000 := by decide +kernel
  have hend : (self.served got).map (fun req => req.path) = [chars "/", chars "/a"] ∧
      got.any self.isLast = true := by decide +kernel
  obtain ⟨hrounds, -, -, -, hclosed⟩ :=
    HttpServer.handleClient_answers (fun _ _ => false) self (by decide) arrivals
      (by
        intro arrival harrival
        simp only [arrivals, List.mem_cons, List.not_mem_nil, or_false] at harrival
        obtain rfl | rfl | rfl := harrival <;> rfl)
      hincoming (List.forall_mem_map.mp (hrequests ▸ hsize)) (hrequests ▸ hwrites.weaken hroom)
  rw [hrequests] at hrounds hclosed
  refine ⟨s, arrivals.map Prod.fst, rfl, ?_, ?_⟩
  · rw [hrounds]
    exact hend.1
  · rw [hclosed, hend.2, Bool.or_true]

end

end Lyslg.Http
