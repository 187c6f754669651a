import Lyslg.Http.ResponseRoundTrip
import Lyslg.Uri.Model
/-!
# The requests of the client

What `HttpConnection::DoRequest` and `HttpConnectionPool::doRequest` make of their arguments and
send, and what `recvRequest` makes of it on the other side.
-/

namespace Lyslg.Http

open Http11 Support Support.Machine Support.Memory
open scoped ListMembers

/-! ## The text of any request -/

namespace HttpRequest

/-- The header lines of the text. -/
def lines (r : HttpRequest) (websocket : Bool) : Headers :=
  (if websocket then []
    else [(chars "connection", chars (if r.close then "close" else "keep-alive"))]) ++
    (r.headers.filter fun header => websocket || !strcasecmpZero header.1 (chars "connection")) ++
    if r.body ≠ [] then [(chars "content-length", dumpNat r.body.length)] else []

/-- The text up to the body. -/
def head (r : HttpRequest) (websocket : Bool) : List UInt8 :=
  r.requestLine ++ (r.lines websocket).flatMap dumpHeader ++ chars "\r\n"

/-- What the parser makes of the text. -/
def received (r : HttpRequest) (websocket : Bool) : HttpRequest :=
  { ({} : HttpRequest) with
    method := r.method, path := r.path, query := r.query, fragment := r.fragment
    version := r.version
    headers := (r.lines websocket).foldl (fun m field => m.set field.1 field.2) [] }

theorem dump_eq_head (r : HttpRequest) (websocket : Bool) :
    r.dump websocket = r.head websocket ++ r.body := by
  have hheaders : (r.headers.flatMap fun header =>
      if !websocket && strcasecmpZero header.1 (chars "connection") then [] else
        dumpHeader header) =
        (r.headers.filter fun header =>
          websocket || !strcasecmpZero header.1 (chars "connection")).flatMap dumpHeader := by
    induction r.headers with
    | nil => rfl
    | cons header headers ih =>
        rw [List.flatMap_cons, ih, List.filter_cons]
        cases websocket <;> cases strcasecmpZero header.1 (chars "connection") <;>
          simp
  have hconnection : chars "connection: " = chars "connection" ++ chars ": " := by decide
  have hlength : chars "content-length: " = chars "content-length" ++ chars ": " := by decide
  have htwice : chars "\r\n\r\n" = chars "\r\n" ++ chars "\r\n" := by decide
  have hversion : chars " HTTP/" = [32] ++ chars "HTTP/" := by decide
  have hspace : chars " " = [32] := by decide
  unfold HttpRequest.dump head requestLine lines
  rw [hheaders, hconnection, hversion, hspace]
  by_cases hbody : r.body = [] <;> cases websocket
  all_goals
    simp [hbody, dumpTarget, dumpPathQuery, dumpVersion, dumpHeader, hlength, htwice, chars_newline]

variable {r : HttpRequest} {websocket : Bool}

/-- The machine over the head. -/
theorem exec_head (h : r.LineText) (hlines : ∀ field ∈ r.lines websocket, HeaderLine field)
    (hnamed : ∀ field ∈ r.lines websocket, field.1 ≠ [])
    (hsize : (r.head websocket).length < 2 ^ 63)
    {a : HttpParser} (hcs : a.cs = 1) :
    ∃ (b : HttpParser) (calls : List Call),
      a.exec 0 (r.head websocket) = (b, (r.head websocket).length, calls) ∧ b.cs = 348 ∧
      (∀ c ∈ calls, c.throws = false ∧ c.refusal (r.head websocket) = none) ∧
      calls.foldl (Call.fill (r.head websocket)) {} = r.received websocket := by
  have hnewline : (chars "\r\n").length = 2 := by decide
  have hlength : (r.head websocket).length =
      (r.requestLine ++ (r.lines websocket).flatMap dumpHeader).length + 2 := by
    unfold head
    rw [List.length_append, hnewline]
  have htext : r.head websocket = (r.requestLine ++ (r.lines websocket).flatMap dumpHeader) ++
      13 :: 10 :: [] := by
    rw [head, chars_newline]
  have hat : At (r.head websocket) 0 (r.requestLine ++ (r.lines websocket).flatMap dumpHeader) := by
    rw [htext]
    exact at_prefix _ _
  rw [hlength] at hsize ⊢
  rw [List.length_append] at hsize
  generalize r.head websocket = text at *
  obtain ⟨hline, hfields⟩ := at_append.mp hat
  have hshort : r.requestLine.length < 2 ^ 63 := by omega
  obtain ⟨b, hb, hfirst⟩ : ∃ b, b.cs = 13 ∧ Fills text 0 r.requestLine a b {}
      { ({} : HttpRequest) with
        method := r.method, path := r.path, query := r.query, fragment := r.fragment
        version := r.version } := fills_requestLine h hline hshort hcs
  obtain ⟨b', hb', hsecond⟩ := fills_fields hlines hnamed hfields (by omega) hb
  obtain ⟨calls, hwalk, hfine, hfill⟩ := (hfirst.append hsecond).exists_calls
  obtain ⟨b'', hb'', hend⟩ := exec_blankLine hb' []
    (0 + (r.requestLine ++ (r.lines websocket).flatMap dumpHeader).length)
  have hexec := hwalk.exec_append (13 :: 10 :: [])
  rw [hend, List.append_nil, ← htext, ← HttpParser.exec_eq_scan, Nat.zero_add] at hexec
  exact ⟨b'', calls, hexec, hb'', hfine, hfill⟩

/-- The parser takes the whole head, and makes the request of it. -/
theorem head_accepted (h : r.LineText) (hlines : ∀ field ∈ r.lines websocket, HeaderLine field)
    (hnamed : ∀ field ∈ r.lines websocket, field.1 ≠ [])
    (hsize : (r.head websocket).length < 2 ^ 63)
    (relaxed : Bool) : Accepted relaxed (r.head websocket) ∧
      headRequest relaxed (r.head websocket) = some (r.received websocket) := by
  have hne : r.head websocket ≠ [] := by
    have hnewline : chars "\r\n" ≠ [] := by decide
    simp [head, hnewline]
  obtain ⟨b, calls, hexec, hcs, hfine, hfill⟩ := exec_head h hlines hnamed hsize
    (a := { HttpParser.fresh relaxed with mark := 0, fieldLen := 0, fieldStart := 0 }) rfl
  have hrun : (HttpParser.fresh relaxed).execute (r.head websocket) =
      (b, (r.head websocket).length, calls) := by
    rw [execute_eq_exec hne, hexec]
  have hthrows : calls.any Call.throws = false := by
    rw [List.any_eq_false]
    exact fun c hc => Bool.eq_false_iff.mp (hfine c hc).1
  have herror := (foldl_refusal_eq_zero (r.head websocket) calls 0).mpr
    ⟨rfl, fun c hc => (hfine c hc).2⟩
  refine ⟨?_, ?_⟩
  · unfold Accepted
    rw [hrun]
    exact ⟨hcs, rfl⟩
  · have hnew : (HttpRequestParser.new (.fresh relaxed)).parser = .fresh relaxed := rfl
    unfold headRequest HttpRequestParser.execute
    simp only [hnew, hrun, HttpRequestParser.foldlM_callback, hthrows, Bool.false_eq_true, if_false]
    simp [HttpRequestParser.hasError, HttpParser.hasError, HttpRequestParser.new,
      herror, hcs, hfill]

/-- A request whose text the server can read. -/
structure Sendable (r : HttpRequest) (websocket : Bool) : Prop where
  line : r.LineText
  lines : ∀ field ∈ r.lines websocket, HeaderLine field
  named : ∀ field ∈ r.lines websocket, field.1 ≠ []
  /-- the caller announces no body that is not there -/
  announced : r.body = [] →
    ∀ header ∈ r.headers, strcasecmpZero header.1 (chars "content-length") = false

theorem received_find (r : HttpRequest) (websocket : Bool) (key : List UInt8) :
    (r.received websocket).headers.find key = Headers.find (r.lines websocket).reverse key :=
  Headers.find_fields (r.lines websocket) key

/-- The headers tell the length of the body. -/
theorem received_contentLength (h : r.Sendable websocket) (hsize : r.body.length < 2 ^ 64) :
    (r.received websocket).contentLength = r.body.length := by
  unfold contentLength getHeaderAsU64
  rw [received_find]
  by_cases hbody : r.body = []
  · have hconnection : strcasecmpZero (chars "connection") (chars "content-length") = false := by
      decide
    have hnone : ∀ field ∈ (r.lines websocket).reverse,
        strcasecmpZero field.1 (chars "content-length") = false := by
      intro field hfield
      simp only [lines, hbody, List.mem_reverse, List.mem_append, List.mem_filter, ne_eq,
        not_true_eq_false, if_false, List.not_mem_nil, or_false] at hfield
      obtain hown | ⟨hheader, -⟩ := hfield
      · split at hown
        · cases hown
        · rw [List.mem_singleton.mp hown]
          exact hconnection
      · exact h.announced hbody field hheader
    rw [Headers.find_eq_none hnone, hbody]
    rfl
  · have hpos : 0 < r.body.length := List.length_pos_iff.mpr hbody
    have hself : strcasecmpZero (chars "content-length") (chars "content-length") =
        true := by decide
    have hlast : Headers.find (r.lines websocket).reverse (chars "content-length") =
        some (dumpNat r.body.length) := by
      unfold lines
      rw [if_pos hbody, List.reverse_append, List.reverse_singleton, List.singleton_append,
        Headers.find_cons, if_pos hself]
    rw [hlast, Option.bind_some, lexicalCast_dumpNat hpos hsize]
    rfl

/-- The text of a request as a message to the server. -/
def message (r : HttpRequest) (websocket : Bool) (h : r.Sendable websocket) (relaxed : Bool)
    {buffSize : Nat} (hbuff : buffSize < 2 ^ 31) (hshort : (r.head websocket).length < buffSize)
    (hbody : r.body.length < 2 ^ 64) : Message relaxed buffSize where
  head := r.head websocket
  body := r.body
  request := r.received websocket
  accepted := (head_accepted h.line h.lines h.named (by omega) relaxed).1
  short := hshort
  parsed := (head_accepted h.line h.lines h.named (by omega) relaxed).2
  length_eq := received_contentLength h hbody

/-- The next read brings the head, and the reads bring the text and nothing behind it with the
head. -/
structure Arrives (r : HttpRequest) (websocket : Bool) (buffSize : Nat) (s : Stream) : Prop where
  input : window s.input s.taken (r.dump websocket).length = r.dump websocket
  head : ((r.head websocket).length : Int) ≤ (s.reads.head?.map (Event.result buffSize)).getD 0
  text : (s.reads.head?.map (Event.result buffSize)).getD 0 ≤ (r.dump websocket).length
  body : Delivers s.reads.tail
    ((r.dump websocket).length - ((s.reads.head?.map (Event.result buffSize)).getD 0).toNat)

/-- `recvRequest` on the text of a request. -/
theorem recvRequest_dump (h : r.Sendable websocket) {buffSize : Nat} (hbuff : buffSize < 2 ^ 31)
    (hshort : (r.head websocket).length < buffSize) (hsize : (r.dump websocket).length < 2 ^ 31)
    {s : Stream} (harrives : r.Arrives websocket buffSize s) (raw : HttpParser) :
    let run := recvRequest buffSize raw s
    run.1 = .returned (some (r.received websocket).init) ∧ run.2.input = s.input ∧
      run.2.taken = s.taken + (r.dump websocket).length := by
  have htext := congrArg List.length (r.dump_eq_head websocket)
  rw [List.length_append] at htext
  obtain ⟨hinput, hhead, hwithin, hdelivers⟩ := harrives
  rw [r.dump_eq_head] at hinput
  let m := r.message websocket h raw.uriRelaxed hbuff hshort (by omega)
  have hpos : 0 < (r.head websocket).length := m.head_pos
  have hroom : (s.reads.head?.map (Event.result buffSize)).getD 0 ≤ buffSize := by
    cases s.reads with
    | nil => exact Int.natCast_nonneg buffSize
    | cons ev events => exact ev.result_le buffSize
  have hsurplus : surplusOf m s =
      ((s.reads.head?.map (Event.result buffSize)).getD 0 - (r.head websocket).length).toNat := rfl
  have harriving : Arriving m s := by
    refine ⟨hhead, ?_⟩
    have hleft : m.body.length - surplusOf m s = (r.dump websocket).length -
        ((s.reads.head?.map (Event.result buffSize)).getD 0).toNat := by
      have hbody : m.body.length = r.body.length := rfl
      omega
    rw [hleft]
    exact hdelivers
  have hcontained : Contained m (surplusOf m s) := by
    have hbody : m.body.length = r.body.length := rfl
    constructor
    · rw [int32_natCast hbuff]
      omega
    · by_cases hall : surplusOf m s = m.body.length
      · exact .inl hall
      · refine .inr ⟨by omega, by omega, ?_⟩
        rw [int32_natCast (by omega)]
        omega
  obtain ⟨hiff, hsame⟩ := recvRequest_receives (m := m) (by omega)
    (rfl : raw.uriRelaxed = raw.uriRelaxed) (window_split hinput).1 harriving
  have hreceives := hiff.mpr hcontained
  refine ⟨hreceives.outcome, hsame hcontained, hreceives.taken.trans ?_⟩
  rw [r.dump_eq_head]
  rfl

end HttpRequest

end Lyslg.Http
