import Lyslg.Http.ResponseRoundTrip
import Lyslg.Http.ResponseBody
import Lyslg.Support.Run
/-!
# Responses one after the other on a connection

A server prints responses onto a connection, and a client calls `recvResponse` for each.  The
reads may cut the bodies anywhere; a head comes in one read, which ends with its response at the
latest.
-/

namespace Lyslg.Http

open Support Support.Machine Support.Memory
open scoped ListMembers

/-! ## Reads of given pieces -/

/-- A loop whose length the pieces make up takes their reads and no more. -/
theorem fixLoop_brings {δ : Type} {io : Transfer δ} {start length : Nat} {I : Nat → δ → Prop}
    (hio : InOrder io start length length I) (hlen : length < 2 ^ 64) {events : List Event}
    (more : List Event) {pieces : List (List UInt8)} (h : Brings events pieces) {d : Nat}
    (hd : d + pieces.flatten.length = length) {dev : δ} (hdev : I d dev) :
    let run := fixLoop io length (events ++ more) d (length - d) dev
    run.status = .returned (int32 length) ∧ I length run.dev ∧ run.rest = more := by
  induction h generalizing d dev with
  | nil =>
      obtain rfl : d = length := hd
      rw [Nat.sub_self, fixLoop_done]
      exact ⟨rfl, hdev, rfl⟩
  | @cons ev piece events pieces hev hevents ih =>
      obtain ⟨hpos, hfits, rfl⟩ := hev
      rw [List.flatten_cons, List.length_append] at hd
      obtain ⟨c, dev', hcall, -, -, hresult, hnext⟩ :=
        hio.call (.moves piece.length hpos hfits) d dev (by omega) hdev
      have hmoved : c.result = (piece.length : Nat) := by
        rw [hresult]
        show ((min piece.length (min (length - d) (length - d)) : Nat) : Int) = _
        rw [Nat.min_self, Nat.min_eq_left (by omega)]
      have hdev' : I (d + piece.length) dev' := by
        have hkept := hnext (by omega)
        rwa [hmoved, Int.toNat_natCast] at hkept
      have hrest := ih (d := d + piece.length) (by omega) hdev'
      rw [List.cons_append, fixLoop_round (by omega) hcall,
        if_neg (by rw [hmoved, sizeT_natCast (by omega)]; omega), hmoved,
        addSize_moved (by omega), subSize_moved (by omega) (by omega), Nat.sub_sub]
      exact hrest

theorem Brings.split {events : List Event} {pieces later : List (List UInt8)}
    (h : Brings events (pieces ++ later)) :
    ∃ now more, events = now ++ more ∧ Brings now pieces ∧ Brings more later := by
  induction pieces generalizing events with
  | nil => exact ⟨[], events, rfl, .nil, h⟩
  | cons piece pieces ih =>
      obtain ⟨ev, events, hev, hrest, rfl⟩ := List.forall₂_cons_right_iff.mp h
      obtain ⟨now, more, rfl, hnow, hmore⟩ := ih hrest
      exact ⟨ev :: now, more, rfl, .cons hev hnow, hmore⟩

/-- A read brings at least one byte. -/
theorem Brings.eq_nil {events : List Event} {pieces : List (List UInt8)} (h : Brings events pieces)
    (hlength : pieces.flatten.length = 0) : pieces = [] := by
  cases h with
  | nil => rfl
  | cons hev _ =>
      obtain ⟨hpos, -⟩ := hev
      rw [List.flatten_cons, List.length_append] at hlength
      omega

/-- `readFixSize` of pieces that the next reads bring. -/
theorem readFixSize_brings {s : Stream} {pieces later : List (List UInt8)}
    (h : Incoming s (pieces ++ later)) {memory : List UInt8} (base : Nat) {length : Nat}
    (hfit : base + length ≤ memory.length) (hsize : memory.length < 2 ^ 64)
    (hlength : pieces.flatten.length = length) :
    let run := readFixSize s memory base length
    run.status = .returned (int32 length) ∧ run.dev.1.taken = s.taken + length ∧
      Incoming run.dev.1 later ∧
      run.dev.1 = { s with taken := s.taken + length, reads := run.dev.1.reads } := by
  obtain ⟨now, more, hreads, hnow, hmore⟩ := h.reads.split
  have hinput := h.input
  rw [List.flatten_append] at hinput
  have hstart : (s, memory) = received s memory base 0 := by simp [received]
  obtain ⟨hstatus, hdev, hrest⟩ := fixLoop_brings
    (inOrder_readTransfer s hfit hsize) (by omega) more hnow (by omega) hstart
  rw [← hreads, Nat.sub_zero] at hstatus hdev hrest
  unfold readFixSize
  simp only [hstatus, hdev, hrest, received, true_and, and_true]
  refine ⟨hmore, ?_⟩
  rw [← hlength]
  exact (window_split hinput).2

/-! ## What the client is given -/

/-- A response with the pieces of its text that the reads bring. -/
structure Delivery (buffSize : Nat) where
  response : ResponseMessage
  first : List UInt8
  later : List (List UInt8)
  textual : response.Textual
  named : ∀ header ∈ response.headers, header.1 ≠ []
  /-- the body is not announced as chunks -/
  plain : ∀ header ∈ response.headers, header.1.map toLower ≠ HttpClientParser.encodingName
  /-- the caller announces no body that is not there -/
  announced : response.body = [] →
    ∀ header ∈ response.headers, strcasecmpZero header.1 (chars "content-length") = false
  text : first ++ later.flatten = response.dump false
  /-- the head is in the first read -/
  whole : (response.head false).length ≤ first.length
  fits : first.length ≤ buffSize
  short : (response.dump false).length < 2 ^ 31

namespace Delivery

variable {buffSize : Nat}

def pieces (x : Delivery buffSize) : List (List UInt8) := x.first :: x.later

/-- What the first read brings of the body. -/
def surplus (x : Delivery buffSize) : List UInt8 := x.first.drop (x.response.head false).length

theorem first_eq (x : Delivery buffSize) : x.first = x.response.head false ++ x.surplus := by
  have htext := x.text
  rw [x.response.dump_eq_head] at htext
  have hfront : x.first <+: x.response.head false ++ x.response.body := by
    rw [← htext]
    exact List.prefix_append _ _
  obtain ⟨rest, hrest⟩ := List.prefix_of_prefix_length_le (List.prefix_append _ _) hfront x.whole
  rw [surplus, ← hrest, List.drop_left]

theorem body_eq (x : Delivery buffSize) : x.response.body = x.surplus ++ x.later.flatten := by
  have htext := x.text
  rw [x.response.dump_eq_head, x.first_eq, List.append_assoc] at htext
  exact (List.append_cancel_left htext).symm

/-- The headers tell the length of the body. -/
theorem contentLength (x : Delivery buffSize) {parser : HttpResponseParser}
    (h : x.response.Recovered false parser.data) :
    parser.getContentLength = x.response.body.length := by
  have hshort := x.short
  rw [x.response.dump_eq_head, List.length_append] at hshort
  unfold HttpResponseParser.getContentLength
  rw [h.headers]
  by_cases hbody : x.response.body = []
  · have hnone : ∀ field ∈ (x.response.fields false).reverse,
        strcasecmpZero field.1 (chars "content-length") = false := by
      intro field hfield
      have hcookie : strcasecmpZero (chars "Set-Cookie") (chars "content-length") =
          false := by decide
      have hconnection : strcasecmpZero (chars "connection") (chars "content-length") = false := by
        decide
      simp only [ResponseMessage.fields, hbody, List.mem_reverse, List.mem_append, List.mem_filter,
        List.mem_map, ne_eq, not_true_eq_false, if_false, Bool.false_eq_true, List.mem_singleton,
        List.not_mem_nil, or_false] at hfield
      obtain (⟨hheader, -⟩ | ⟨cookie, -, rfl⟩) | rfl := hfield
      · exact x.announced hbody field hheader
      · exact hcookie
      · exact hconnection
    rw [Headers.find_eq_none hnone, hbody]
    rfl
  · have hpos : 0 < x.response.body.length := List.length_pos_iff.mpr hbody
    have hself : strcasecmpZero (chars "content-length") (chars "content-length") =
        true := by decide
    have hlast : Headers.find (x.response.fields false).reverse (chars "content-length") =
        some (dumpNat x.response.body.length) := by
      unfold ResponseMessage.fields
      rw [if_pos hbody, List.reverse_append, List.reverse_append, List.reverse_singleton,
        List.singleton_append, List.cons_append, Headers.find_cons, if_pos hself]
    rw [hlast, Option.bind_some, lexicalCast_dumpNat hpos (by omega)]
    rfl

end Delivery

/-! ## One call -/

namespace RecvState

variable {buffSize : Nat} {s : RecvState} {stream : Stream} {later : List (List UInt8)}

/-- The first read. -/
theorem next_first (hbuff : buffSize < 2 ^ 31) {first : List UInt8}
    (hfits : first.length ≤ buffSize)
    (h : Incoming stream (first :: later)) (raw : HttpClientParser) :
    ∃ t : RecvState, t.phase = .parse false first ∧ t.parser = .new raw ∧
      (start raw stream).next buffSize = t ∧ Incoming t.stream later ∧
      t.stream.taken = stream.taken + first.length := by
  obtain ⟨hpos, hint, events, hreads, hwindow, hrest⟩ := h.cons
  have hroom : subSize buffSize ([] : List UInt8).length = buffSize :=
    subSize_of_le (by omega) (Nat.zero_le _)
  have hnext : (start raw stream).next buffSize = (start raw stream).read buffSize false [] := rfl
  have hstream : (start raw stream).stream = stream := rfl
  have hresult : Event.result buffSize (.moves first.length hpos hint) = (first.length : Int) := by
    show ((min first.length buffSize : Nat) : Int) = _
    rw [Nat.min_eq_left hfits]
  simp only [read, receive, hstream, hreads, hroom, hresult, Int.toNat_natCast, hwindow,
    List.nil_append] at hnext
  rw [if_neg (by omega), if_pos (by simp only [List.length_nil]; omega)] at hnext
  exact ⟨_, rfl, rfl, hnext, hrest, rfl⟩

/-- `execute` of a whole head; what is behind it in the buffer is left for the body. -/
theorem next_parsed (hbuff : buffSize < 2 ^ 31) {head surplus : List UInt8} (hne : head ≠ [])
    (hfits : (head ++ surplus).length ≤ buffSize) {parser : HttpResponseParser}
    (hphase : s.phase = .parse false (head ++ surplus))
    (hexec : s.parser.execute (head ++ surplus) false = .ok (parser, head.length))
    (hfinished : parser.isFinished = true) (herror : parser.hasError = false)
    (hchunked : parser.parser.chunked = false) :
    ∃ ops, s.next buffSize = { s with parser := parser, ops := ops }.content
      (int64 parser.getContentLength) surplus := by
  have hpos : 0 < head.length := List.length_pos_iff.mpr hne
  rw [List.length_append] at hfits
  have hwhole : head.length ≤ (head ++ surplus).length := by
    rw [List.length_append]
    omega
  have hroom : ¬ (surplus.length : Int) = int32 buffSize := by
    rw [int32_natCast hbuff]
    omega
  have hnext : s.next buffSize = s.parse buffSize false (head ++ surplus) := by
    simp only [next, hphase]
  simp only [parse, hexec, if_neg (not_lt.mpr hwhole), herror, hfinished, hchunked,
    Bool.false_eq_true, if_false, Bool.not_true, List.drop_left] at hnext
  rw [if_neg hroom] at hnext
  exact ⟨_, hnext⟩

variable (later) in
/-- The bytes of the body that the first read did not bring. -/
theorem content_delivers (x : Delivery buffSize) (h : Incoming s.stream (x.later ++ later)) :
    let t := s.content x.response.body.length x.surplus
    t.phase = .ended (.returned (some s.parser.data)) ∧ Incoming t.stream later ∧
      t.stream.taken = s.stream.taken + x.later.flatten.length := by
  have hbody := congrArg List.length x.body_eq
  rw [List.length_append] at hbody
  have hshort := x.short
  rw [x.response.dump_eq_head, List.length_append] at hshort
  obtain ⟨now, more, -, hnow, -⟩ := h.reads.split
  unfold content
  by_cases hempty : x.response.body.length = 0
  · have hall := hnow.eq_nil (by omega)
    rw [hall] at h ⊢
    simp only [hempty]
    exact ⟨rfl, h, rfl⟩
  · simp only [Nat.cast_pos, Nat.pos_of_ne_zero hempty, if_true, Int.toNat_natCast,
      if_pos (Int.ofNat_le.mpr (by omega : x.surplus.length ≤ x.response.body.length))]
    by_cases hleft : x.later.flatten.length = 0
    · have hall := hnow.eq_nil hleft
      rw [hall] at h ⊢
      rw [if_neg (by omega)]
      exact ⟨rfl, h, rfl⟩
    · rw [if_pos (by omega)]
      have hlength : x.later.flatten.length = x.response.body.length - x.surplus.length := by omega
      have hmemory : (splice (List.replicate x.response.body.length 0) 0
          (x.surplus.take x.surplus.length)).length = x.response.body.length := by
        rw [length_splice _ _ _ (by simp; omega), List.length_replicate]
      have hcount : ((x.response.body.length : Int) - x.surplus.length).toNat =
          x.response.body.length - x.surplus.length := by omega
      obtain ⟨hstatus, htaken, hrest, -⟩ := readFixSize_brings h
        x.surplus.length (by rw [hmemory]; omega) (by rw [hmemory]; omega) hlength
      rw [hcount]
      simp only [hstatus]
      rw [int32_natCast (by omega), if_neg (by omega)]
      refine ⟨rfl, hrest, ?_⟩
      rw [hlength]
      exact htaken

/-- The call ends with the response, and with the reads behind its text. -/
theorem next_parse (hbuff : buffSize < 2 ^ 31) (x : Delivery buffSize) {raw : HttpClientParser}
    (hphase : s.phase = .parse false x.first) (hparser : s.parser = .new raw)
    (h : Incoming s.stream (x.later ++ later)) :
    ∃ response, (s.next buffSize).phase = .ended (.returned (some response)) ∧
      x.response.Recovered false response ∧ Incoming (s.next buffSize).stream later ∧
      (s.next buffSize).stream.taken = s.stream.taken + x.later.flatten.length := by
  have hshort := x.short
  rw [x.response.dump_eq_head, List.length_append] at hshort
  have hfits := x.fits
  obtain ⟨parser, hexec, hfinished, herror, hrecovered, hplain⟩ :=
    execute_response x.textual x.named (last_response x.response) x.first_eq (by omega) raw
  have hchunked : parser.parser.chunked = false := by
    have hcookie : (chars "Set-Cookie").map toLower ≠ HttpClientParser.encodingName := by decide
    have hconnection : (chars "connection").map toLower ≠ HttpClientParser.encodingName := by decide
    have hlength : (chars "content-length").map toLower ≠ HttpClientParser.encodingName := by decide
    exact hplain (forall_fields_response x.plain (fun _ _ => hcookie) hconnection hlength)
  have hlong := x.response.length_head false
  have hnonempty : x.response.head false ≠ [] := List.length_pos_iff.mp (by omega)
  have hlength : int64 (x.response.body.length : Int) = x.response.body.length :=
    int64_natCast (by omega)
  rw [x.first_eq] at hphase hfits hexec
  obtain ⟨ops, hnext⟩ := next_parsed hbuff hnonempty hfits hphase (by rw [hparser]; exact hexec)
    hfinished herror hchunked
  rw [x.contentLength hrecovered, hlength] at hnext
  have hcontent := content_delivers later x (s := { s with parser := parser, ops := ops }) h
  rw [hnext]
  exact ⟨parser.data, hcontent.1, hrecovered, hcontent.2.1, hcontent.2.2⟩

end RecvState

/-! ## All calls -/

/-- A call of `recvResponse` that takes the stream on; `call.1` is what the memory of its
`httpclient_parser` held before, and `call.2` what it returns. -/
def Answered (buffSize : Nat) (s : Stream) (call : HttpClientParser × HttpResponse) (t : Stream) :
    Prop :=
  ∃ n, let last := RecvState.after buffSize call.1 s n
    last.phase = .ended (.returned (some call.2)) ∧ last.stream = t

theorem receives_one {buffSize : Nat} (hbuff : buffSize < 2 ^ 31) (x : Delivery buffSize)
    (raw : HttpClientParser) {s : Stream} {later : List (List UInt8)}
    (h : Incoming s (x.pieces ++ later)) :
    ∃ response t, Answered buffSize s (raw, response) t ∧ x.response.Recovered false response ∧
      Incoming t later ∧ t.taken = s.taken + (x.response.dump false).length := by
  obtain ⟨second, hphase, hparser, hnext, hincoming, htaken⟩ :=
    RecvState.next_first hbuff x.fits h raw
  obtain ⟨response, hended, hrecovered, hlater, hall⟩ :=
    RecvState.next_parse hbuff x hphase hparser hincoming
  refine ⟨response, _, ⟨2, ?_, rfl⟩, hrecovered, ?_, ?_⟩
  all_goals
    simp only [RecvState.after, Function.iterate_succ_apply, Function.iterate_zero_apply, hnext]
  · exact hended
  · exact hlater
  · rw [hall, htaken, ← x.text, List.length_append, Nat.add_assoc]

theorem receives_all {buffSize : Nat} (hbuff : buffSize < 2 ^ 31)
    (calls : List (HttpClientParser × Delivery buffSize)) {s : Stream} {later : List (List UInt8)}
    (h : Incoming s ((calls.flatMap fun call => call.2.pieces) ++ later)) :
    ∃ responses t, Run (Answered buffSize) s ((calls.map Prod.fst).zip responses) t ∧
      List.Forall₂ (fun call response => call.2.response.Recovered false response) calls responses ∧
      Incoming t later ∧
      t.taken = s.taken + (calls.map fun call => (call.2.response.dump false).length).sum := by
  induction calls generalizing s with
  | nil => exact ⟨[], s, .nil s, .nil, h, rfl⟩
  | cons call calls ih =>
      obtain ⟨raw, x⟩ := call
      rw [List.flatMap_cons, List.append_assoc] at h
      obtain ⟨response, t, hone, hrecovered, hlater, htaken⟩ := receives_one hbuff x raw h
      obtain ⟨responses, u, hrun, hall, hrest, hend⟩ := ih hlater
      refine ⟨response :: responses, u, .cons hone hrun, .cons hrecovered hall, hrest, ?_⟩
      rw [hend, htaken, List.map_cons, List.sum_cons, Nat.add_assoc]

/-- The client gets the responses that the server printed, each whole and in their order, and
leaves nothing of them on the connection. -/
theorem receives_responses {buffSize : Nat} (hbuff : buffSize < 2 ^ 31)
    (calls : List (HttpClientParser × Delivery buffSize)) {s : Stream}
    (h : Incoming s (calls.flatMap fun call => call.2.pieces)) :
    ∃ responses t, Run (Answered buffSize) s ((calls.map Prod.fst).zip responses) t ∧
      List.Forall₂ (fun call response => call.2.response.Recovered false response) calls responses ∧
      t.reads = [] ∧
      t.taken = s.taken + (calls.map fun call => (call.2.response.dump false).length).sum := by
  rw [← List.append_nil (calls.flatMap _)] at h
  obtain ⟨responses, t, hrun, hall, hlater, htaken⟩ := receives_all hbuff calls h
  have hreads : t.reads = [] := List.forall₂_nil_right_iff.mp hlater.reads
  exact ⟨responses, t, hrun, hall, hreads, htaken⟩

/-- A stream whose reads bring given pieces. -/
theorem exists_incoming {pieces : List (List UInt8)}
    (h : ∀ piece ∈ pieces, 0 < piece.length ∧ piece.length < 2 ^ 31) : ∃ s, Incoming s pieces := by
  have hbrings : ∃ events, Brings events pieces := by
    induction pieces with
    | nil => exact ⟨[], .nil⟩
    | cons piece pieces ih =>
        obtain ⟨⟨hpos, hfits⟩, hrest⟩ := List.forall_mem_cons.mp h
        obtain ⟨events, hevents⟩ := ih hrest
        exact ⟨.moves piece.length hpos hfits :: events, .cons ⟨hpos, hfits, rfl⟩ hevents⟩
  obtain ⟨events, hevents⟩ := hbrings
  exact ⟨{ Stream.ofBytes pieces.flatten 0 with reads := events }, hevents,
    (ready_ofBytes pieces.flatten 0).input⟩

/-- A response whose body comes in three reads, and one without a body. -/
theorem receives_responses_two :
    let one : ResponseMessage := { body := chars "abc" }
    let two : ResponseMessage := { status := 404, close := false }
    ∃ s responses t, Run (Answered 4096) s ([.fresh, .fresh].zip responses) t ∧
      List.Forall₂ (fun r response => r.Recovered false response) [one, two] responses ∧
      t.taken = s.taken + ((one.dump false).length + (two.dump false).length) := by
  intro one two
  have hone : one.Textual :=
    ⟨.inr rfl, by decide, by simp [one], by simp [one], by simp [one]⟩
  have htwo : two.Textual :=
    ⟨.inr rfl, by decide, by simp [two], by simp [two], by simp [two]⟩
  let x : Delivery 4096 :=
    { response := one, first := one.head false ++ [97], later := [[98], [99]]
      textual := hone, named := by simp [one], plain := by simp [one], announced := by simp [one]
      text := by decide +kernel, whole := by decide +kernel, fits := by decide +kernel
      short := by decide +kernel }
  let y : Delivery 4096 :=
    { response := two, first := two.head false, later := []
      textual := htwo, named := by simp [two], plain := by simp [two], announced := by simp [two]
      text := by decide +kernel, whole := le_rfl, fits := by decide +kernel
      short := by decide +kernel }
  have hx : (one.head false).length = 57 := by decide +kernel
  have hy : (two.head false).length = 50 := by decide +kernel
  obtain ⟨s, hincoming⟩ : ∃ s, Incoming s ([(HttpClientParser.fresh, x), (.fresh, y)].flatMap
      fun call => call.2.pieces) := by
    apply exists_incoming
    simp [Delivery.pieces, x, y, hx, hy]
  obtain ⟨responses, t, hrun, hall, -, htaken⟩ :=
    receives_responses (by decide) [(HttpClientParser.fresh, x), (.fresh, y)] hincoming
  refine ⟨s, responses, t, hrun, ?_, by simpa [x, y] using htaken⟩
  have hrecovered := (List.forall₂_map_left_iff (R := fun r response => r.Recovered false response)
    (f := fun call : HttpClientParser × Delivery 4096 => call.2.response)).mpr hall
  exact hrecovered

end Lyslg.Http
