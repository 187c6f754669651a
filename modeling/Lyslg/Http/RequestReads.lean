import Lyslg.Http.CutParts
/-!
# How the reads cut a request

`recvRequest_reads` compares a head that arrives in several reads with the same head in one
read.
-/

namespace Lyslg.Http

open Http11 Support.Machine Support.Memory

/-! ## The outcome of the call -/

/-- The request the outcome tells of. -/
def Outcome.parsed : Outcome → Option HttpRequest
  | .returned request | .waits request => request
  | _ => none

/-- A request before `init` and the body. -/
def HttpRequest.bare (r : HttpRequest) : HttpRequest := { r with close := true, body := [] }

/-- The call when the loop comes to a result. -/
def answer (surplus : List UInt8) (s : Stream) : Except Outcome HttpRequest → Outcome × Stream
  | .error outcome => (outcome, s)
  | .ok data => recvBody (int64 data.contentLength) data surplus s

theorem recvRequest_ok {buffSize : Nat} {raw : HttpParser} {s t : Stream} {surplus : List UInt8}
    {parser : HttpRequestParser}
    (h : recvHead buffSize s.reads [] (.new raw) s = (.ok (parser, surplus), t)) :
    recvRequest buffSize raw s = answer surplus t (.ok parser.data) := by
  unfold recvRequest
  rw [h]
  rfl

theorem recvRequest_error {buffSize : Nat} {raw : HttpParser} {s : Stream} {outcome : Outcome}
    (h : (recvHead buffSize s.reads [] (.new raw) s).1 = .error outcome) :
    (recvRequest buffSize raw s).1 = outcome := by
  unfold recvRequest
  generalize recvHead buffSize s.reads [] (.new raw) s = run at h
  obtain ⟨result, t⟩ := run
  simp only at h
  rw [h]

theorem Reaches.answer {buffSize : Nat} {raw : HttpParser} {s t : Stream} {surplus : List UInt8}
    {result : Except Outcome HttpRequest}
    (h : Reaches (recvHead buffSize s.reads [] (.new raw) s) surplus t result) :
    (recvRequest buffSize raw s).1 = (answer surplus t result).1 := by
  cases result with
  | error outcome => exact recvRequest_error h
  | ok data =>
      obtain ⟨parser, rfl, hrun⟩ := h
      rw [recvRequest_ok hrun]

theorem HttpRequest.bare_init (r : HttpRequest) : r.init.bare = r.bare := by
  unfold HttpRequest.init
  simp only
  split <;> rfl

/-- With no more reads, a call that has a request returns it or waits for its body. -/
theorem parsed_recvBody (length : Int) (data : HttpRequest) (surplus : List UInt8) {s : Stream}
    (hreads : s.reads = []) :
    (recvBody length data surplus s).1.parsed.map HttpRequest.bare = some data.bare := by
  unfold recvBody
  simp only
  split
  · split
    · rename_i hleft
      have hblocked (memory : List UInt8) (base : Nat) :
          (readFixSize s memory base (length - surplus.length).toNat).status = .blocked := by
        unfold readFixSize
        rw [hreads]
        exact congrArg FixRun.status (fixLoop_blocked _ _ 0 _ (by omega))
      rw [hblocked]
      rfl
    · exact congrArg some (HttpRequest.bare_init _)
  · exact congrArg some (HttpRequest.bare_init _)

/-- The results that the parts of a head can have. -/
def Settled : Except Outcome HttpRequest → Prop
  | .error outcome => outcome.parsed = none
  | .ok data => data.bare = data

/-- The outcomes of all continuations tell the result of the loop. -/
theorem answer_inj {surplus : List UInt8} {s : Stream} {result result' : Except Outcome HttpRequest}
    (hreads : s.reads = []) (hsettled : Settled result) (hsettled' : Settled result')
    (h : (answer surplus s result).1 = (answer surplus s result').1) : result = result' := by
  have hparsed (data : HttpRequest) :
      (answer surplus s (.ok data)).1.parsed.map HttpRequest.bare = some data.bare :=
    parsed_recvBody (int64 data.contentLength) data surplus hreads
  have hsame := congrArg (fun outcome => outcome.parsed.map HttpRequest.bare) h
  cases result with
  | error outcome =>
      cases result' with
      | error outcome' => exact congrArg Except.error h
      | ok data' =>
          simp only [hparsed] at hsame
          rw [answer, show outcome.parsed = none from hsettled] at hsame
          cases hsame
  | ok data =>
      cases result' with
      | error outcome' =>
          simp only [hparsed] at hsame
          rw [answer, show outcome'.parsed = none from hsettled'] at hsame
          cases hsame
      | ok data' =>
          simp only [hparsed, Option.some.injEq] at hsame
          rw [show data.bare = data from hsettled, show data'.bare = data' from hsettled'] at hsame
          rw [hsame]

/-! ## Heads -/

/-- The machine before a head. -/
def HttpParser.fresh (relaxed : Bool) : HttpParser := HttpParser.init ⟨0, 0, 0, 0, 0, relaxed⟩

/-- `http_parser_execute` takes all of the head and finishes the request. -/
def Accepted (relaxed : Bool) (head : List UInt8) : Prop :=
  let run := (HttpParser.fresh relaxed).execute head
  run.1.cs = 348 ∧ run.2.1 = head.length

instance (relaxed : Bool) (head : List UInt8) : Decidable (Accepted relaxed head) :=
  inferInstanceAs (Decidable (_ ∧ _))

/-- The callbacks for a head in one buffer. -/
def headCalls (relaxed : Bool) (head : List UInt8) : List Call :=
  ((HttpParser.fresh relaxed).execute head).2.2

theorem Accepted.accepts {relaxed : Bool} {head : List UInt8} (h : Accepted relaxed head) :
    Accepts (HttpParser.fresh relaxed) 0 head (headCalls relaxed head) := by
  obtain ⟨hcs, hall⟩ := h
  have hne : head ≠ [] := by
    rintro rfl
    cases hcs
  unfold headCalls
  rw [execute_eq_exec hne] at hcs hall ⊢
  exact accepts_of_exec hne hcs (hall.trans (Nat.zero_add _).symm)

theorem Accepted.midway {relaxed : Bool} {head : List UInt8} (h : Accepted relaxed head)
    (hsize : head.length < 2 ^ 63) {parts : Parts} (hcalls : headCalls relaxed head = parts.calls)
    (hwithin : parts.Within head) {raw : HttpParser} (hraw : raw.uriRelaxed = relaxed)
    (all : List (List UInt8)) :
    Midway head all [] head parts.calls (HttpParser.fresh relaxed)
      (HttpRequestParser.new raw) where
  head_eq := rfl
  accepts := hcalls ▸ h.accepts
  cs_lt := (by decide : 1 < 348)
  lies := hwithin.lies
  ordered := hwithin.ordered hsize
  error := rfl
  tracks :=
    { cs := rfl
      uriRelaxed := hraw
      mark := rfl
      fieldStart := rfl
      fieldLen := fun h => by cases h
      query := fun h => by cases h }
  placed := Placed.init _

/-! ## All ways to cut a head -/

theorem Arrives.flatten_eq {head surplus : List UInt8} {reads : List (List UInt8)}
    (h : Arrives head surplus reads) : reads.flatten = head ++ surplus := by
  induction h with
  | last => exact List.flatten_singleton
  | more _ _ ih => rw [List.flatten_cons, ih, List.append_assoc]

/-- What the loop comes to. -/
def cutResult (head : List UInt8) (buffSize surplus : Nat) (reads : List (List UInt8))
    (parts : Parts) : Except Outcome HttpRequest :=
  if 1 < reads.length ∧ int32 buffSize = 0 then .error (.returned none)
  else headResult head buffSize surplus (parts.seen (readStart reads)).calls {}

theorem recvRequest_arrives {relaxed : Bool} {head surplus : List UInt8}
    {reads : List (List UInt8)} {buffSize : Nat} {parts : Parts} (haccepted : Accepted relaxed head)
    (hcalls : headCalls relaxed head = parts.calls) (hwithin : parts.Within head)
    (hsize : head.length < 2 ^ 63) (harrives : Arrives head surplus reads)
    (hbuff : buffSize < 2 ^ 64) {events : List Event}
    (hevents : List.Forall₂ (fun ev read => ev.result buffSize = (read.length : Int)) events reads)
    {s : Stream} (hinput : window s.input s.taken (head ++ surplus).length = head ++ surplus)
    {raw : HttpParser} (hraw : raw.uriRelaxed = relaxed) (rest : List Event) :
    (recvRequest buffSize raw { s with reads := events ++ rest }).1 =
      (answer surplus { s with taken := s.taken + (head ++ surplus).length, reads := rest }
        (cutResult head buffSize surplus.length reads parts)).1 := by
  have hflatten := harrives.flatten_eq
  have hmidway := haccepted.midway hsize hcalls hwithin hraw reads
  have hwindow : window s.input s.taken reads.flatten.length = reads.flatten := by
    rwa [hflatten]
  unfold cutResult
  by_cases hzero : 1 < reads.length ∧ int32 buffSize = 0
  · rw [if_pos hzero]
    apply recvRequest_error
    cases harrives with
    | last => exact absurd hzero.1 (by simp)
    | @more piece bytes _ reads hpiece hrest =>
        obtain ⟨ev, events, hev, _, rfl⟩ := List.forall₂_cons_right_iff.mp hevents
        rw [List.flatten_cons] at hwindow
        refine hmidway.int_zero hpiece hrest.ne_nil hbuff hsize hev
          (s := { s with reads := ev :: events ++ rest }) (window_split hwindow).1 hzero.2 ?_
          (events ++ rest)
        intro c hc hstart
        by_contra hthrows
        have hlt := (Call.seen_throws (hwithin.lies c hc) hsize
          (Bool.eq_true_of_not_eq_false hthrows)).2
        omega
  · rw [if_neg hzero, ← parts.calls_seen, ← hflatten]
    exact (hmidway.arrives harrives rfl hbuff hsize hevents
      (s := { s with reads := events ++ rest }) hwindow (fun h hint => hzero ⟨h, hint⟩) rest).answer

/-- In one read every part is whole. -/
theorem Call.seen_one_read {head surplus : List UInt8} {c : Call} (h : c.Lies 0 0 head)
    (hsize : head.length < 2 ^ 63) : c.seen (readStart [head ++ surplus]) = c := by
  have hstop := h.stop_lt
  rw [Nat.zero_add] at hstop
  have hstart (i : Nat) (hi : i < head.length) : readStart [head ++ surplus] i = 0 := by
    rw [readStart, if_pos (by rw [List.length_append]; omega)]
  have hwhole (s : Span) : s.after 0 = s := Span.after_eq (Nat.zero_le _)
  cases c with
  | element cb pos len =>
      simp only [Call.stop] at hstop
      cases cb with
      | queryString =>
          have heq := @querySeen_eq [head ++ surplus] ⟨pos, len⟩
            (by unfold Span.stop; simp only; omega)
            (by rw [Span.stop, hstart _ hstop]; exact Nat.zero_le _)
          simp only [Span.querySeen, Span.stop, Span.mk.injEq] at heq
          simp only [Call.seen, heq.1, heq.2]
      | _ => simp only [Call.seen, hstart _ hstop, hwhole, Span.call]
  | httpField field flen value vlen =>
      simp only [Call.stop] at hstop
      simp only [Call.seen, hstart _ hstop, hwhole, Field.call]

theorem Parts.Within.calls_one_read {head surplus : List UInt8} {parts : Parts}
    (h : parts.Within head) (hsize : head.length < 2 ^ 63) :
    parts.calls.map (Call.seen (readStart [head ++ surplus])) = parts.calls :=
  (List.map_congr_left fun c hc => Call.seen_one_read (h.lies c hc) hsize).trans
    (List.map_id' parts.calls)

theorem cutResult_one_read {head surplus : List UInt8} {parts : Parts} (h : parts.Within head)
    (hsize : head.length < 2 ^ 63) (buffSize : Nat) :
    cutResult head buffSize surplus.length [head ++ surplus] parts =
      headResult head buffSize surplus.length parts.calls {} := by
  unfold cutResult
  rw [if_neg (by simp), ← parts.calls_seen, h.calls_one_read hsize]

theorem Parts.Within.query_fits {head : List UInt8} {parts : Parts} (h : parts.Within head)
    (hsize : head.length < 2 ^ 63) : parts.queryThrows = false := by
  unfold Parts.queryThrows
  cases hq : parts.query with
  | none => rfl
  | some q =>
      have hlt := h.stop_lt (Parts.query_mem hq)
      unfold Span.stop at hlt
      simp only [Option.any_some, decide_eq_false_iff_not]
      omega

theorem settled_headResult {head : List UInt8} {parts : Parts} (htame : parts.Tame)
    (buffSize surplus : Nat) : Settled (headResult head buffSize surplus parts.calls {}) := by
  rw [headResult_parts htame]
  split
  · rfl
  · split <;> rfl

theorem settled_cutResult {head : List UInt8} {parts : Parts} (htame : parts.Tame)
    (buffSize surplus : Nat) (reads : List (List UInt8)) :
    Settled (cutResult head buffSize surplus reads parts) := by
  unfold cutResult
  split
  · rfl
  · exact settled_headResult (htame.seen _) buffSize surplus

namespace Parts.Undisturbed

variable {head : List UInt8} {reads : List (List UInt8)} {parts : Parts}

theorem query_eq (h : parts.Undisturbed head (readStart reads)) (hwithin : parts.Within head)
    (hsize : head.length < 2 ^ 63) : (parts.seen (readStart reads)).query = parts.query := by
  unfold Parts.seen
  cases hq : parts.query with
  | none => rfl
  | some s =>
      have hlt := hwithin.stop_lt (Parts.query_mem hq)
      exact congrArg some (querySeen_eq (by omega) (h.query s hq))

theorem fragment_eq (h : parts.Undisturbed head (readStart reads)) :
    (parts.seen (readStart reads)).fragment = parts.fragment := by
  unfold Parts.seen
  cases hf : parts.fragment with
  | none => rfl
  | some s => exact congrArg some (Span.after_eq (h.fragment s hf))

/-- A cut that leaves the parts alone leaves the request alone. -/
theorem request_eq (h : parts.Undisturbed head (readStart reads)) (hwithin : parts.Within head)
    (hsize : head.length < 2 ^ 63) :
    (parts.seen (readStart reads)).request head = parts.request head := by
  have hpath : (parts.seen (readStart reads)).path = parts.path := Span.after_eq h.path
  unfold Parts.request
  rw [h.method, h.version, h.headers, hpath, h.query_eq hwithin hsize, h.fragment_eq]

theorem queryThrows_eq (h : parts.Undisturbed head (readStart reads)) (hwithin : parts.Within head)
    (hsize : head.length < 2 ^ 63) : (parts.seen (readStart reads)).queryThrows = false := by
  rw [← hwithin.query_fits hsize, Parts.queryThrows, h.query_eq hwithin hsize]
  rfl

theorem refused_iff (h : parts.Undisturbed head (readStart reads)) (hwithin : parts.Within head)
    (hsize : head.length < 2 ^ 63) (buffSize surplus : Nat) :
    (parts.seen (readStart reads)).Refused head buffSize surplus ↔
      parts.Refused head buffSize surplus := by
  unfold Parts.Refused
  rw [h.method, h.version, h.queryThrows_eq hwithin hsize, hwithin.query_fits hsize]

end Parts.Undisturbed

theorem Parts.undisturbed_of_request_eq {head : List UInt8} {reads : List (List UInt8)}
    {parts : Parts} (hwithin : parts.Within head) (hsize : head.length < 2 ^ 63)
    (hthrows : (parts.seen (readStart reads)).queryThrows = false)
    (hversion : (parts.seen (readStart reads)).versionOf head ≠ none)
    (hversion' : parts.versionOf head ≠ none)
    (h : (parts.seen (readStart reads)).request head = parts.request head) :
    parts.Undisturbed head (readStart reads) where
  method := congrArg HttpRequest.method h
  path := by
    have hlt := hwithin.stop_lt parts.path_mem
    exact (text_after hlt.le (readStart_le reads _)).mp (congrArg HttpRequest.path h)
  query s hs := by
    have hlt := hwithin.stop_lt (Parts.query_mem hs)
    have heq := congrArg HttpRequest.query h
    simp only [Parts.request, Parts.seen, Option.mem_def.mp hs, Option.map_some,
      Option.getD_some] at heq
    refine (text_querySeen hlt.le hsize ?_).mp heq
    simp only [Parts.queryThrows, Parts.seen, Option.mem_def.mp hs, Option.map_some,
      Option.any_some,
      decide_eq_false_iff_not] at hthrows
    omega
  fragment s hs := by
    have hlt := hwithin.stop_lt (Parts.fragment_mem hs)
    have heq := congrArg HttpRequest.fragment h
    simp only [Parts.request, Parts.seen, Option.mem_def.mp hs, Option.map_some,
      Option.getD_some] at heq
    exact (text_after hlt.le (readStart_le reads _)).mp heq
  version := by
    have heq := congrArg HttpRequest.version h
    obtain ⟨v, hv⟩ := Option.ne_none_iff_exists'.mp hversion
    obtain ⟨v', hv'⟩ := Option.ne_none_iff_exists'.mp hversion'
    simp only [Parts.request, hv, hv', Option.getD_some] at heq
    rw [hv, hv', heq]
  headers := congrArg HttpRequest.headers h

/-- The cut makes no difference: a head that is refused in one read is refused all the same,
and of another one the request is undisturbed.  (A buffer size that is 0 for an `int` only
lets a head pass in one read.) -/
structure Parts.SurvivesCut (parts : Parts) (head : List UInt8) (buffSize surplus : Nat)
    (reads : List (List UInt8)) : Prop where
  refused : parts.Refused head buffSize surplus →
    (1 < reads.length ∧ int32 buffSize = 0) ∨
      (parts.seen (readStart reads)).Refused head buffSize surplus
  passes : ¬ parts.Refused head buffSize surplus →
    ¬ (1 < reads.length ∧ int32 buffSize = 0) ∧ parts.Undisturbed head (readStart reads)

theorem cutResult_eq_iff {head : List UInt8} {parts : Parts} (hwithin : parts.Within head)
    (hsize : head.length < 2 ^ 63) (buffSize surplus : Nat) (reads : List (List UInt8)) :
    cutResult head buffSize surplus reads parts = headResult head buffSize surplus parts.calls {} ↔
      parts.SurvivesCut head buffSize surplus reads := by
  have htame := hwithin.tame hsize
  rw [headResult_parts htame, hwithin.query_fits hsize, if_neg Bool.false_ne_true]
  unfold cutResult
  rw [headResult_parts (htame.seen _)]
  by_cases hrefused : parts.Refused head buffSize surplus
  · rw [if_pos hrefused]
    refine Iff.trans ?_ (⟨fun h => ⟨fun _ => h, fun hpass => absurd hrefused hpass⟩,
      fun h => h.refused hrefused⟩ : (1 < reads.length ∧ int32 buffSize = 0) ∨
        (parts.seen (readStart reads)).Refused head buffSize surplus ↔ _)
    by_cases hzero : 1 < reads.length ∧ int32 buffSize = 0
    · simp [hzero]
    · by_cases hcut : (parts.seen (readStart reads)).Refused head buffSize surplus
      · simp [hcut]
      · rw [if_neg hzero, if_neg hcut]
        constructor
        · intro h
          split at h <;> cases h
        · intro h
          exact absurd h (not_or.mpr ⟨hzero, hcut⟩)
  · rw [if_neg hrefused]
    obtain ⟨hmethod, hrest⟩ := not_or.mp hrefused
    constructor
    · intro h
      refine ⟨fun hr => absurd hr hrefused, fun _ => ?_⟩
      by_cases hzero : 1 < reads.length ∧ int32 buffSize = 0
      · rw [if_pos hzero] at h
        cases h
      · rw [if_neg hzero] at h
        split at h
        · cases h
        · rename_i hcut
          split at h
          · cases h
          · rename_i hthrows
            refine ⟨hzero, Parts.undisturbed_of_request_eq hwithin hsize
              (Bool.eq_false_of_not_eq_true hthrows) ?_ ?_ (Except.ok.inj h)⟩
            · exact fun hnone => hcut (.inr ⟨hthrows, .inl hnone⟩)
            · exact fun hnone => hrest ⟨by rw [hwithin.query_fits hsize]; decide, .inl hnone⟩
    · intro h
      obtain ⟨hzero, hsame⟩ := h.passes hrefused
      rw [if_neg hzero,
        if_neg (fun hcut => hrefused ((hsame.refused_iff hwithin hsize _ _).mp hcut)),
        hsame.queryThrows_eq hwithin hsize, if_neg Bool.false_ne_true,
        hsame.request_eq hwithin hsize]

/-- A head that arrives in several reads, with `surplus` bytes in the last of them, comes to
the same as one that arrives in one read, whatever follows, iff the cut leaves it alone. -/
theorem recvRequest_reads {relaxed : Bool} {head surplus : List UInt8} {reads : List (List UInt8)}
    {buffSize : Nat} (haccepted : Accepted relaxed head) (harrives : Arrives head surplus reads)
    (hbuff : buffSize < 2 ^ 64) {events : List Event}
    (hevents : List.Forall₂ (fun ev read => ev.result buffSize = (read.length : Int)) events reads)
    {single : Event} (hsingle : single.result buffSize = (head ++ surplus).length) {s : Stream}
    (hinput : window s.input s.taken (head ++ surplus).length = head ++ surplus)
    {raw raw' : HttpParser} (hraw : raw.uriRelaxed = relaxed) (hraw' : raw'.uriRelaxed = relaxed) :
    ∃ parts : Parts, headCalls relaxed head = parts.calls ∧
      ((∀ rest, (recvRequest buffSize raw { s with reads := events ++ rest }).1 =
          (recvRequest buffSize raw' { s with reads := single :: rest }).1) ↔
        parts.SurvivesCut head buffSize surplus.length reads) := by
  have hsize : head.length < 2 ^ 63 := by
    have hle : single.result buffSize < 2 ^ 31 := single.result_lt buffSize
    rw [hsingle, List.length_append] at hle
    omega
  obtain ⟨parts, hcalls, hwithin⟩ := haccepted.accepts.exists_parts (by omega)
  refine ⟨parts, hcalls, ?_⟩
  have hcut (rest : List Event) := recvRequest_arrives haccepted hcalls hwithin hsize harrives hbuff
    hevents hinput hraw rest
  have hwhole (rest : List Event) := recvRequest_arrives haccepted hcalls hwithin hsize
    (.last haccepted.accepts.ne_nil) hbuff (.cons hsingle .nil) hinput hraw' rest
  simp only [cutResult_one_read hwithin hsize, List.singleton_append] at hwhole
  rw [← cutResult_eq_iff hwithin hsize]
  constructor
  · intro h
    have hsame := h []
    rw [hcut, hwhole] at hsame
    exact answer_inj rfl (settled_cutResult (hwithin.tame hsize) _ _ _)
      (settled_headResult (hwithin.tame hsize) _ _) hsame
  · intro h rest
    rw [hcut, hwhole, h]

/-- A session of the default buffer size: the peer sends `bytes`, and the reads bring as
many of them as `reads` says. -/
def sessionOf (bytes : List UInt8) (reads : List Event) : Stream :=
  { Stream.ofBytes bytes 0 with reads := reads }

theorem recvRequest_reads_between_lines :
    let head := chars "GET /a?b HTTP/1.1\r\nhost: c\r\n\r\n"
    let reads := [chars "GET /a?b HTTP/1.1\r\n", chars "host: c\r\n\r\n" ++ chars "xy"]
    let events : List Event :=
      [.moves 19 (by decide) (by decide), .moves 13 (by decide) (by decide)]
    let s := sessionOf (head ++ chars "xy") []
    ∃ parts : Parts, headCalls false head = parts.calls ∧
      ((∀ rest, (recvRequest 4096 (.fresh false) { s with reads := events ++ rest }).1 =
          (recvRequest 4096 (.fresh false)
            { s with reads := .moves 32 (by decide) (by decide) :: rest }).1) ↔
        parts.SurvivesCut head 4096 2 reads) := by
  intro head reads events s
  have harrives : Arrives head (chars "xy") reads :=
    @Arrives.more (chars "GET /a?b HTTP/1.1\r\n") (chars "host: c\r\n\r\n") _ _ (by decide)
      (.last (by decide))
  exact recvRequest_reads (by decide) harrives (by decide)
    (.cons (by decide) (.cons (by decide) .nil)) (by decide)
    (by decide) rfl rfl

/-- A read that ends in the method. -/
theorem recvRequest_refuses_cut_method :
    let head := chars "GET / HTTP/1.1\r\n\r\n"
    let reads := [chars "G", chars "ET / HTTP/1.1\r\n\r\n"]
    Accepted false head ∧ Arrives head [] reads ∧ head.length < 4096 ∧
      (recvRequest 4096 (.fresh false) (sessionOf head
        [.moves 1 (by decide) (by decide), .moves 17 (by decide) (by decide)])).1
          = .returned none ∧
      (recvRequest 4096 (.fresh false) (sessionOf head
        [.moves 18 (by decide) (by decide)])).1 = .returned (some {}) := by
  refine ⟨by decide, ?_, by decide, by decide +kernel, by decide +kernel⟩
  exact @Arrives.more (chars "G") (chars "ET / HTTP/1.1\r\n\r\n") _ _ (by decide)
    (.last (by decide))

end Lyslg.Http
