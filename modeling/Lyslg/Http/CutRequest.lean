import Lyslg.Http.Callbacks
import Lyslg.Http.RecvRequest
import Lyslg.Stream.Call
import Mathlib.Data.List.Forall2
/-!
# Requests that arrive in several reads

`recvHead_arrives` says what the loop of `recvRequest` makes of a head, however the reads
cut it.
-/

namespace Lyslg.Http

open Http11 Support.Machine Support.Memory

/-! ## The callbacks of one read -/

/-- What the first callback that throws or refuses leads to. -/
def verdict (head : List UInt8) : List Call → Option Outcome
  | [] => none
  | c :: calls =>
      if c.throws then some .lengthError
      else if c.refusal head = none then verdict head calls
      else some (.returned none)

theorem verdict_append (head : List UInt8) (first second : List Call) :
    verdict head (first ++ second) = (verdict head first).or (verdict head second) := by
  induction first with
  | nil => rfl
  | cons c first ih =>
      rw [List.cons_append, verdict, verdict]
      split
      · rfl
      · split
        · exact ih
        · rfl

/-- In one read all callbacks are made, and the errors are looked at behind it. -/
theorem verdict_eq {head : List UInt8} {calls : List Call}
    (horder : calls.Pairwise fun c d => c.refusal head ≠ none → d.throws = false) :
    verdict head calls =
      if calls.any Call.throws then some .lengthError
      else if ∀ c ∈ calls, c.refusal head = none then none
      else some (.returned none) := by
  induction calls with
  | nil => rfl
  | cons c calls ih =>
      obtain ⟨hfirst, hrest⟩ := List.pairwise_cons.mp horder
      rw [verdict, List.any_cons, ih hrest]
      by_cases hthrows : c.throws
      · simp [hthrows]
      · by_cases hrefusal : c.refusal head = none
        · simp [hthrows, hrefusal]
        · have hnone : calls.any Call.throws = false := by
            rw [List.any_eq_false]
            exact fun d hd => Bool.eq_false_iff.mp (hfirst d hd hrefusal)
          simp [hthrows, hrefusal, hnone]

/-- `execute` on the buffer of one read. -/
theorem execute_read {head buffer : List UInt8} {start : Nat → Nat} {a b n : Nat}
    {self : HttpRequestParser} {part : HttpParser} {here : List Call}
    (hexec : self.parser.execute buffer = (part, n, here.map fun c => (c.seen start).back a))
    (hin : ∀ c ∈ here, (c.seen start).InBuffer head a b) (hholds : Holds head a b buffer) :
    self.execute buffer =
      if (here.map (Call.seen start)).any Call.throws then none
      else some (⟨part, (here.map (Call.seen start)).foldl (Call.fill head) self.data,
        (here.map (Call.seen start)).foldl (fun e c => (c.refusal head).getD e) self.error⟩,
        n) := by
  have hthrows : (here.map fun c => (c.seen start).back a).any Call.throws
      = (here.map (Call.seen start)).any Call.throws := by
    rw [List.any_map, List.any_map]
    congr 1
    funext c
    exact Call.throws_back a (c.seen start)
  unfold HttpRequestParser.execute
  simp only [hexec, HttpRequestParser.foldlM_callback, hthrows]
  by_cases hany : (here.map (Call.seen start)).any Call.throws
  · rw [if_pos hany, if_pos hany]
    rfl
  · rw [if_neg hany, if_neg hany]
    have hfine : ∀ c ∈ here, (c.seen start).throws = false := by
      intro c hc
      rw [Bool.not_eq_true, List.any_eq_false] at hany
      exact Bool.eq_false_iff.mpr (hany _ (List.mem_map_of_mem hc))
    have hdata (r : HttpRequest) : (here.map fun c => (c.seen start).back a).foldl
        (Call.fill buffer) r = (here.map (Call.seen start)).foldl (Call.fill head) r := by
      rw [List.foldl_map, List.foldl_map]
      apply List.foldl_ext
      intro r c hc
      exact (hin c hc).fill hholds (hfine c hc) r
    have herror (e : Int) : (here.map fun c => (c.seen start).back a).foldl
        (fun e c => (c.refusal buffer).getD e) e
          = (here.map (Call.seen start)).foldl (fun e c => (c.refusal head).getD e) e := by
      rw [List.foldl_map, List.foldl_map]
      apply List.foldl_ext
      intro e c hc
      rw [(hin c hc).refusal hholds]
    rw [hdata, herror]
    rfl

/-! ## The loop -/

/-- One round with an empty buffer. -/
theorem recvHead_read {buffSize : Nat} (hbuff : buffSize < 2 ^ 64) {ev : Event}
    {read : List UInt8} (hev : ev.result buffSize = read.length) (hread : read ≠ []) {s : Stream}
    (hwindow : window s.input s.taken read.length = read) (events : List Event)
    (parser : HttpRequestParser) :
    recvHead buffSize (ev :: events) [] parser s =
      let s := { s with taken := s.taken + read.length, reads := events }
      match parser.execute read with
      | none => (.error .lengthError, s)
      | some (parser, nparse) =>
          if parser.hasError then refuse s
          else if ((read.drop nparse).length : Int) = int32 buffSize then refuse s
          else if parser.isFinished then (.ok (parser, read.drop nparse), s)
          else recvHead buffSize events (read.drop nparse) parser s := by
  have hpos : 0 < read.length := List.length_pos_iff.mpr hread
  rw [recvHead]
  simp only [List.length_nil, subSize_of_le hbuff (Nat.zero_le _), Nat.sub_zero, hev,
    Int.toNat_natCast, hwindow, List.nil_append]
  refine (if_neg (by omega)).trans ?_
  cases parser.execute read <;> rfl

/-- What the loop comes to, and the stream behind it when there is a request. -/
def Reaches (run : HeadRun × Stream) (surplus : List UInt8) (s : Stream) :
    Except Outcome HttpRequest → Prop
  | .error outcome => run.1 = .error outcome
  | .ok data => ∃ parser : HttpRequestParser, parser.data = data ∧ run = (.ok (parser, surplus), s)

/-- What the callbacks of the whole head make of it. -/
def headResult (head : List UInt8) (buffSize surplus : Nat) (calls : List Call)
    (r : HttpRequest) : Except Outcome HttpRequest :=
  match verdict head calls with
  | some outcome => .error outcome
  | none =>
      if (surplus : Int) = int32 buffSize then .error (.returned none)
      else .ok (calls.foldl (Call.fill head) r)

theorem next_zero (relaxed : Bool) (c : UInt8) : next relaxed 0 c = none := by
  have hrow : transitions.lookup 0 = none := by decide
  unfold next
  rw [hrow]
  rfl

theorem Accepts.cs_ne_zero {parser : HttpParser} {p : Nat} {bytes : List UInt8} {calls : List Call}
    (h : Accepts parser p bytes calls) : parser.cs ≠ 0 := by
  intro hzero
  cases h with
  | last hnext => rw [hzero, next_zero] at hnext; cases hnext
  | more hnext => rw [hzero, next_zero] at hnext; cases hnext

/-- No refused callback comes before one that throws in the same read. -/
def Ordered (head : List UInt8) (start : Nat → Nat) (calls : List Call) : Prop :=
  calls.Pairwise fun c d => start c.stop = start d.stop →
    (c.seen start).refusal head ≠ none → (d.seen start).throws = false

theorem Ordered.one_read {head : List UInt8} {start : Nat → Nat} {a : Nat} {calls : List Call}
    (h : Ordered head start calls) (hread : ∀ c ∈ calls, start c.stop = a) :
    (calls.map (Call.seen start)).Pairwise fun c d =>
      c.refusal head ≠ none → d.throws = false := by
  rw [List.pairwise_map]
  refine List.Pairwise.imp_of_mem ?_ h
  intro c d hc hd hcd
  exact hcd ((hread c hc).trans (hread d hd).symm)

theorem holds_piece (before : List UInt8) (piece rest more : List UInt8) :
    Holds (before ++ (piece ++ rest)) before.length piece.length (piece ++ more) := by
  unfold Holds
  rw [List.drop_left, List.take_left, List.take_left]

/-- One round over a read with `piece` of the head and `more` behind it. -/
theorem recvHead_round {head piece more : List UInt8} {start : Nat → Nat} {a buffSize : Nat}
    (hbuff : buffSize < 2 ^ 64) {ev : Event} (hev : ev.result buffSize = (piece ++ more).length)
    (hpiece : piece ≠ []) {s : Stream}
    (hwindow : window s.input s.taken (piece ++ more).length = piece ++ more)
    (hholds : Holds head a piece.length (piece ++ more)) {parser : HttpRequestParser}
    (herror : parser.error = 0) {part : HttpParser} (hcs : part.cs ≠ 0) {here : List Call}
    (hexec : parser.parser.execute (piece ++ more) =
      (part, piece.length, here.map fun c => (c.seen start).back a))
    (hin : ∀ c ∈ here, (c.seen start).InBuffer head a piece.length)
    (horder : (here.map (Call.seen start)).Pairwise fun c d =>
      c.refusal head ≠ none → d.throws = false) (events : List Event) :
    let run := recvHead buffSize (ev :: events) [] parser s
    match verdict head (here.map (Call.seen start)) with
    | some outcome => run.1 = .error outcome
    | none =>
        let s := { s with taken := s.taken + (piece ++ more).length, reads := events }
        let parser : HttpRequestParser :=
          ⟨part, (here.map (Call.seen start)).foldl (Call.fill head) parser.data, 0⟩
        run =
          if (more.length : Int) = int32 buffSize then refuse s
          else if parser.isFinished then (.ok (parser, more), s)
          else recvHead buffSize events more parser s := by
  have hne : piece ++ more ≠ [] := by simp [hpiece]
  simp only [recvHead_read hbuff hev hne hwindow, execute_read hexec hin hholds,
    verdict_eq horder, herror]
  by_cases hthrows : (here.map (Call.seen start)).any Call.throws
  · simp only [hthrows, if_true]
  · have hzero := foldl_refusal_eq_zero head (here.map (Call.seen start)) 0
    by_cases hnone : ∀ c ∈ here.map (Call.seen start), c.refusal head = none
    · rw [if_neg hthrows, if_neg hthrows, if_pos hnone]
      have hfine : HttpRequestParser.hasError ⟨part, (here.map (Call.seen start)).foldl
          (Call.fill head) parser.data, 0⟩ = false := by
        simp [HttpRequestParser.hasError, HttpParser.hasError, hcs]
      simp only [hzero.mpr ⟨rfl, hnone⟩, hfine, List.drop_left, Bool.false_eq_true, if_false]
    · rw [if_neg hthrows, if_neg hthrows, if_neg hnone]
      have hbad : HttpRequestParser.hasError ⟨part, (here.map (Call.seen start)).foldl
          (Call.fill head) parser.data, (here.map (Call.seen start)).foldl
            (fun e c => (c.refusal head).getD e) 0⟩ = true := by
        have : (here.map (Call.seen start)).foldl (fun e c => (c.refusal head).getD e) 0 ≠ 0 :=
          fun h => hnone (hzero.mp h).2
        simp [HttpRequestParser.hasError, this]
      simp only [hbad, if_true]
      rfl

theorem Arrives.ne_nil {head surplus : List UInt8} {reads : List (List UInt8)}
    (h : Arrives head surplus reads) : head ≠ [] := by
  cases h with
  | last hhead => exact hhead
  | more hpiece _ => simp [hpiece]

theorem execute_eq_exec {parser : HttpParser} {buffer : List UInt8} (hne : buffer ≠ []) :
    parser.execute buffer =
      { parser with mark := 0, fieldLen := 0, fieldStart := 0 }.exec 0 buffer := by
  unfold HttpParser.execute
  rw [if_neg (fun h => hne (List.length_eq_zero_iff.mp h))]

/-- The loop before a read: `before` has been read, and `bytes` of the head are to come with
the callbacks `calls`.  `whole` is the machine over the whole head. -/
structure Midway (head : List UInt8) (all before : List (List UInt8)) (bytes : List UInt8)
    (calls : List Call) (whole : HttpParser) (parser : HttpRequestParser) : Prop where
  head_eq : head = before.flatten ++ bytes
  accepts : Accepts whole before.flatten.length bytes calls
  cs_lt : whole.cs < 348
  lies : ∀ c ∈ calls, c.Lies 0 0 head
  ordered : Ordered head (readStart all) calls
  error : parser.error = 0
  tracks : Tracks (readStart all) (known whole.cs) before.flatten.length whole
    { parser.parser with mark := 0, fieldLen := 0, fieldStart := 0 }
  placed : Placed 0 before.flatten.length (known whole.cs) whole

/-- The parser after the callbacks of one read. -/
def HttpRequestParser.told (parser : HttpRequestParser) (head : List UInt8) (part : HttpParser)
    (calls : List Call) : HttpRequestParser :=
  ⟨part, calls.foldl (Call.fill head) parser.data, 0⟩

/-- A read before the last one. -/
theorem Midway.piece {head piece bytes : List UInt8} {all before reads : List (List UInt8)}
    {calls : List Call} {whole : HttpParser} {parser : HttpRequestParser} {buffSize : Nat}
    (h : Midway head all before (piece ++ bytes) calls whole parser)
    (hall : all = before ++ piece :: reads) (hpiece : piece ≠ []) (hbytes : bytes ≠ [])
    (hbuff : buffSize < 2 ^ 64) (hsize : head.length < 2 ^ 63) {ev : Event}
    (hev : ev.result buffSize = piece.length) {s : Stream}
    (hwindow : window s.input s.taken piece.length = piece) (events : List Event) :
    ∃ whole' part here later, calls = here ++ later ∧
      (∀ c ∈ here, readStart all c.stop = before.flatten.length) ∧
      Midway head all (before ++ [piece]) bytes later whole'
        (parser.told head part (here.map (Call.seen (readStart all)))) ∧
      let run := recvHead buffSize (ev :: events) [] parser s
      match verdict head (here.map (Call.seen (readStart all))) with
      | some outcome => run.1 = .error outcome
      | none =>
          let s := { s with taken := s.taken + piece.length, reads := events }
          run =
            if 0 = int32 buffSize then refuse s
            else recvHead buffSize events []
              (parser.told head part (here.map (Call.seen (readStart all)))) s := by
  have hstart (i : Nat) (hlow : before.flatten.length ≤ i)
      (hhigh : i < before.flatten.length + piece.length) :
      readStart all i = before.flatten.length := by
    rw [hall]
    exact readStart_append before reads hlow hhigh
  have hlength : before.flatten.length + (piece ++ bytes).length = head.length := by
    rw [h.head_eq, ← List.length_append]
  obtain ⟨whole', part, here, later, hsplit, hhere, hlater, hcs, htracks, hplaced, hexec⟩ :=
    Accepts.exec_piece (p := 0) h.accepts hbytes h.cs_lt h.tracks h.placed hstart (by omega)
  subst hsplit
  rw [Nat.zero_add] at hexec
  have hstop (c : Call) (hc : c ∈ here) : readStart all c.stop = before.flatten.length :=
    hstart c.stop (hhere c hc).1 (hhere c hc).2
  obtain ⟨horder, horder', _⟩ := List.pairwise_append.mp h.ordered
  refine ⟨whole', part, here, later, rfl, hstop, ?_, ?_⟩
  · have hbefore : (before ++ [piece]).flatten.length = before.flatten.length + piece.length := by
      simp
    rw [Nat.add_zero, ← hbefore] at hlater hplaced
    exact {
      head_eq := by rw [h.head_eq]; simp
      accepts := hlater
      cs_lt := hcs
      lies := fun c hc => h.lies c (List.mem_append_right here hc)
      ordered := horder'
      error := rfl
      tracks := by rw [hbefore]; exact htracks.reset (by rwa [← hbefore])
      placed := hplaced }
  · have hexec' : parser.parser.execute (piece ++ []) = (part, piece.length,
        here.map fun c => (c.seen (readStart all)).back before.flatten.length) := by
      rw [List.append_nil, execute_eq_exec hpiece]
      exact hexec
    have hholds : Holds head before.flatten.length piece.length (piece ++ []) := by
      rw [h.head_eq]
      exact holds_piece before.flatten piece bytes []
    have hin (c : Call) (hc : c ∈ here) :
        (c.seen (readStart all)).InBuffer head before.flatten.length piece.length := by
      have hlow := hhere c hc
      rw [List.length_append] at hlength
      exact (h.lies c (List.mem_append_left later hc)).inBuffer (hstop c hc) (readStart_le all)
        hlow.2 (by omega)
    have hround := recvHead_round hbuff (by rwa [List.append_nil]) hpiece
      (by rwa [List.append_nil]) hholds h.error (by rw [htracks.cs]; exact hlater.cs_ne_zero)
      hexec' hin (Ordered.one_read horder hstop) events
    generalize verdict head (here.map (Call.seen (readStart all))) = v at hround ⊢
    cases v with
    | some outcome => exact hround
    | none =>
        have hgoes : HttpRequestParser.isFinished (parser.told head part
            (here.map (Call.seen (readStart all)))) = false := by
          have hlt : ¬ 348 ≤ part.cs := by
            rw [htracks.cs]
            omega
          exact decide_eq_false hlt
        simp only [List.length_nil, Nat.cast_zero, List.append_nil] at hround ⊢
        rw [hround]
        congr 1
        exact if_neg (by rw [Bool.not_eq_true]; exact hgoes)

/-- The last read. -/
theorem Midway.last {head bytes surplus : List UInt8} {all before : List (List UInt8)}
    {calls : List Call} {whole : HttpParser} {parser : HttpRequestParser} {buffSize : Nat}
    (h : Midway head all before bytes calls whole parser)
    (hall : all = before ++ [bytes ++ surplus]) (hbytes : bytes ≠ [])
    (hbuff : buffSize < 2 ^ 64) (hsize : head.length < 2 ^ 63) {ev : Event}
    (hev : ev.result buffSize = (bytes ++ surplus).length) {s : Stream}
    (hwindow : window s.input s.taken (bytes ++ surplus).length = bytes ++ surplus)
    (events : List Event) :
    Reaches (recvHead buffSize (ev :: events) [] parser s) surplus
      { s with taken := s.taken + (bytes ++ surplus).length, reads := events }
      (headResult head buffSize surplus.length (calls.map (Call.seen (readStart all)))
        parser.data) := by
  have hstart (i : Nat) (hlow : before.flatten.length ≤ i)
      (hhigh : i < before.flatten.length + bytes.length) :
      readStart all i = before.flatten.length := by
    rw [hall]
    exact readStart_append before [] hlow (by rw [List.length_append]; omega)
  have hlength : before.flatten.length + bytes.length = head.length := by
    rw [h.head_eq, List.length_append]
  obtain ⟨part, hfinal, hexec⟩ :=
    Accepts.exec_last (p := 0) h.accepts h.tracks h.placed hstart (by omega) surplus
  rw [Nat.zero_add] at hexec
  have hstop (c : Call) (hc : c ∈ calls) : readStart all c.stop = before.flatten.length ∧
      c.stop < before.flatten.length + bytes.length := by
    have hlies := h.accepts.call_lies h.placed (Nat.zero_le _) (by omega) hc
    exact ⟨hstart c.stop hlies.le_stop hlies.stop_lt, hlies.stop_lt⟩
  have hholds : Holds head before.flatten.length bytes.length (bytes ++ surplus) := by
    rw [h.head_eq]
    simpa using holds_piece before.flatten bytes [] surplus
  have hin (c : Call) (hc : c ∈ calls) :
      (c.seen (readStart all)).InBuffer head before.flatten.length bytes.length := by
    have hlow := hstop c hc
    exact (h.lies c hc).inBuffer hlow.1 (readStart_le all) hlow.2 (by omega)
  have hround := recvHead_round hbuff hev hbytes hwindow hholds h.error (by omega)
    ((execute_eq_exec (by simp [hbytes])).trans hexec) hin
    (h.ordered.one_read fun c hc => (hstop c hc).1) events
  unfold headResult
  generalize verdict head (calls.map (Call.seen (readStart all))) = v at hround ⊢
  cases v with
  | some outcome => exact hround
  | none =>
      simp only at hround ⊢
      rw [hround]
      split
      · rfl
      · have hfinished : HttpRequestParser.isFinished ⟨part, (calls.map (Call.seen
            (readStart all))).foldl (Call.fill head) parser.data, 0⟩ = true := by
          simp [HttpRequestParser.isFinished, HttpParser.isFinished, hfinal]
        rw [if_pos hfinished]
        exact ⟨_, rfl, rfl⟩

/-- The loop over all reads. -/
theorem Midway.arrives {head surplus bytes : List UInt8} {all before reads : List (List UInt8)}
    {calls : List Call} {whole : HttpParser} {parser : HttpRequestParser} {buffSize : Nat}
    (h : Midway head all before bytes calls whole parser) (harrives : Arrives bytes surplus reads)
    (hall : all = before ++ reads) (hbuff : buffSize < 2 ^ 64) (hsize : head.length < 2 ^ 63)
    {events : List Event}
    (hevents : List.Forall₂ (fun ev read => ev.result buffSize = (read.length : Int)) events reads)
    {s : Stream} (hwindow : window s.input s.taken reads.flatten.length = reads.flatten)
    (hint : 1 < reads.length → int32 buffSize ≠ 0) (rest : List Event) :
    Reaches (recvHead buffSize (events ++ rest) [] parser s) surplus
      { s with taken := s.taken + reads.flatten.length, reads := rest }
      (headResult head buffSize surplus.length (calls.map (Call.seen (readStart all)))
        parser.data) := by
  induction harrives generalizing before whole calls parser events s with
  | @last bytes surplus hbytes =>
      obtain ⟨ev, _, hev, hnil, rfl⟩ := List.forall₂_cons_right_iff.mp hevents
      rw [List.forall₂_nil_right_iff.mp hnil]
      rw [List.flatten_singleton] at hwindow ⊢
      exact h.last hall hbytes hbuff hsize hev hwindow rest
  | @more piece bytes surplus reads hpiece hrest ih =>
      obtain ⟨ev, events, hev, htail, rfl⟩ := List.forall₂_cons_right_iff.mp hevents
      rw [List.flatten_cons, List.length_append] at hwindow ⊢
      obtain ⟨hfirst, hnext⟩ := window_split (by rw [List.length_append]; exact hwindow)
      have hreads : 0 < reads.length := by cases hrest <;> exact Nat.succ_pos _
      have hzero : int32 buffSize ≠ 0 := hint (by rw [List.length_cons]; omega)
      obtain ⟨whole', part, here, later, rfl, _, hmidway, hrun⟩ :=
        h.piece hall hpiece hrest.ne_nil hbuff hsize hev hfirst (events ++ rest)
      have hlater := ih hmidway (by rw [hall, List.append_assoc]; rfl) htail
        (s := { s with taken := s.taken + piece.length, reads := events ++ rest }) hnext
        (fun _ => hzero)
      unfold headResult at hlater ⊢
      rw [List.map_append, verdict_append, List.foldl_append]
      generalize verdict head (here.map (Call.seen (readStart all))) = v at hrun
      cases v with
      | some outcome => exact hrun
      | none =>
          simp only at hrun
          rw [if_neg hzero.symm] at hrun
          rw [List.cons_append, hrun, ← Nat.add_assoc]
          exact hlater

/-- With a buffer size that is 0 for an `int`, the loop gives up behind the first read. -/
theorem Midway.int_zero {head piece bytes : List UInt8} {reads : List (List UInt8)}
    {calls : List Call} {whole : HttpParser} {parser : HttpRequestParser} {buffSize : Nat}
    (h : Midway head (piece :: reads) [] (piece ++ bytes) calls whole parser) (hpiece : piece ≠ [])
    (hbytes : bytes ≠ []) (hbuff : buffSize < 2 ^ 64) (hsize : head.length < 2 ^ 63) {ev : Event}
    (hev : ev.result buffSize = piece.length) {s : Stream}
    (hwindow : window s.input s.taken piece.length = piece) (hint : int32 buffSize = 0)
    (hthrows : ∀ c ∈ calls, readStart (piece :: reads) c.stop = 0 →
      (c.seen (readStart (piece :: reads))).throws = false) (events : List Event) :
    (recvHead buffSize (ev :: events) [] parser s).1 = .error (.returned none) := by
  obtain ⟨whole', part, here, later, rfl, hstop, hmidway, hrun⟩ :=
    h.piece rfl hpiece hbytes hbuff hsize hev hwindow events
  have hfine (c : Call) (hc : c ∈ here) : (c.seen (readStart (piece :: reads))).throws = false :=
    hthrows c (List.mem_append_left later hc) (hstop c hc)
  have horder := Ordered.one_read (List.pairwise_append.mp h.ordered).1 hstop
  rw [verdict_eq horder] at hrun
  have hany : (here.map (Call.seen (readStart (piece :: reads)))).any Call.throws = false := by
    rw [List.any_map, List.any_eq_false]
    exact fun c hc => Bool.eq_false_iff.mp (hfine c hc)
  rw [if_neg (by rw [hany]; decide)] at hrun
  split at hrun
  · rename_i outcome houtcome
    split at houtcome
    · cases houtcome
    · cases houtcome
      exact hrun
  · simp only at hrun
    rw [hrun, if_pos hint.symm]
    rfl

end Lyslg.Http
