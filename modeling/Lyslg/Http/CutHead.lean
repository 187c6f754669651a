import Lyslg.Http.HeadParts
/-!
# A head that arrives in several reads

The marks of the machine are positions in the buffer of one read, and `execute` sets them
to 0 for the next read, except for `query_start`, which stays.  So a callback gets what its
last read brought of a part: `Call.seen` says this on the head, and `Tracks` relates the
machine over one read to the machine over the whole head.
-/

namespace Lyslg.Http

open Http11 Support.Machine

/-! ## Reads -/

/-- The reads bring the head, and the last of them `surplus` behind it. -/
inductive Arrives : List UInt8 → List UInt8 → List (List UInt8) → Prop
  | last {head surplus : List UInt8} (hhead : head ≠ []) : Arrives head surplus [head ++ surplus]
  | more {piece head surplus : List UInt8} {reads : List (List UInt8)} (hpiece : piece ≠ [])
      (hrest : Arrives head surplus reads) : Arrives (piece ++ head) surplus (piece :: reads)

/-- Where the read that brings position `i` starts. -/
def readStart : List (List UInt8) → Nat → Nat
  | [], _ => 0
  | piece :: reads, i =>
      if i < piece.length then 0 else piece.length + readStart reads (i - piece.length)

theorem readStart_le (reads : List (List UInt8)) (i : Nat) : readStart reads i ≤ i := by
  induction reads generalizing i with
  | nil => exact Nat.zero_le i
  | cons piece reads ih =>
      rw [readStart]
      split
      · exact Nat.zero_le i
      · have := ih (i - piece.length)
        omega

/-- Positions in one read. -/
theorem readStart_append (before : List (List UInt8)) {piece : List UInt8}
    (reads : List (List UInt8)) {i : Nat} (hlow : before.flatten.length ≤ i)
    (hhigh : i < before.flatten.length + piece.length) :
    readStart (before ++ piece :: reads) i = before.flatten.length := by
  induction before generalizing i with
  | nil =>
      rw [List.flatten_nil, List.length_nil] at hlow hhigh ⊢
      rw [List.nil_append, readStart, if_pos (by omega)]
  | cons first before ih =>
      rw [List.flatten_cons, List.length_append] at hlow hhigh ⊢
      rw [List.cons_append, readStart, if_neg (by omega), ih (by omega) (by omega)]

/-- A position behind the start of another one's read is in the same read. -/
theorem readStart_eq {reads : List (List UInt8)} {i j : Nat} (hlow : readStart reads j ≤ i)
    (hle : i ≤ j) : readStart reads i = readStart reads j := by
  induction reads generalizing i j with
  | nil => rfl
  | cons piece reads ih =>
      rw [readStart, readStart]
      rw [readStart] at hlow
      by_cases hj : j < piece.length
      · rw [if_pos hj, if_pos (by omega)]
      · rw [if_neg hj] at hlow ⊢
        have hsame : readStart reads (i - piece.length) = readStart reads (j - piece.length) :=
          ih (by omega) (by omega)
        rw [if_neg (by omega), hsame]

/-! ## What a callback gets -/

/-- What is left of a stretch behind `a`. -/
def Span.after (a : Nat) (s : Span) : Span := ⟨max s.pos a, s.stop - max s.pos a⟩

/-- The stretch of the head that a callback gets when `start` tells where the reads start.
For the query the length is a `size_t`, and `query_start` is a position in the read that
began it. -/
def Call.seen (start : Nat → Nat) : Call → Call
  | .element .queryString pos len =>
      let a := start (pos + len)
      .element .queryString (a + (pos - start pos))
      (HttpParser.len (pos - start pos) (pos + len - a))
  | .element cb pos len => (Span.after (start (pos + len)) ⟨pos, len⟩).call cb
  | .httpField field flen value vlen =>
      let a := start (value + vlen)
      Field.call ⟨Span.after a ⟨field, flen⟩, Span.after a ⟨value, vlen⟩⟩

/-- A callback's positions in a buffer that starts at `a`. -/
def Call.back (a : Nat) : Call → Call
  | .element cb pos len => .element cb (pos - a) len
  | .httpField field flen value vlen => .httpField (field - a) flen (value - a) vlen

/-! ## The machine over one read -/

/-- `part` is the machine at position `p` of the read that starts at `a`, and `whole` the
machine over the whole head. -/
structure Tracks (start : Nat → Nat) (k : Known) (a : Nat) (whole part : HttpParser) : Prop where
  cs : part.cs = whole.cs
  uriRelaxed : part.uriRelaxed = whole.uriRelaxed
  mark : part.mark = whole.mark - a
  fieldStart : part.fieldStart = whole.fieldStart - a
  fieldLen : k.fieldLen →
    part.fieldLen = whole.fieldStart + whole.fieldLen - max whole.fieldStart a
  query : k.query → part.queryStart = whole.queryStart - start whole.queryStart

namespace Tracks

variable {start : Nat → Nat} {k k' : Known} {a p : Nat} {whole part : HttpParser}

theorem weaken (h : Tracks start k a whole part) (hcovers : k.covers k') :
    Tracks start k' a whole part := by
  unfold Known.covers at hcovers
  simp only [Bool.and_eq_true, Bool.or_eq_true, Bool.not_eq_true'] at hcovers
  refine ⟨h.cs, h.uriRelaxed, h.mark, h.fieldStart, fun hk => h.fieldLen ?_, fun hk => h.query ?_⟩
  · simpa [hk] using hcovers.2
  · simpa [hk] using hcovers.1

/-- A stretch from a mark to the current position. -/
theorem seen_element (hstart : start (a + p) = a) (hp : a + p < 2 ^ 64) {mark : Nat}
    (hmark : mark ≤ a + p) {cb : Element} (hcb : cb ≠ .queryString) :
    ((Call.element cb mark (HttpParser.len mark (a + p))).seen start).back a =
      .element cb (mark - a) (HttpParser.len (mark - a) p) := by
  rw [HttpParser.len_eq hmark hp, HttpParser.len_eq (by omega) (by omega)]
  have hafter : Span.after (start (mark + (a + p - mark))) ⟨mark, a + p - mark⟩
      = ⟨max mark a, a + p - max mark a⟩ := by
    rw [Nat.add_sub_cancel' hmark, hstart]
    simp only [Span.after, Span.stop, Span.mk.injEq, true_and]
    omega
  have hseen : (Call.element cb mark (a + p - mark)).seen start =
      .element cb (max mark a) (a + p - max mark a) := by
    cases cb with
    | queryString => exact absurd rfl hcb
    | _ => simp only [Call.seen, hafter, Span.call]
  rw [hseen, Call.back]
  congr 1 <;> omega

theorem act (h : Tracks start k a whole part) (hplaced : Placed 0 (a + p) k whole)
    (hstart : start (a + p) = a) (hp : a + p < 2 ^ 64) {x : Action}
    (hafter : k.after x = some k') :
    Tracks start k' a (whole.act (a + p) x).1 (part.act p x).1 ∧
      (part.act p x).2 = (whole.act (a + p) x).2.map fun c => (c.seen start).back a := by
  have helement {cb : Element} (hcb : cb ≠ .queryString) :
      [Call.element cb part.mark (HttpParser.len part.mark p)] =
        [Call.element cb whole.mark (HttpParser.len whole.mark (a + p))].map
          fun c => (c.seen start).back a := by
    rw [List.map_singleton, seen_element hstart hp hplaced.mark hcb, h.mark]
  cases x with
  | mark | startValue =>
      cases hafter
      exact ⟨⟨h.cs, h.uriRelaxed, (Nat.add_sub_cancel_left a p).symm, h.fieldStart, h.fieldLen,
        h.query⟩, rfl⟩
  | startField =>
      cases hafter
      exact ⟨⟨h.cs, h.uriRelaxed, h.mark, (Nat.add_sub_cancel_left a p).symm,
        fun hk => absurd hk Bool.false_ne_true, h.query⟩, rfl⟩
  | writeField =>
      cases hafter
      refine ⟨⟨h.cs, h.uriRelaxed, h.mark, h.fieldStart, fun _ => ?_, h.query⟩, rfl⟩
      have hle := hplaced.fieldStart
      simp only [HttpParser.act]
      rw [h.fieldStart, HttpParser.len_eq hle hp, HttpParser.len_eq (by omega) (by omega)]
      omega
  | startQuery =>
      cases hafter
      refine ⟨⟨h.cs, h.uriRelaxed, h.mark, h.fieldStart, h.fieldLen, fun _ => ?_⟩, rfl⟩
      simp only [HttpParser.act]
      rw [hstart, Nat.add_sub_cancel_left]
  | requestMethod | requestUri | fragment | requestPath | httpVersion =>
      cases hafter
      exact ⟨h, helement (by decide)⟩
  | queryString =>
      simp only [Known.after, Option.ite_none_right_eq_some, Option.some.injEq] at hafter
      obtain ⟨hk, rfl⟩ := hafter
      refine ⟨h, ?_⟩
      simp only [HttpParser.act, List.map_singleton, Call.seen, Call.back]
      rw [HttpParser.len_eq (hplaced.query hk).2 hp, Nat.add_sub_cancel' (hplaced.query hk).2,
        hstart, Nat.add_sub_cancel_left, Nat.add_sub_cancel_left, h.query hk]
  | writeValue =>
      simp only [Known.after, Option.ite_none_right_eq_some, Option.some.injEq] at hafter
      obtain ⟨hk, rfl⟩ := hafter
      refine ⟨h, ?_⟩
      have hmark := hplaced.mark
      simp only [HttpParser.act, List.map_singleton, Call.seen, Call.back, Field.call, Span.after,
        Span.stop]
      rw [HttpParser.len_eq hmark hp, Nat.add_sub_cancel' hmark, hstart, h.mark, h.fieldStart,
        h.fieldLen hk, HttpParser.len_eq (by omega) (by omega)]
      congr 2 <;> omega
  | xml | json | done =>
      cases hafter
      exact ⟨h, rfl⟩

theorem actAll (h : Tracks start k a whole part) (hplaced : Placed 0 (a + p) k whole)
    (hstart : start (a + p) = a) (hp : a + p < 2 ^ 64) {actions : List Action}
    (hafter : actions.foldlM Known.after k = some k') :
    Tracks start k' a (whole.actAll (a + p) actions).1 (part.actAll p actions).1 ∧
      (part.actAll p actions).2 =
        (whole.actAll (a + p) actions).2.map fun c => (c.seen start).back a := by
  induction actions generalizing k whole part with
  | nil =>
      cases hafter
      exact ⟨h, rfl⟩
  | cons x actions ih =>
      rw [List.foldlM_cons, Option.bind_eq_bind, Option.bind_eq_some_iff] at hafter
      obtain ⟨k₁, hfirst, hrest⟩ := hafter
      obtain ⟨hact, hcalls⟩ := h.act hplaced hstart hp hfirst
      obtain ⟨hall, hmore⟩ := ih hact (hplaced.act (Nat.zero_le _) hp hfirst).1 hrest
      refine ⟨hall, ?_⟩
      rw [HttpParser.actAll, HttpParser.actAll, List.map_append, hcalls, hmore]

theorem follow (h : Tracks start (known whole.cs) a whole part)
    (hplaced : Placed 0 (a + p) (known whole.cs) whole) (hstart : start (a + p) = a)
    (hp : a + p < 2 ^ 64) {c : UInt8} {t : Transition}
    (hnext : next whole.uriRelaxed whole.cs c = some t) (hstage : stage t.target ≠ .socket) :
    Tracks start (known t.target) a (whole.follow (a + p) t).1 (part.follow p t).1 ∧
      (part.follow p t).2 = (whole.follow (a + p) t).2.map fun c => (c.seen start).back a := by
  obtain ⟨k, hk, hcovers⟩ := (Option.any_eq_true _ _).mp ((next_sound hnext).marks hstage)
  have hsame : Tracks start (known whole.cs) a { whole with cs := t.target }
      { part with cs := t.target } :=
    ⟨rfl, h.uriRelaxed, h.mark, h.fieldStart, h.fieldLen, h.query⟩
  have hplaced' : Placed 0 (a + p) (known whole.cs) { whole with cs := t.target } :=
    ⟨hplaced.mark, hplaced.fieldStart, hplaced.fieldLen, hplaced.query⟩
  obtain ⟨hall, hcalls⟩ := hsame.actAll hplaced' hstart hp hk
  exact ⟨hall.weaken hcovers, hcalls⟩

theorem next_eq (h : Tracks start k a whole part) (c : UInt8) :
    next part.uriRelaxed part.cs c = next whole.uriRelaxed whole.cs c := by
  rw [h.cs, h.uriRelaxed]

/-- `execute` sets the marks to 0 at the start of the next read. -/
theorem reset (h : Tracks start k a whole part) (hplaced : Placed 0 (a + p) k whole) :
    Tracks start k (a + p) whole { part with mark := 0, fieldLen := 0, fieldStart := 0 } where
  cs := h.cs
  uriRelaxed := h.uriRelaxed
  mark := (Nat.sub_eq_zero_of_le hplaced.mark).symm
  fieldStart := (Nat.sub_eq_zero_of_le hplaced.fieldStart).symm
  fieldLen hk := by
    have := hplaced.fieldLen hk
    simp only
    omega
  query := h.query

end Tracks

/-- The last read: the machine stops behind the head. -/
theorem Accepts.exec_last {start : Nat → Nat} {a p : Nat} {whole part : HttpParser}
    {bytes : List UInt8} {calls : List Call} (h : Accepts whole (a + p) bytes calls)
    (htracks : Tracks start (known whole.cs) a whole part)
    (hplaced : Placed 0 (a + p) (known whole.cs) whole)
    (hstart : ∀ i, a + p ≤ i → i < a + p + bytes.length → start i = a)
    (hsize : a + p + bytes.length ≤ 2 ^ 64) (surplus : List UInt8) :
    ∃ part', part'.cs = 348 ∧ part.exec p (bytes ++ surplus) =
      (part', p + bytes.length, calls.map fun c => (c.seen start).back a) := by
  generalize hq : a + p = q at h
  induction h generalizing p part with
  | @last whole q c t hnext hend =>
      subst hq
      rw [List.length_singleton] at hstart hsize ⊢
      obtain ⟨_, hcalls⟩ := htracks.follow hplaced (hstart _ (Nat.le_refl _) (by omega)) (by omega)
        hnext (by rw [hend]; decide)
      have hdone := (next_sound hnext).final (by omega)
      refine ⟨(part.follow p t).1, by rw [HttpParser.follow_cs, hend], ?_⟩
      rw [List.singleton_append,
        HttpParser.exec_done ((htracks.next_eq c).trans hnext) hdone, hcalls]
  | @more whole q c t bytes calls hnext hgoes hrest ih =>
      subst hq
      rw [List.length_cons] at hstart hsize
      have hstage := hrest.stage_ne_socket
      rw [HttpParser.follow_cs] at hstage ih
      have hhere := hstart _ (Nat.le_refl _) (by omega)
      obtain ⟨htracks', hcalls⟩ := htracks.follow hplaced hhere (by omega) hnext hstage
      have hplaced' := (hplaced.follow (Nat.zero_le _) (by omega) hnext hstage).1
      obtain ⟨part', hcs, hexec⟩ := @ih (p + 1) _ htracks' (hplaced'.mono (by omega))
        (fun i hlow hhigh => hstart i (by omega) (by omega)) (by omega) (by omega)
      refine ⟨part', hcs, ?_⟩
      rw [List.cons_append, HttpParser.exec_more ((htracks.next_eq c).trans hnext) hgoes, hexec,
        hcalls, List.map_append, List.length_cons]
      simp only [Prod.mk.injEq, and_true, true_and]
      omega

/-- A read before the last one: the machine takes all of it and goes on. -/
theorem Accepts.exec_piece {start : Nat → Nat} {a p : Nat} {whole part : HttpParser}
    {piece bytes : List UInt8} {calls : List Call}
    (h : Accepts whole (a + p) (piece ++ bytes) calls) (hbytes : bytes ≠ [])
    (hcs : whole.cs < 348) (htracks : Tracks start (known whole.cs) a whole part)
    (hplaced : Placed 0 (a + p) (known whole.cs) whole)
    (hstart : ∀ i, a + p ≤ i → i < a + p + piece.length → start i = a)
    (hsize : a + p + (piece ++ bytes).length ≤ 2 ^ 64) :
    ∃ whole' part' here later, calls = here ++ later ∧
      (∀ c ∈ here, a + p ≤ c.stop ∧ c.stop < a + p + piece.length) ∧
      Accepts whole' (a + p + piece.length) bytes later ∧ whole'.cs < 348 ∧
      Tracks start (known whole'.cs) a whole' part' ∧
      Placed 0 (a + p + piece.length) (known whole'.cs) whole' ∧
      part.exec p piece =
        (part', p + piece.length, here.map fun c => (c.seen start).back a) := by
  induction piece generalizing p whole part calls with
  | nil =>
      exact ⟨whole, part, [], calls, rfl, fun c hc => absurd hc List.not_mem_nil, h, hcs, htracks,
        hplaced, rfl⟩
  | cons c piece ih =>
      rw [List.length_cons] at hstart
      rw [List.cons_append, List.length_cons] at hsize
      generalize hhead : c :: piece ++ bytes = head at h
      cases h with
      | last hnext hend => simp [hbytes] at hhead
      | @more _ _ _ t _ calls hnext hgoes hrest =>
          obtain ⟨rfl, rfl⟩ := List.cons.inj hhead
          have hstage := hrest.stage_ne_socket
          rw [HttpParser.follow_cs] at hstage
          have hhere := hstart _ (Nat.le_refl _) (by omega)
          obtain ⟨htracks', hcalls⟩ := htracks.follow hplaced hhere (by omega) hnext hstage
          obtain ⟨hplaced', hmade⟩ := hplaced.follow (Nat.zero_le _) (by omega) hnext hstage
          rw [← HttpParser.follow_cs (a + p) whole t] at htracks' hplaced'
          obtain ⟨whole', part', here, later, hsplit, hin, hlater, hcs', htracks'', hplaced'',
            hexec⟩ :=
              @ih (p + 1) _ _ _ hrest (by rw [HttpParser.follow_cs]; exact next_final hnext hgoes)
            htracks' (hplaced'.mono (by omega)) (fun i hlow hhigh => hstart i (by omega) (by omega))
            (by omega)
          refine ⟨whole', part', (whole.follow (a + p) t).2 ++ here, later,
            by rw [hsplit, List.append_assoc], ?_, ?_, hcs', htracks'', ?_, ?_⟩
          · intro d hd
            rw [List.length_cons]
            rcases List.mem_append.mp hd with hd | hd
            · have hstop := (hmade d hd).stop
              omega
            · have := hin d hd
              omega
          · rw [List.length_cons,
              (by omega : a + p + (piece.length + 1) = a + (p + 1) + piece.length)]
            exact hlater
          · rw [List.length_cons,
              (by omega : a + p + (piece.length + 1) = a + (p + 1) + piece.length)]
            exact hplaced''
          · rw [HttpParser.exec_more ((htracks.next_eq c).trans hnext) hgoes, hexec, hcalls,
              List.map_append, List.length_cons]
            simp only [Prod.mk.injEq, and_true, true_and]
            omega

end Lyslg.Http
