import Lyslg.Http.Http11Stages
import Lyslg.Http.RequestParser
/-!
# The parts of a request head

`Accepts` is a run of the machine that ends a head.  Its callbacks come in the order of the
grammar, so they are the parts of the head: `exists_parts` reads these off.
-/

namespace Lyslg.Http

open Http11 Support.Machine

/-! ## Runs that end a head -/

/-- From `parser` at position `p`, the machine goes through the bytes and ends the head at
the last one, with these callbacks. -/
inductive Accepts : HttpParser → Nat → List UInt8 → List Call → Prop
  | last {parser : HttpParser} {p : Nat} {c : UInt8} {t : Transition}
      (hnext : next parser.uriRelaxed parser.cs c = some t) (hend : t.target = 348) :
      Accepts parser p [c] (parser.follow p t).2
  | more {parser : HttpParser} {p : Nat} {c : UInt8} {t : Transition} {bytes : List UInt8}
      {calls : List Call} (hnext : next parser.uriRelaxed parser.cs c = some t)
      (hgoes : .done ∉ t.actions) (hrest : Accepts (parser.follow p t).1 (p + 1) bytes calls) :
      Accepts parser p (c :: bytes) ((parser.follow p t).2 ++ calls)

namespace HttpParser

theorem act_cs (p : Nat) (parser : HttpParser) (a : Action) :
    (parser.act p a).1.cs = parser.cs ∧ (parser.act p a).1.uriRelaxed = parser.uriRelaxed := by
  cases a <;> exact ⟨rfl, rfl⟩

theorem actAll_cs (p : Nat) (parser : HttpParser) (actions : List Action) :
    (parser.actAll p actions).1.cs = parser.cs ∧
      (parser.actAll p actions).1.uriRelaxed = parser.uriRelaxed := by
  induction actions generalizing parser with
  | nil => exact ⟨rfl, rfl⟩
  | cons a actions ih =>
      obtain ⟨hcs, hrelaxed⟩ := parser.act_cs p a
      obtain ⟨hcs', hrelaxed'⟩ := ih (parser.act p a).1
      exact ⟨hcs'.trans hcs, hrelaxed'.trans hrelaxed⟩

@[simp] theorem follow_cs (p : Nat) (parser : HttpParser) (t : Transition) :
    (parser.follow p t).1.cs = t.target :=
  (actAll_cs p { parser with cs := t.target } t.actions).1

@[simp] theorem follow_uriRelaxed (p : Nat) (parser : HttpParser) (t : Transition) :
    (parser.follow p t).1.uriRelaxed = parser.uriRelaxed :=
  (actAll_cs p { parser with cs := t.target } t.actions).2

theorem exec_none {parser : HttpParser} {c : UInt8}
    (hnext : next parser.uriRelaxed parser.cs c = none) (p : Nat) (bytes : List UInt8) :
    parser.exec p (c :: bytes) = ({ parser with cs := 0 }, p, []) := by
  rw [exec, hnext]

theorem exec_done {parser : HttpParser} {c : UInt8} {t : Transition}
    (hnext : next parser.uriRelaxed parser.cs c = some t) (hdone : .done ∈ t.actions) (p : Nat)
    (bytes : List UInt8) :
    parser.exec p (c :: bytes) = ((parser.follow p t).1, p + 1, (parser.follow p t).2) := by
  rw [exec, hnext]
  exact if_pos hdone

theorem exec_more {parser : HttpParser} {c : UInt8} {t : Transition}
    (hnext : next parser.uriRelaxed parser.cs c = some t) (hgoes : .done ∉ t.actions) (p : Nat)
    (bytes : List UInt8) :
    parser.exec p (c :: bytes) =
      (((parser.follow p t).1.exec (p + 1) bytes).1,
        ((parser.follow p t).1.exec (p + 1) bytes).2.1,
        (parser.follow p t).2 ++ ((parser.follow p t).1.exec (p + 1) bytes).2.2) := by
  rw [exec, hnext]
  exact if_neg hgoes

end HttpParser

theorem next_final {relaxed : Bool} {cs : Nat} {c : UInt8} {t : Transition}
    (hnext : next relaxed cs c = some t) (hgoes : .done ∉ t.actions) : t.target < 348 := by
  by_contra h
  exact hgoes ((next_sound hnext).final (by omega))

/-- A run over all of the bytes that ends in the state of a request. -/
theorem accepts_of_exec {parser : HttpParser} {p : Nat} {bytes : List UInt8} (hne : bytes ≠ [])
    (hcs : (parser.exec p bytes).1.cs = 348)
    (hall : (parser.exec p bytes).2.1 = p + bytes.length) :
    Accepts parser p bytes (parser.exec p bytes).2.2 := by
  induction bytes generalizing parser p with
  | nil => exact absurd rfl hne
  | cons c bytes ih =>
      cases hnext : next parser.uriRelaxed parser.cs c with
      | none =>
          rw [HttpParser.exec_none hnext] at hcs
          cases hcs
      | some t =>
          by_cases hdone : .done ∈ t.actions
          · rw [HttpParser.exec_done hnext hdone] at hcs hall ⊢
            simp only [List.length_cons] at hall
            have hnil : bytes = [] := List.length_eq_zero_iff.mp (by omega)
            rw [HttpParser.follow_cs] at hcs
            rw [hnil]
            exact .last hnext hcs
          · rw [HttpParser.exec_more hnext hdone] at hcs hall ⊢
            refine .more hnext hdone (ih ?_ hcs ?_)
            · rintro rfl
              have hfinal := next_final hnext hdone
              rw [HttpParser.exec, HttpParser.follow_cs] at hcs
              omega
            · rw [hall, List.length_cons]
              omega

theorem Accepts.ne_nil {parser : HttpParser} {p : Nat} {bytes : List UInt8} {calls : List Call}
    (h : Accepts parser p bytes calls) : bytes ≠ [] := by
  cases h <;> exact List.cons_ne_nil _ _

/-- A run that ends a head is not in the socket part of the machine. -/
theorem Accepts.stage_ne_socket {parser : HttpParser} {p : Nat} {bytes : List UInt8}
    {calls : List Call} (h : Accepts parser p bytes calls) : stage parser.cs ≠ .socket := by
  induction h with
  | last hnext hend =>
      intro hsocket
      have htarget := (next_sound hnext).socket hsocket
      rw [hend] at htarget
      cases htarget
  | more hnext _ _ ih =>
      intro hsocket
      rw [HttpParser.follow_cs] at ih
      exact ih ((next_sound hnext).socket hsocket)

/-! ## The order of the callbacks -/

/-- The action that makes a callback. -/
def Element.action : Element → Action
  | .requestMethod => .requestMethod
  | .requestUri => .requestUri
  | .fragment => .fragment
  | .requestPath => .requestPath
  | .queryString => .queryString
  | .httpVersion => .httpVersion

@[inherit_doc Element.action]
def Call.action : Call → Action
  | .element cb _ _ => cb.action
  | .httpField _ _ _ _ => .writeValue

theorem HttpParser.actAll_actions (p : Nat) (parser : HttpParser) (actions : List Action) :
    (parser.actAll p actions).2.map Call.action = actions.filter Action.calls := by
  induction actions generalizing parser with
  | nil => rfl
  | cons a actions ih =>
      rw [actAll, List.map_append, ih]
      cases a <;> rfl

/-- A stretch of the head. -/
structure Span where
  pos : Nat
  len : Nat
  deriving DecidableEq, Repr

def Span.stop (s : Span) : Nat := s.pos + s.len

def Span.call (s : Span) (cb : Element) : Call := .element cb s.pos s.len

/-- A header field. -/
structure Field where
  name : Span
  value : Span
  deriving DecidableEq, Repr

def Field.call (f : Field) : Call :=
  .httpField f.name.pos f.name.len f.value.pos f.value.len

/-- What a head is made of. -/
structure Parts where
  method : Span
  path : Span
  query : Option Span
  uri : Span
  fragment : Option Span
  version : Span
  fields : List Field
  deriving DecidableEq, Repr

/-- The callbacks for these parts. -/
def Parts.calls (parts : Parts) : List Call :=
  parts.method.call .requestMethod :: parts.path.call .requestPath ::
    ((parts.query.map fun s => s.call .queryString).toList ++
      parts.uri.call .requestUri ::
        ((parts.fragment.map fun s => s.call .fragment).toList ++
          parts.version.call .httpVersion :: parts.fields.map Field.call))

/-- The callbacks from a stage on. -/
inductive Follows : Stage → List Call → Prop
  | headers (fields : List Field) : Follows .headers (fields.map Field.call)
  | version (s : Span) {calls : List Call} (h : Follows .headers calls) :
      Follows .version (s.call .httpVersion :: calls)
  | fragment (s : Span) {calls : List Call} (h : Follows .version calls) :
      Follows .fragment (s.call .fragment :: calls)
  | query (s uri : Span) {st : Stage} {calls : List Call} (hst : st ∈ [.fragment, .version])
      (h : Follows st calls) : Follows .query (s.call .queryString :: uri.call .requestUri :: calls)
  | pathQuery (s : Span) {calls : List Call} (h : Follows .query calls) :
      Follows .path (s.call .requestPath :: calls)
  | path (s uri : Span) {st : Stage} {calls : List Call} (hst : st ∈ [.fragment, .version])
      (h : Follows st calls) : Follows .path (s.call .requestPath :: uri.call .requestUri :: calls)
  | method (s : Span) {calls : List Call} (h : Follows .path calls) :
      Follows .method (s.call .requestMethod :: calls)

theorem Call.exists_span {c : Call} {cb : Element} (h : c.action = cb.action) :
    ∃ s : Span, c = s.call cb := by
  cases c with
  | element cb' pos len =>
      have hcb : cb' = cb := by cases cb' <;> cases cb <;> first | rfl | cases h
      exact ⟨⟨pos, len⟩, by rw [hcb]; rfl⟩
  | httpField => cases cb <;> cases h

theorem Call.exists_field {c : Call} (h : c.action = .writeValue) : ∃ f : Field, c = f.call := by
  cases c with
  | element cb => cases cb <;> cases h
  | httpField field flen value vlen => exact ⟨⟨⟨field, flen⟩, ⟨value, vlen⟩⟩, rfl⟩

theorem exists_spans_two {new : List Call} (cb cb' : Element)
    (h : new.map Call.action = [cb.action, cb'.action]) :
    ∃ s s' : Span, new = [s.call cb, s'.call cb'] := by
  obtain ⟨c, rest, rfl, hc, hrest⟩ := List.map_eq_cons_iff.mp h
  obtain ⟨d, rest', rfl, hd, hnil⟩ := List.map_eq_cons_iff.mp hrest
  obtain ⟨s, rfl⟩ := Call.exists_span hc
  obtain ⟨s', rfl⟩ := Call.exists_span hd
  exact ⟨s, s', by rw [List.map_eq_nil_iff.mp hnil]⟩

theorem exists_spans_one {new : List Call} (cb : Element) (h : new.map Call.action = [cb.action]) :
    ∃ s : Span, new = [s.call cb] := by
  obtain ⟨c, rest, rfl, hc, hnil⟩ := List.map_eq_cons_iff.mp h
  obtain ⟨s, rfl⟩ := Call.exists_span hc
  exact ⟨s, by rw [List.map_eq_nil_iff.mp hnil]⟩

/-- The callbacks of a transition, before those of the stage it leads to. -/
theorem Follows.before {st st' : Stage} {new calls : List Call}
    (hlead : st' ∈ st.leads (new.map Call.action)) (h : Follows st' calls) :
    Follows st (new ++ calls) := by
  generalize hactions : new.map Call.action = actions at hlead
  unfold Stage.leads at hlead
  split at hlead
  case h_14 => cases hlead
  case h_2 =>
      obtain ⟨s, rfl⟩ := exists_spans_one .requestMethod hactions
      rw [List.mem_singleton.mp hlead] at h
      exact .method s h
  case h_4 =>
      obtain ⟨s, rfl⟩ := exists_spans_one .requestPath hactions
      rw [List.mem_singleton.mp hlead] at h
      exact .pathQuery s h
  case h_5 =>
      obtain ⟨s, uri, rfl⟩ := exists_spans_two .requestPath .requestUri hactions
      exact .path s uri hlead h
  case h_7 =>
      obtain ⟨s, uri, rfl⟩ := exists_spans_two .queryString .requestUri hactions
      exact .query s uri hlead h
  case h_9 =>
      obtain ⟨s, rfl⟩ := exists_spans_one .fragment hactions
      rw [List.mem_singleton.mp hlead] at h
      exact .fragment s h
  case h_11 =>
      obtain ⟨s, rfl⟩ := exists_spans_one .httpVersion hactions
      rw [List.mem_singleton.mp hlead] at h
      exact .version s h
  case h_13 =>
      obtain ⟨c, rest, rfl, hc, hnil⟩ := List.map_eq_cons_iff.mp hactions
      obtain ⟨f, rfl⟩ := Call.exists_field hc
      rw [List.map_eq_nil_iff.mp hnil]
      rw [List.mem_singleton.mp hlead] at h
      cases h with
      | headers fields => exact .headers (f :: fields)
  all_goals
    rw [List.map_eq_nil_iff.mp hactions, List.nil_append]
    rwa [List.mem_singleton.mp hlead] at h

theorem Accepts.follows {parser : HttpParser} {p : Nat} {bytes : List UInt8} {calls : List Call}
    (h : Accepts parser p bytes calls) : Follows (stage parser.cs) calls := by
  induction h with
  | @last parser p c t hnext hend =>
      have hheaders : stage t.target = .headers := by rw [hend]; rfl
      have hlead := (next_sound hnext).leads (by rw [hheaders]; intro h; cases h)
      rw [← HttpParser.actAll_actions p { parser with cs := t.target }, hheaders] at hlead
      have hbefore := Follows.before hlead (Follows.headers [])
      rwa [List.map_nil, List.append_nil] at hbefore
  | @more parser p c t bytes calls hnext hgoes hrest ih =>
      have hstage := hrest.stage_ne_socket
      rw [HttpParser.follow_cs] at hstage ih
      have hlead := (next_sound hnext).leads hstage
      rw [← HttpParser.actAll_actions p { parser with cs := t.target }] at hlead
      exact Follows.before hlead ih

/-! ## Where the parts are -/

/-- Where a callback's piece begins. -/
def Call.pos : Call → Nat
  | .element _ pos _ => pos
  | .httpField field _ _ _ => field

/-- Where a callback's piece ends. -/
def Call.stop : Call → Nat
  | .element _ pos len => pos + len
  | .httpField _ _ value vlen => value + vlen

/-- Where the name of a field ends. -/
def Call.nameStop : Call → Nat
  | .element _ pos _ => pos
  | .httpField field flen _ _ => field + flen

/-- The marks lie before `p`, and the query's not before `low`. -/
structure Placed (low p : Nat) (k : Known) (parser : HttpParser) : Prop where
  mark : parser.mark ≤ p
  fieldStart : parser.fieldStart ≤ p
  fieldLen : k.fieldLen → parser.fieldStart + parser.fieldLen ≤ p
  query : k.query → low ≤ parser.queryStart ∧ parser.queryStart ≤ p

/-- A callback at `p`. -/
structure Call.MadeAt (low p : Nat) (c : Call) : Prop where
  stop : c.stop = p
  name : c.nameStop ≤ p
  query : c.action = .queryString → low ≤ c.pos

namespace Placed

variable {low p : Nat} {k k' : Known} {parser : HttpParser}

theorem init (raw : HttpParser) : Placed 0 0 (known 1) raw.init where
  mark := Nat.le_refl 0
  fieldStart := Nat.le_refl 0
  fieldLen h := by cases h
  query h := by cases h

theorem mono {p' : Nat} (h : Placed low p k parser) (hp : p ≤ p') : Placed low p' k parser where
  mark := h.mark.trans hp
  fieldStart := h.fieldStart.trans hp
  fieldLen hk := (h.fieldLen hk).trans hp
  query hk := ⟨(h.query hk).1, (h.query hk).2.trans hp⟩

theorem weaken (h : Placed low p k parser) (hcovers : k.covers k') : Placed low p k' parser := by
  unfold Known.covers at hcovers
  simp only [Bool.and_eq_true, Bool.or_eq_true, Bool.not_eq_true'] at hcovers
  refine ⟨h.mark, h.fieldStart, fun hk => h.fieldLen ?_, fun hk => h.query ?_⟩
  · simpa [hk] using hcovers.2
  · simpa [hk] using hcovers.1

end Placed

theorem HttpParser.len_eq {mark fpc : Nat} (hmark : mark ≤ fpc) (hfpc : fpc < 2 ^ 64) :
    len mark fpc = fpc - mark :=
  subSize_of_le hfpc hmark

/-- A callback with the stretch from a mark to `p`. -/
theorem Call.madeAt_element {low p mark : Nat} {cb : Element} (hmark : mark ≤ p) (hp : p < 2 ^ 64)
    (hlow : cb = .queryString → low ≤ mark) :
    (Call.element cb mark (HttpParser.len mark p)).MadeAt low p where
  stop := by
    rw [HttpParser.len_eq hmark hp]
    exact Nat.add_sub_cancel' hmark
  name := hmark
  query h := hlow (by cases cb <;> first | rfl | cases h)

theorem Placed.act {low p : Nat} {k k' : Known} {parser : HttpParser}
    (h : Placed low p k parser) (hlow : low ≤ p) (hp : p < 2 ^ 64) {a : Action}
    (hafter : k.after a = some k') :
    Placed low p k' (parser.act p a).1 ∧ ∀ c ∈ (parser.act p a).2, c.MadeAt low p := by
  have hmark {cb : Element} (hcb : cb ≠ .queryString) : ∀ c ∈ [Call.element cb parser.mark
      (HttpParser.len parser.mark p)], c.MadeAt low p := by
    intro c hc
    rw [List.mem_singleton.mp hc]
    exact Call.madeAt_element h.mark hp fun h => absurd h hcb
  have hnone : ∀ c ∈ ([] : List Call), c.MadeAt low p := fun c hc => absurd hc List.not_mem_nil
  cases a with
  | mark | startValue =>
      cases hafter
      exact ⟨⟨Nat.le_refl p, h.fieldStart, h.fieldLen, h.query⟩, hnone⟩
  | startField =>
      cases hafter
      exact ⟨⟨h.mark, Nat.le_refl p, fun hk => absurd hk Bool.false_ne_true, h.query⟩, hnone⟩
  | writeField =>
      cases hafter
      refine ⟨⟨h.mark, h.fieldStart, fun _ => ?_, h.query⟩, hnone⟩
      simp only [HttpParser.act]
      rw [HttpParser.len_eq h.fieldStart hp, Nat.add_sub_cancel' h.fieldStart]
  | startQuery =>
      cases hafter
      exact ⟨⟨h.mark, h.fieldStart, h.fieldLen, fun _ => ⟨hlow, Nat.le_refl p⟩⟩, hnone⟩
  | requestMethod | requestUri | fragment | requestPath | httpVersion =>
      cases hafter
      exact ⟨h, hmark (by decide)⟩
  | queryString =>
      simp only [Known.after, Option.ite_none_right_eq_some, Option.some.injEq] at hafter
      obtain ⟨hk, rfl⟩ := hafter
      refine ⟨h, fun c hc => ?_⟩
      rw [List.mem_singleton.mp hc]
      exact Call.madeAt_element (h.query hk).2 hp fun _ => (h.query hk).1
  | writeValue =>
      simp only [Known.after, Option.ite_none_right_eq_some, Option.some.injEq] at hafter
      obtain ⟨hk, rfl⟩ := hafter
      refine ⟨h, fun c hc => ?_⟩
      rw [List.mem_singleton.mp hc]
      refine ⟨?_, h.fieldLen hk, fun h => by cases h⟩
      rw [HttpParser.len_eq h.mark hp]
      exact Nat.add_sub_cancel' h.mark
  | xml | json | done =>
      cases hafter
      exact ⟨h, hnone⟩

theorem Placed.actAll {low p : Nat} {k k' : Known} {parser : HttpParser}
    (h : Placed low p k parser) (hlow : low ≤ p) (hp : p < 2 ^ 64) {actions : List Action}
    (hafter : actions.foldlM Known.after k = some k') :
    Placed low p k' (parser.actAll p actions).1 ∧
      ∀ c ∈ (parser.actAll p actions).2, c.MadeAt low p := by
  induction actions generalizing k parser with
  | nil =>
      cases hafter
      exact ⟨h, fun c hc => absurd hc List.not_mem_nil⟩
  | cons a actions ih =>
      rw [List.foldlM_cons, Option.bind_eq_bind, Option.bind_eq_some_iff] at hafter
      obtain ⟨k₁, hfirst, hrest⟩ := hafter
      obtain ⟨hact, hcalls⟩ := h.act hlow hp hfirst
      obtain ⟨hall, hmore⟩ := ih hact hrest
      refine ⟨hall, fun c hc => ?_⟩
      rcases List.mem_append.mp hc with hc | hc
      · exact hcalls c hc
      · exact hmore c hc

theorem Placed.follow {low p : Nat} {parser : HttpParser} {c : UInt8} {t : Transition}
    (h : Placed low p (known parser.cs) parser) (hlow : low ≤ p) (hp : p < 2 ^ 64)
    (hnext : next parser.uriRelaxed parser.cs c = some t) (hstage : stage t.target ≠ .socket) :
    Placed low p (known t.target) (parser.follow p t).1 ∧
      ∀ c ∈ (parser.follow p t).2, c.MadeAt low p := by
  obtain ⟨k, hk, hcovers⟩ := (Option.any_eq_true _ _).mp ((next_sound hnext).marks hstage)
  have hsame : Placed low p (known parser.cs) { parser with cs := t.target } :=
    ⟨h.mark, h.fieldStart, h.fieldLen, h.query⟩
  obtain ⟨hall, hcalls⟩ := hsame.actAll hlow hp hk
  exact ⟨hall.weaken hcovers, hcalls⟩

/-- A callback for a part of the bytes at `p`. -/
structure Call.Lies (low p : Nat) (bytes : List UInt8) (c : Call) : Prop where
  le_stop : p ≤ c.stop
  stop_lt : c.stop < p + bytes.length
  name : c.nameStop ≤ c.stop
  query : c.action = .queryString → low ≤ c.pos
  space : c.action = .requestMethod → bytes[c.stop - p]? = some 32

/-- A callback of the transition on the first byte. -/
theorem Call.MadeAt.lies {low p : Nat} {parser : HttpParser} {b : UInt8} {t : Transition}
    {c : Call} (h : c.MadeAt low p) (hnext : next parser.uriRelaxed parser.cs b = some t)
    (hc : c ∈ (parser.follow p t).2) (bytes : List UInt8) : c.Lies low p (b :: bytes) where
  le_stop := h.stop.ge
  stop_lt := by
    rw [h.stop, List.length_cons]
    omega
  name := h.stop.symm ▸ h.name
  query := h.query
  space hmethod := by
    have hmem : c.action ∈ t.actions.filter Action.calls := by
      rw [← HttpParser.actAll_actions p { parser with cs := t.target }]
      exact List.mem_map_of_mem hc
    rw [hmethod] at hmem
    rw [h.stop, Nat.sub_self, next_method_space hnext (List.mem_of_mem_filter hmem)]
    rfl

theorem Call.Lies.cons {low p : Nat} {bytes : List UInt8} {c : Call} (h : c.Lies low (p + 1) bytes)
    (b : UInt8) : c.Lies low p (b :: bytes) where
  le_stop := by
    have := h.le_stop
    omega
  stop_lt := by
    have := h.stop_lt
    rw [List.length_cons]
    omega
  name := h.name
  query := h.query
  space hmethod := by
    have := h.le_stop
    rw [(by omega : c.stop - p = c.stop - (p + 1) + 1), List.getElem?_cons_succ]
    exact h.space hmethod

theorem Accepts.call_lies {parser : HttpParser} {p : Nat} {bytes : List UInt8} {calls : List Call}
    (h : Accepts parser p bytes calls) {low : Nat} (hplaced : Placed low p (known parser.cs) parser)
    (hlow : low ≤ p) (hsize : p + bytes.length ≤ 2 ^ 64) {c : Call} (hc : c ∈ calls) :
    c.Lies low p bytes := by
  induction h with
  | last hnext hend =>
      rw [List.length_singleton] at hsize
      obtain ⟨_, hcalls⟩ := hplaced.follow hlow (by omega) hnext (by rw [hend]; decide)
      exact (hcalls c hc).lies hnext hc []
  | @more parser p b t bytes calls hnext hgoes hrest ih =>
      rw [List.length_cons] at hsize
      have hstage := hrest.stage_ne_socket
      rw [HttpParser.follow_cs] at hstage ih
      obtain ⟨hplaced', hcalls⟩ := hplaced.follow hlow (by omega) hnext hstage
      rcases List.mem_append.mp hc with hc | hc
      · exact (hcalls c hc).lies hnext hc bytes
      · exact (ih (hplaced'.mono (Nat.le_succ p)) (by omega) (by omega) hc).cons b

/-- The method comes first, and the query begins behind it. -/
theorem Accepts.method_first {parser : HttpParser} {p : Nat} {bytes : List UInt8}
    {calls : List Call} (h : Accepts parser p bytes calls) (hmethod : stage parser.cs = .method)
    (hplaced : Placed 0 p (known parser.cs) parser) (hsize : p + bytes.length ≤ 2 ^ 64) :
    ∃ (s : Span) (rest : List Call), calls = s.call .requestMethod :: rest ∧
      ∀ c ∈ rest, c.action = .queryString → s.stop ≤ c.pos := by
  induction h with
  | @last parser p c t hnext hend =>
      have hlead := (next_sound hnext).leads (by rw [hend]; decide)
      rw [hmethod, hend] at hlead
      rcases Stage.leads_method hlead with ⟨_, hst⟩ | ⟨_, hst⟩ <;> cases hst
  | @more parser p b t bytes calls hnext hgoes hrest ih =>
      rw [List.length_cons] at hsize
      have hstage := hrest.stage_ne_socket
      rw [HttpParser.follow_cs] at hstage ih
      obtain ⟨hplaced', hcalls⟩ := hplaced.follow (Nat.zero_le p) (by omega) hnext hstage
      have hlead := (next_sound hnext).leads hstage
      rw [hmethod, ← HttpParser.actAll_actions p { parser with cs := t.target }] at hlead
      rcases Stage.leads_method hlead with ⟨hactions, hst⟩ | ⟨hactions, hst⟩
      · obtain ⟨s, rest, hrest, hquery⟩ := ih hst (hplaced'.mono (Nat.le_succ p)) (by omega)
        refine ⟨s, rest, ?_, hquery⟩
        rw [hrest, HttpParser.follow, List.map_eq_nil_iff.mp hactions, List.nil_append]
      · obtain ⟨s, hs⟩ := exists_spans_one .requestMethod hactions
        have hstop : s.stop = p :=
          (hcalls (s.call .requestMethod) (by rw [HttpParser.follow, hs]; exact .head _)).stop
        refine ⟨s, calls, by rw [HttpParser.follow, hs]; rfl, fun c hc hquery => ?_⟩
        -- `query_start` is not set yet
        have hlater : Placed p (p + 1) (known (parser.follow p t).1.cs) (parser.follow p t).1 := by
          rw [HttpParser.follow_cs]
          refine ⟨hplaced'.mark.trans (Nat.le_succ p), hplaced'.fieldStart.trans (Nat.le_succ p),
            fun hk => (hplaced'.fieldLen hk).trans (Nat.le_succ p), fun hk => ?_⟩
          rw [stage_of_known_query hk] at hst
          cases hst
        rw [hstop]
        exact (hrest.call_lies hlater (Nat.le_succ p) (by omega) hc).query hquery

/-! ## The parts -/

/-- The callbacks from the fragment or the version on. -/
theorem Follows.exists_tail {st : Stage} {calls : List Call} (h : Follows st calls)
    (hst : st ∈ [.fragment, .version]) :
    ∃ (fragment : Option Span) (version : Span) (fields : List Field),
      calls = (fragment.map fun s => s.call .fragment).toList ++
        version.call .httpVersion :: fields.map Field.call := by
  cases h with
  | fragment s h =>
      cases h with
      | version v h =>
          cases h with
          | headers fields => exact ⟨some s, v, fields, rfl⟩
  | version v h =>
      cases h with
      | headers fields => exact ⟨none, v, fields, rfl⟩
  | _ => simp at hst

theorem Follows.exists_parts {calls : List Call} (h : Follows .method calls) :
    ∃ parts : Parts, calls = parts.calls := by
  cases h with
  | method m hpath =>
      cases hpath with
      | pathQuery s hquery =>
          cases hquery with
          | query q uri hst htail =>
              obtain ⟨fragment, version, fields, rfl⟩ := htail.exists_tail hst
              exact ⟨⟨m, s, some q, uri, fragment, version, fields⟩, rfl⟩
      | path s uri hst htail =>
          obtain ⟨fragment, version, fields, rfl⟩ := htail.exists_tail hst
          exact ⟨⟨m, s, none, uri, fragment, version, fields⟩, rfl⟩

/-- The parts lie in the head, and the query behind the method. -/
structure Parts.Within (parts : Parts) (head : List UInt8) : Prop where
  lies : ∀ c ∈ parts.calls, c.Lies 0 0 head
  query : ∀ q ∈ parts.query, parts.method.stop ≤ q.pos

/-- The callbacks of a head are its parts. -/
theorem Accepts.exists_parts {raw : HttpParser} {head : List UInt8} {calls : List Call}
    (h : Accepts raw.init 0 head calls) (hsize : head.length ≤ 2 ^ 64) :
    ∃ parts : Parts, calls = parts.calls ∧ parts.Within head := by
  have hplaced := Placed.init raw
  have hsize' : 0 + head.length ≤ 2 ^ 64 := by omega
  obtain ⟨parts, rfl⟩ := h.follows.exists_parts
  obtain ⟨s, rest, hfirst, hquery⟩ := h.method_first rfl hplaced hsize'
  obtain ⟨hs, rfl⟩ := List.cons.inj hfirst
  refine ⟨parts, rfl, fun c hc => h.call_lies hplaced (Nat.le_refl 0) hsize' hc, fun q hq => ?_⟩
  have hstop : parts.method.stop = s.stop := congrArg Call.stop hs
  rw [hstop]
  apply hquery (q.call .queryString) _ rfl
  rw [Option.mem_def.mp hq]
  exact .tail _ (.head _)

end Lyslg.Http
