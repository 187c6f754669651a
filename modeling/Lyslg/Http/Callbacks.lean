import Lyslg.Http.CutHead
import Lyslg.Support.Memory
import Mathlib.Data.List.Find
/-!
# What the callbacks do

A callback throws, refuses the request or fills in a part of it, and which of these
depends only on the bytes it is given.  So the callbacks of one read, with positions in its
buffer, do what `Call.seen` does on the head.
-/

namespace Lyslg.Http

open Http11 Support.Machine Support.Memory

/-! ## Throw, refuse, fill -/

/-- The callback makes a string that is too long. -/
def Call.throws : Call → Bool
  | .element .fragment _ len | .element .requestPath _ len | .element .queryString _ len =>
      2 ^ 63 ≤ len
  | .element _ _ _ => false
  | .httpField _ flen _ vlen => flen ≠ 0 ∧ (2 ^ 63 ≤ flen ∨ 2 ^ 63 ≤ vlen)

/-- The error the callback sets. -/
def Call.refusal (buffer : List UInt8) : Call → Option Int
  | .element .requestMethod pos _ =>
      if charsToHttpMethod (buffer.drop pos) = .invalidMethod then some 1000 else none
  | .element .httpVersion pos len =>
      if charsToVersion (buffer.drop pos) len = none then some 1001 else none
  | _ => none

def Call.fill (buffer : List UInt8) (r : HttpRequest) : Call → HttpRequest
  | .element .requestMethod pos _ =>
      if charsToHttpMethod (buffer.drop pos) = .invalidMethod then r
      else { r with method := charsToHttpMethod (buffer.drop pos) }
  | .element .requestUri _ _ => r
  | .element .fragment pos len => { r with fragment := slice buffer pos len }
  | .element .requestPath pos len => { r with path := slice buffer pos len }
  | .element .queryString pos len => { r with query := slice buffer pos len }
  | .element .httpVersion pos len =>
      { r with version := (charsToVersion (buffer.drop pos) len).getD r.version }
  | .httpField field flen value vlen =>
      if flen = 0 then r else r.setHeader (slice buffer field flen) (slice buffer value vlen)

namespace HttpRequestParser

theorem stdString_eq (buffer : List UInt8) (pos len : Nat) :
    stdString buffer pos len = if 2 ^ 63 ≤ len then none else some (slice buffer pos len) := by
  unfold stdString slice
  by_cases h : len < 2 ^ 63
  · rw [if_pos h, if_neg (by omega)]
  · rw [if_neg h, if_pos (by omega)]

theorem callback_eq (buffer : List UInt8) (self : HttpRequestParser) (c : Call) :
    callback buffer self c =
      if c.throws then none
      else some { self with
        data := c.fill buffer self.data, error := (c.refusal buffer).getD self.error } := by
  cases c with
  | element cb pos len =>
      cases cb with
      | requestMethod =>
          simp only [callback, onRequestMethod, Call.throws, Call.fill, Call.refusal]
          split
          · rename_i h
            simp [h, setError]
          · rename_i h
            rw [if_neg h, if_neg h]
            rfl
      | requestUri => rfl
      | httpVersion =>
          simp only [callback, onRequestVersion, Call.throws, Call.fill, Call.refusal]
          split
          · rename_i h
            simp [h, setError]
          · rename_i h
            simp [h]
      | fragment | requestPath | queryString =>
          simp only [callback, Call.throws, stdString_eq, decide_eq_true_eq]
          split <;> rfl
  | httpField field flen value vlen =>
      simp only [callback, Call.throws, Call.fill, Call.refusal, stdString_eq, decide_eq_true_eq]
      by_cases hzero : flen = 0
      · rw [if_pos hzero, if_neg (fun h => h.1 hzero), if_pos hzero]
        rfl
      · rw [if_neg hzero, if_neg hzero]
        by_cases hname : 2 ^ 63 ≤ flen
        · rw [if_pos hname, if_pos (⟨hzero, .inl hname⟩ : flen ≠ 0 ∧ _)]
          rfl
        · by_cases hvalue : 2 ^ 63 ≤ vlen
          · rw [if_neg hname, if_pos hvalue, if_pos ⟨hzero, .inr hvalue⟩]
            rfl
          · rw [if_neg hname, if_neg hvalue, if_neg (fun h => h.2.elim hname hvalue)]
            rfl

theorem foldlM_callback (buffer : List UInt8) (self : HttpRequestParser) (calls : List Call) :
    calls.foldlM (callback buffer) self =
      if calls.any Call.throws then none
      else some { self with
        data := calls.foldl (Call.fill buffer) self.data
        error := calls.foldl (fun e c => (c.refusal buffer).getD e) self.error } := by
  induction calls generalizing self with
  | nil => rfl
  | cons c calls ih =>
      rw [List.foldlM_cons, callback_eq, List.any_cons]
      by_cases hthrows : c.throws
      · simp [hthrows]
      · rw [if_neg hthrows]
        simp only [Bool.eq_false_of_not_eq_true hthrows, Bool.false_or, Option.bind_eq_bind,
          Option.bind_some, ih, List.foldl_cons]

end HttpRequestParser

theorem Call.refusal_ne_zero {buffer : List UInt8} {c : Call} {e : Int}
    (h : c.refusal buffer = some e) : e ≠ 0 := by
  unfold Call.refusal at h
  split at h
  · split at h
    · cases h
      decide
    · cases h
  · split at h
    · cases h
      decide
    · cases h
  · cases h

/-- An error stays. -/
theorem foldl_refusal_eq_zero (buffer : List UInt8) (calls : List Call) (e : Int) :
    calls.foldl (fun e c => (c.refusal buffer).getD e) e = 0 ↔
      e = 0 ∧ ∀ c ∈ calls, c.refusal buffer = none := by
  induction calls generalizing e with
  | nil => simp
  | cons c calls ih =>
      rw [List.foldl_cons, ih, List.forall_mem_cons]
      cases hc : c.refusal buffer with
      | none => simp
      | some v =>
          have := Call.refusal_ne_zero hc
          simp [this]

/-! ## The bytes they look at -/

theorem methodNames_no_space : ∀ entry ∈ httpMethodMap, 32 ∉ entry.2 := by
  decide

/-- The method ends at a space. -/
theorem charsToHttpMethod_take {m : List UInt8} {n : Nat} (h : m[n]? = some 32) :
    charsToHttpMethod m = charsToHttpMethod (m.take n) := by
  have hsame : ∀ entry ∈ httpMethodMap,
      entry.2.isPrefixOf m = entry.2.isPrefixOf (m.take n) := by
    intro entry hentry
    rw [Bool.eq_iff_iff, List.isPrefixOf_iff_prefix, List.isPrefixOf_iff_prefix,
      List.prefix_take_iff]
    constructor
    · intro hbegins
      refine ⟨hbegins, ?_⟩
      by_contra hlong
      have hat := List.prefix_iff_getElem?.mp hbegins n (by omega)
      rw [h] at hat
      apply methodNames_no_space entry hentry
      rw [Option.some.inj hat]
      exact List.getElem_mem _
    · exact fun h => h.1
  unfold charsToHttpMethod
  rw [List.find?_congr hsame]

/-- The first `b` bytes of the buffer are those of the head at `a`. -/
def Holds (head : List UInt8) (a b : Nat) (buffer : List UInt8) : Prop :=
  buffer.take b = (head.drop a).take b

theorem Holds.take {head buffer : List UInt8} {a b : Nat} (h : Holds head a b buffer)
    {pos n : Nat} (hlow : a ≤ pos) (hhigh : pos + n ≤ a + b) :
    (buffer.drop (pos - a)).take n = (head.drop pos).take n := by
  have hcut (l : List UInt8) : (l.drop (pos - a)).take n = ((l.take b).drop (pos - a)).take n := by
    rw [List.drop_take, List.take_take, Nat.min_eq_left (by omega)]
  rw [hcut buffer, h, ← hcut, List.drop_drop, Nat.add_sub_cancel' hlow]

theorem strncmpZero_take {s s' : List UInt8} {len : Nat} (h : s.take len = s'.take len)
    (t : List UInt8) : strncmpZero s t len = strncmpZero s' t len := by
  unfold strncmpZero
  rw [h]

theorem charsToVersion_take {s s' : List UInt8} {len : Nat} (h : s.take len = s'.take len) :
    charsToVersion s len = charsToVersion s' len := by
  unfold charsToVersion
  rw [strncmpZero_take h, strncmpZero_take h]

/-- The callback gets bytes of the head between `a` and `a + b`, unless the query is too
long; behind a method there is a space. -/
def Call.InBuffer (head : List UInt8) (a b : Nat) : Call → Prop
  | .element cb pos len =>
      a ≤ pos ∧ (pos + len ≤ a + b ∨ cb = .queryString ∧ 2 ^ 63 ≤ len) ∧
        (cb = .requestMethod → pos + len < a + b ∧ head[pos + len]? = some 32)
  | .httpField field flen value vlen =>
      a ≤ field ∧ a ≤ value ∧ field + flen ≤ a + b ∧ value + vlen ≤ a + b

namespace Call

variable {head buffer : List UInt8} {a b : Nat} {c : Call}

@[simp] theorem throws_back (a : Nat) (c : Call) : (c.back a).throws = c.throws := by
  cases c with
  | element cb _ _ => cases cb <;> rfl
  | httpField => rfl

theorem InBuffer.method {pos len : Nat}
    (h : (Call.element .requestMethod pos len).InBuffer head a b) (hholds : Holds head a b buffer) :
    charsToHttpMethod (buffer.drop (pos - a)) = charsToHttpMethod (head.drop pos) := by
  obtain ⟨hlow, _, hmethod⟩ := h
  obtain ⟨hhigh, hspace⟩ := hmethod rfl
  have hhead : (head.drop pos)[len]? = some 32 := by rwa [List.getElem?_drop]
  have hbuffer : (buffer.drop (pos - a))[len]? = some 32 := by
    have hsame := @Holds.take _ _ _ _ hholds _ (len + 1) hlow (by omega)
    rw [← List.getElem?_take_of_lt (Nat.lt_succ_self len), hsame,
      List.getElem?_take_of_lt (Nat.lt_succ_self len), hhead]
  rw [charsToHttpMethod_take hhead, charsToHttpMethod_take hbuffer,
    hholds.take hlow (by omega)]

theorem InBuffer.version {pos len : Nat}
    (h : (Call.element .httpVersion pos len).InBuffer head a b) (hholds : Holds head a b buffer) :
    charsToVersion (buffer.drop (pos - a)) len = charsToVersion (head.drop pos) len := by
  obtain ⟨hlow, hhigh | hquery, _⟩ := h
  · exact charsToVersion_take (hholds.take hlow hhigh)
  · cases hquery.1

theorem InBuffer.refusal (h : c.InBuffer head a b) (hholds : Holds head a b buffer) :
    (c.back a).refusal buffer = c.refusal head := by
  cases c with
  | element cb pos len =>
      cases cb with
      | requestMethod => simp only [Call.back, Call.refusal, h.method hholds]
      | httpVersion => simp only [Call.back, Call.refusal, h.version hholds]
      | _ => rfl
  | httpField => rfl

theorem InBuffer.fill (h : c.InBuffer head a b) (hholds : Holds head a b buffer)
    (hthrows : c.throws = false) (r : HttpRequest) :
    (c.back a).fill buffer r = c.fill head r := by
  cases c with
  | element cb pos len =>
      have hslice (hcb : cb = .fragment ∨ cb = .requestPath ∨ cb = .queryString) :
          slice buffer (pos - a) len = slice head pos len := by
        have hlen : len < 2 ^ 63 := by
          rcases hcb with rfl | rfl | rfl <;> simpa [Call.throws] using hthrows
        obtain ⟨hlow, hhigh | hquery, _⟩ := h
        · exact hholds.take hlow hhigh
        · omega
      cases cb with
      | requestMethod => simp only [Call.back, Call.fill, h.method hholds]
      | httpVersion => simp only [Call.back, Call.fill, h.version hholds]
      | requestUri => rfl
      | fragment | requestPath | queryString => simp only [Call.back, Call.fill, hslice (by decide)]
  | httpField field flen value vlen =>
      obtain ⟨hfield, hvalue, hname, hend⟩ := h
      have hkey : slice buffer (field - a) flen = slice head field flen :=
        hholds.take hfield hname
      have hval : slice buffer (value - a) vlen = slice head value vlen :=
        hholds.take hvalue hend
      simp only [Call.back, Call.fill, hkey, hval]

/-- What a callback sees is in the buffer of its read. -/
theorem Lies.inBuffer {start : Nat → Nat} (h : c.Lies 0 0 head) (hstart : start c.stop = a)
    (hle : ∀ i, start i ≤ i) (hstop : c.stop < a + b) (hsize : c.stop < 2 ^ 63) :
    (c.seen start).InBuffer head a b := by
  have hlow := hle c.stop
  have hspace := h.space
  have hname := h.name
  rw [hstart] at hlow
  cases c with
  | element cb pos len =>
      simp only [Call.stop, Nat.sub_zero] at hstart hlow hstop hspace hsize
      cases cb with
      | queryString =>
          have hpos := hle pos
          simp only [Call.seen, Call.InBuffer, hstart, HttpParser.len]
          refine ⟨Nat.le_add_right _ _, ?_, fun h => by cases h⟩
          by_cases hfit : pos - start pos ≤ pos + len - a
          · rw [subSize_of_le (by omega) hfit]
            omega
          · refine .inr ⟨trivial, ?_⟩
            unfold subSize
            omega
      | requestMethod =>
          simp only [Call.seen, Call.InBuffer, hstart, Span.call, Span.after, Span.stop]
          rw [(by omega : max pos a + (pos + len - max pos a) = pos + len)]
          exact ⟨Nat.le_max_right _ _, by omega, fun _ => ⟨hstop, hspace rfl⟩⟩
      | _ =>
          simp only [Call.seen, Call.InBuffer, hstart, Span.call, Span.after, Span.stop]
          exact ⟨Nat.le_max_right _ _, by omega, fun h => by cases h⟩
  | httpField field flen value vlen =>
      simp only [Call.stop, Call.nameStop] at hstart hlow hstop hname
      simp only [Call.seen, Call.InBuffer, hstart, Field.call, Span.after, Span.stop]
      omega

end Call

end Lyslg.Http
