import Lyslg.Http.CutRequest
/-!
# What a cut does to a request

The parts of a head decide what becomes of it: `headResult_parts`.  A cut changes the
parts, and `Parts.Undisturbed` says when the request stays the same.
-/

namespace Lyslg.Http

open Http11 Support.Machine Support.Memory

/-! ## The request for given parts -/

namespace Parts

variable (head : List UInt8) (parts : Parts)

/-- The method `on_request_method` finds. -/
def methodOf : HttpMethod := charsToHttpMethod (head.drop parts.method.pos)

/-- The version `on_request_version` finds. -/
def versionOf : Option Nat := charsToVersion (head.drop parts.version.pos) parts.version.len

/-- `std::string` refuses the query. -/
def queryThrows : Bool := parts.query.any fun q => 2 ^ 63 ≤ q.len

def text (s : Span) : List UInt8 := slice head s.pos s.len

/-- The headers that the fields set; one with an empty name sets none. -/
def headers : Headers :=
  parts.fields.foldl
    (fun m f => if f.name.len = 0 then m else m.set (text head f.name) (text head f.value)) []

def request : HttpRequest where
  method := parts.methodOf head
  version := (parts.versionOf head).getD 0x11
  path := text head parts.path
  query := (parts.query.map (text head)).getD []
  fragment := (parts.fragment.map (text head)).getD []
  headers := parts.headers head

/-- The call returns `nullptr`: for the method, for the version, or as the rest in the
buffer has the size of the buffer, for an `int`. -/
def Refused (buffSize surplus : Nat) : Prop :=
  parts.methodOf head = .invalidMethod ∨
    ¬ parts.queryThrows ∧ (parts.versionOf head = none ∨ (surplus : Int) = int32 buffSize)

instance (buffSize surplus : Nat) : Decidable (parts.Refused head buffSize surplus) :=
  inferInstanceAs (Decidable (_ ∨ ¬ _ ∧ (_ ∨ _)))

/-- Only the query may be too long. -/
structure Tame : Prop where
  path : parts.path.len < 2 ^ 63
  fragment : ∀ s ∈ parts.fragment, s.len < 2 ^ 63
  fields : ∀ f ∈ parts.fields, f.name.len < 2 ^ 63 ∧ f.value.len < 2 ^ 63

end Parts

theorem foldl_fill_fields (head : List UInt8) (fields : List Field) (r : HttpRequest) :
    (fields.map Field.call).foldl (Call.fill head) r =
      { r with headers := fields.foldl (fun m f => if f.name.len = 0 then m
        else m.set (Parts.text head f.name) (Parts.text head f.value)) r.headers } := by
  induction fields generalizing r with
  | nil => rfl
  | cons f fields ih =>
      rw [List.map_cons, List.foldl_cons, List.foldl_cons, ih]
      simp only [Field.call, Call.fill]
      split <;> rfl

/-- A callback that neither throws nor refuses. -/
theorem verdict_fine {head : List UInt8} {c : Call} (hthrows : c.throws = false)
    (hrefusal : c.refusal head = none) (calls : List Call) :
    verdict head (c :: calls) = verdict head calls := by
  rw [verdict, hthrows, if_neg Bool.false_ne_true, if_pos hrefusal]

theorem verdict_fields (head : List UInt8) {fields : List Field}
    (h : ∀ f ∈ fields, f.name.len < 2 ^ 63 ∧ f.value.len < 2 ^ 63) :
    verdict head (fields.map Field.call) = none := by
  induction fields with
  | nil => rfl
  | cons f fields ih =>
      obtain ⟨hf, hrest⟩ := List.forall_mem_cons.mp h
      have hthrows : f.call.throws = false := by
        simp only [Field.call, Call.throws, decide_eq_false_iff_not]
        omega
      rw [List.map_cons, verdict_fine hthrows rfl, ih hrest]

theorem verdict_method (head : List UInt8) (s : Span) (calls : List Call) :
    verdict head (s.call .requestMethod :: calls) =
      if charsToHttpMethod (head.drop s.pos) = .invalidMethod then some (.returned none)
      else verdict head calls := by
  by_cases h : charsToHttpMethod (head.drop s.pos) = .invalidMethod
  · simp [verdict, Span.call, Call.throws, Call.refusal, h]
  · simp [verdict, Span.call, Call.throws, Call.refusal, h]

theorem verdict_version (head : List UInt8) (s : Span) (calls : List Call) :
    verdict head (s.call .httpVersion :: calls) =
      if charsToVersion (head.drop s.pos) s.len = none then some (.returned none)
      else verdict head calls := by
  by_cases h : charsToVersion (head.drop s.pos) s.len = none
  · simp [verdict, Span.call, Call.throws, Call.refusal, h]
  · simp [verdict, Span.call, Call.throws, Call.refusal, h]

/-- A part that is only a string. -/
theorem verdict_string (head : List UInt8) (s : Span) {cb : Element} (hlen : s.len < 2 ^ 63)
    (hcb : cb = .requestPath ∨ cb = .queryString ∨ cb = .fragment) (calls : List Call) :
    verdict head (s.call cb :: calls) = verdict head calls := by
  have hthrows : (s.call cb).throws = false := by
    rcases hcb with rfl | rfl | rfl <;>
    · simp only [Span.call, Call.throws, decide_eq_false_iff_not]
      omega
  apply verdict_fine hthrows
  rcases hcb with rfl | rfl | rfl <;> rfl

theorem verdict_parts {head : List UInt8} {parts : Parts} (htame : parts.Tame) :
    verdict head parts.calls =
      if parts.methodOf head = .invalidMethod then some (.returned none)
      else if parts.queryThrows then some .lengthError
      else if parts.versionOf head = none then some (.returned none)
      else none := by
  -- from the fragment on
  have htail : verdict head ((parts.fragment.map fun s => s.call .fragment).toList ++
      parts.version.call .httpVersion :: parts.fields.map Field.call) =
        if parts.versionOf head = none then some (.returned none) else none := by
    have hversion := verdict_version head parts.version (parts.fields.map Field.call)
    rw [verdict_fields head htame.fields] at hversion
    cases hfragment : parts.fragment with
    | none => exact hversion
    | some s =>
        rw [Option.map_some, Option.toList_some, List.singleton_append,
          verdict_string head s (htame.fragment s hfragment) (.inr (.inr rfl))]
        exact hversion
  unfold Parts.calls
  rw [verdict_method, verdict_string head parts.path htame.path (.inl rfl), Parts.methodOf]
  congr 1
  cases hquery : parts.query with
  | none =>
      rw [Option.map_none, Option.toList_none, List.nil_append, verdict_fine rfl rfl, htail]
      simp [Parts.queryThrows, hquery]
  | some q =>
      rw [Option.map_some, Option.toList_some, List.singleton_append]
      by_cases hlong : 2 ^ 63 ≤ q.len
      · simp only [verdict, Span.call, Call.throws, Parts.queryThrows, hquery, Option.any_some,
          decide_eq_true_eq, hlong, if_true]
      · rw [verdict_string head q (by omega) (.inr (.inl rfl)), verdict_fine rfl rfl, htail]
        simp only [Parts.queryThrows, hquery, Option.any_some, decide_eq_true_eq, hlong, if_false]

/-- The fields of a request are set one after the other. -/
theorem foldl_fill_parts {head : List UInt8} {parts : Parts}
    (hmethod : parts.methodOf head ≠ .invalidMethod) :
    parts.calls.foldl (Call.fill head) {} = parts.request head := by
  unfold Parts.methodOf at hmethod
  unfold Parts.calls Parts.request Parts.methodOf Parts.versionOf Parts.headers
  cases parts.query <;> cases parts.fragment <;>
    simp [Span.call, Call.fill, hmethod, foldl_fill_fields, Parts.text]

/-- The call returns `nullptr`, leaves by an exception or has the request. -/
theorem headResult_parts {head : List UInt8} {parts : Parts} (htame : parts.Tame)
    (buffSize surplus : Nat) :
    headResult head buffSize surplus parts.calls {} =
      if parts.Refused head buffSize surplus then .error (.returned none)
      else if parts.queryThrows then .error .lengthError
      else .ok (parts.request head) := by
  unfold headResult Parts.Refused
  rw [verdict_parts htame]
  by_cases hmethod : parts.methodOf head = .invalidMethod
  · simp [hmethod]
  · rw [foldl_fill_parts hmethod]
    by_cases hthrows : parts.queryThrows
    · simp [hmethod, hthrows]
    · by_cases hversion : parts.versionOf head = none
      · simp [hmethod, hthrows, hversion]
      · simp [hmethod, hthrows, hversion]

/-! ## The parts of a head that is cut -/

/-- What the query's callback gets. -/
def Span.querySeen (start : Nat → Nat) (s : Span) : Span :=
  ⟨start s.stop + (s.pos - start s.pos),
    HttpParser.len (s.pos - start s.pos) (s.stop - start s.stop)⟩

def Span.seen (start : Nat → Nat) (s : Span) : Span := s.after (start s.stop)

/-- The name of a field counts for the read that ends its value. -/
def Field.seen (start : Nat → Nat) (f : Field) : Field :=
  ⟨f.name.after (start f.value.stop), f.value.after (start f.value.stop)⟩

/-- The parts as the callbacks get them when `start` tells where the reads start. -/
def Parts.seen (start : Nat → Nat) (parts : Parts) : Parts where
  method := parts.method.seen start
  path := parts.path.seen start
  query := parts.query.map (Span.querySeen start)
  uri := parts.uri.seen start
  fragment := parts.fragment.map (Span.seen start)
  version := parts.version.seen start
  fields := parts.fields.map (Field.seen start)

theorem Parts.calls_seen (start : Nat → Nat) (parts : Parts) :
    parts.calls.map (Call.seen start) = (parts.seen start).calls := by
  unfold Parts.calls Parts.seen
  cases parts.query <;> cases parts.fragment <;>
    simp [Span.call, Call.seen, Span.querySeen, Span.seen, Span.stop, Field.call, Field.seen]

/-- The cut leaves the request as it is. -/
structure Parts.Undisturbed (parts : Parts) (head : List UInt8) (start : Nat → Nat) : Prop where
  /-- the last read of the method shows the same method -/
  method : (parts.seen start).methodOf head = parts.methodOf head
  /-- one read brings the path and what ends it -/
  path : start parts.path.stop ≤ parts.path.pos
  query : ∀ s ∈ parts.query, start s.stop ≤ s.pos
  fragment : ∀ s ∈ parts.fragment, start s.stop ≤ s.pos
  /-- the last read of the version shows the same version -/
  version : (parts.seen start).versionOf head = parts.versionOf head
  /-- what the last reads show of the fields makes the same headers -/
  headers : (parts.seen start).headers head = parts.headers head

theorem Span.after_eq {a : Nat} {s : Span} (h : a ≤ s.pos) : s.after a = s := by
  unfold Span.after Span.stop
  rw [Nat.max_eq_left h, Nat.add_sub_cancel_left]

/-- A stretch shows the same text iff it is whole. -/
theorem text_after {head : List UInt8} {a : Nat} {s : Span} (hstop : s.stop ≤ head.length)
    (ha : a ≤ s.stop) : Parts.text head (s.after a) = Parts.text head s ↔ a ≤ s.pos := by
  constructor
  · intro h
    have hlength := congrArg List.length h
    unfold Parts.text at hlength
    unfold Span.stop at hstop ha
    rw [length_slice _ _ _ (by unfold Span.after Span.stop; simp only; omega),
      length_slice _ _ _ hstop] at hlength
    unfold Span.after Span.stop at hlength
    simp only at hlength
    omega
  · intro h
    rw [Span.after_eq h]

section Reads

variable {head : List UInt8} {reads : List (List UInt8)} {parts : Parts}

/-- A query whose read has begun it is whole. -/
theorem querySeen_eq {s : Span} (hsize : s.stop < 2 ^ 64)
    (h : readStart reads s.stop ≤ s.pos) : s.querySeen (readStart reads) = s := by
  unfold Span.querySeen
  unfold Span.stop at hsize h ⊢
  rw [readStart_eq h (Nat.le_add_right _ _), HttpParser.len_eq (by omega) (by omega),
    Nat.add_sub_cancel' h]
  congr 1
  omega

/-- Otherwise it is shorter, or too long for a string. -/
theorem text_querySeen {s : Span} (hstop : s.stop ≤ head.length) (hsize : head.length < 2 ^ 63)
    (hlen : (s.querySeen (readStart reads)).len < 2 ^ 63) :
    Parts.text head (s.querySeen (readStart reads)) = Parts.text head s ↔
      readStart reads s.stop ≤ s.pos := by
  constructor
  · intro h
    have hle := readStart_le reads s.stop
    have hle' := readStart_le reads s.pos
    have hlength := congrArg List.length h
    unfold Parts.text at hlength
    unfold Span.querySeen HttpParser.len at hlen hlength
    unfold Span.stop at *
    simp only at hlen hlength
    by_cases hfit : s.pos - readStart reads s.pos ≤ s.pos + s.len - readStart reads (s.pos + s.len)
    · rw [subSize_of_le (by omega) hfit] at hlength
      rw [length_slice _ _ _ (by omega), length_slice _ _ _ hstop] at hlength
      omega
    · unfold subSize at hlen
      omega
  · intro h
    rw [querySeen_eq (by omega) h]

/-- Only a query that an earlier read began can be too long. -/
theorem Call.seen_throws {c : Call} (h : c.Lies 0 0 head) (hsize : head.length < 2 ^ 63)
    (hthrows : (c.seen (readStart reads)).throws = true) :
    c.action = .queryString ∧ c.pos < readStart reads c.stop := by
  have hstop := h.stop_lt
  have hname := h.name
  rw [Nat.zero_add] at hstop
  cases c with
  | element cb pos len =>
      simp only [Call.stop, Call.pos] at hstop ⊢
      cases cb with
      | queryString =>
          refine ⟨rfl, ?_⟩
          by_contra hle
          have heq := @querySeen_eq reads ⟨pos, len⟩
            (by unfold Span.stop; simp only; omega) (by unfold Span.stop; simp only; omega)
          simp only [Span.querySeen, Span.stop, Span.mk.injEq] at heq
          simp only [Call.seen, Call.throws, heq.2, decide_eq_true_eq] at hthrows
          omega
      | fragment | requestPath =>
          simp only [Call.seen, Span.call, Call.throws, Span.after, Span.stop,
            decide_eq_true_eq] at hthrows
          omega
      | _ => cases hthrows
  | httpField field flen value vlen =>
      simp only [Call.stop, Call.nameStop] at hstop hname
      simp only [Call.seen, Field.call, Call.throws, Span.after, Span.stop,
        decide_eq_true_eq] at hthrows
      omega

theorem Call.action_of_refusal {c : Call} {start : Nat → Nat}
    (h : (c.seen start).refusal head ≠ none) :
    c.action = .requestMethod ∨ c.action = .httpVersion := by
  cases c with
  | element cb pos len =>
      cases cb with
      | requestMethod => exact .inl rfl
      | httpVersion => exact .inr rfl
      | _ => exact absurd rfl h
  | httpField => exact absurd rfl h

/-- Of the parts that may be refused, only the method comes before the query. -/
theorem Parts.Within.pairwise (h : parts.Within head) :
    parts.calls.Pairwise fun c d => c.action = .requestMethod ∨ c.action = .httpVersion →
      d.action = .queryString → c.stop ≤ d.pos := by
  have hquery := h.query
  have hfields : parts.fields.Pairwise fun _ _ => True :=
    List.pairwise_of_forall fun _ _ => trivial
  unfold Parts.calls
  cases hq : parts.query with
  | none =>
      cases parts.fragment <;>
        simp [Span.call, Call.action, Element.action, Field.call, List.pairwise_map, hfields]
  | some q =>
      have hle : parts.method.pos + parts.method.len ≤ q.pos := hquery q hq
      cases parts.fragment <;>
        simp [Span.call, Call.action, Element.action, Field.call, List.pairwise_map, Call.stop,
          Call.pos, hle, hfields]

theorem Parts.Within.ordered (h : parts.Within head) (hsize : head.length < 2 ^ 63) :
    Ordered head (readStart reads) parts.calls := by
  refine List.Pairwise.imp_of_mem ?_ h.pairwise
  intro c d hc hd hcd hsame hrefusal
  by_contra hthrows
  obtain ⟨hquery, hlt⟩ :=
    Call.seen_throws (h.lies d hd) hsize (Bool.eq_true_of_not_eq_false hthrows)
  have hle := hcd (Call.action_of_refusal hrefusal) hquery
  have hstart := readStart_le reads c.stop
  omega

/-! ### The parts stay short enough -/

theorem Parts.Within.stop_lt (h : parts.Within head) {s : Span} {cb : Element}
    (hs : s.call cb ∈ parts.calls) : s.stop < head.length := by
  have hlt := (h.lies _ hs).stop_lt
  rwa [Nat.zero_add] at hlt

theorem Parts.path_mem (parts : Parts) : parts.path.call .requestPath ∈ parts.calls := by
  simp [Parts.calls]

theorem Parts.query_mem {s : Span} (hs : s ∈ parts.query) : s.call .queryString ∈ parts.calls := by
  simp [Parts.calls, Option.mem_def.mp hs]

theorem Parts.fragment_mem {s : Span} (hs : s ∈ parts.fragment) :
    s.call .fragment ∈ parts.calls := by
  simp [Parts.calls, Option.mem_def.mp hs]

theorem Parts.field_mem {f : Field} (hf : f ∈ parts.fields) : f.call ∈ parts.calls := by
  simp only [Parts.calls, List.mem_cons, List.mem_append]
  exact .inr (.inr (.inr (.inr (.inr (.inr (List.mem_map_of_mem hf))))))

theorem Span.after_len_le (a : Nat) (s : Span) : (s.after a).len ≤ s.len := by
  unfold Span.after Span.stop
  simp only
  omega

theorem Parts.Within.tame (h : parts.Within head) (hsize : head.length < 2 ^ 63) :
    parts.Tame where
  path := by
    have hlt := h.stop_lt parts.path_mem
    unfold Span.stop at hlt
    omega
  fragment s hs := by
    have hlt := h.stop_lt (Parts.fragment_mem hs)
    unfold Span.stop at hlt
    omega
  fields f hf := by
    have hlies := h.lies _ (Parts.field_mem hf)
    have hlt := hlies.stop_lt
    have hname := hlies.name
    simp only [Field.call, Call.stop, Call.nameStop] at hlt hname
    omega

/-- A cut makes no part but the query longer. -/
theorem Parts.Tame.seen (h : parts.Tame) (start : Nat → Nat) : (parts.seen start).Tame where
  path := (Span.after_len_le _ _).trans_lt h.path
  fragment s hs := by
    obtain ⟨t, ht, rfl⟩ := Option.mem_map.mp hs
    exact (Span.after_len_le _ _).trans_lt (h.fragment t ht)
  fields f hf := by
    obtain ⟨g, hg, rfl⟩ := List.mem_map.mp hf
    exact ⟨(Span.after_len_le _ _).trans_lt (h.fields g hg).1,
      (Span.after_len_le _ _).trans_lt (h.fields g hg).2⟩

end Reads

end Lyslg.Http
