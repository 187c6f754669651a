import Lyslg.Http.DumpRoundTrip
/-!
# The callbacks of a head

The callbacks of a run that ends a head tell of its method once, at the beginning, and of a
version that `on_request_version` knows.  With a head that is short enough, none of them throws.
-/

namespace Lyslg.Http

open Http11 Support Support.Machine Support.Memory

/-! ## Runs that end a head -/

/-- A run does not depend on the position or on the marks. -/
theorem Accepts.move {a b : HttpParser} {p : Nat} {bytes : List UInt8} {calls : List Call}
    (h : Accepts a p bytes calls) (hcs : b.cs = a.cs) (hrelaxed : b.uriRelaxed = a.uriRelaxed)
    (p' : Nat) : ∃ calls', Accepts b p' bytes calls' := by
  induction h generalizing b p' with
  | last hnext hend =>
      rw [← hcs, ← hrelaxed] at hnext
      exact ⟨_, .last hnext hend⟩
  | @more a p c t bytes calls hnext hgoes _ ih =>
      rw [← hcs, ← hrelaxed] at hnext
      obtain ⟨calls', hrest⟩ :=
        ih (b := (b.follow p' t).1) (by rw [HttpParser.follow_cs, HttpParser.follow_cs])
        (by rw [HttpParser.follow_uriRelaxed, HttpParser.follow_uriRelaxed, hrelaxed]) (p' + 1)
      exact ⟨_, .more hnext hgoes hrest⟩

theorem Accepts.exec_eq {a : HttpParser} {p : Nat} {bytes : List UInt8} {calls : List Call}
    (h : Accepts a p bytes calls) :
    ∃ b : HttpParser, b.cs = 348 ∧ a.exec p bytes = (b, p + bytes.length, calls) := by
  induction h with
  | @last a p c t hnext hend =>
      have hdone := (next_sound hnext).final hend.ge
      refine ⟨(a.follow p t).1, by rw [HttpParser.follow_cs, hend], ?_⟩
      rw [HttpParser.exec_done hnext hdone, List.length_singleton]
  | @more a p c t bytes calls hnext hgoes _ ih =>
      obtain ⟨b, hcs, hexec⟩ := ih
      refine ⟨b, hcs, ?_⟩
      rw [HttpParser.exec_more hnext hgoes, hexec, List.length_cons, Nat.add_assoc, Nat.add_comm 1]

/-- The method is told of once, at the beginning. -/
theorem Follows.no_method {st : Stage} {calls : List Call} (h : Follows st calls)
    (hst : st ≠ .method) : ∀ c ∈ calls, c.action ≠ .requestMethod := by
  induction h with
  | headers fields =>
      intro c hc
      obtain ⟨f, _, rfl⟩ := List.mem_map.mp hc
      exact fun hsame => by cases hsame
  | version s _ ih =>
      exact List.forall_mem_cons.mpr ⟨(fun hsame => by cases hsame), ih (by decide)⟩
  | fragment s _ ih =>
      exact List.forall_mem_cons.mpr ⟨(fun hsame => by cases hsame), ih (by decide)⟩
  | pathQuery s _ ih =>
      exact List.forall_mem_cons.mpr ⟨(fun hsame => by cases hsame), ih (by decide)⟩
  | query s uri hmem _ ih | path s uri hmem _ ih =>
      have hlater := ih (by rintro rfl; simp at hmem)
      refine List.forall_mem_cons.mpr ⟨?_, List.forall_mem_cons.mpr ⟨?_, hlater⟩⟩
      · exact fun hsame => by cases hsame
      · exact fun hsame => by cases hsame
  | method => exact absurd rfl hst

/-- A callback with a part of a short head does not throw. -/
theorem Call.Lies.throws_eq {low p : Nat} {bytes : List UInt8} {c : Call}
    (h : c.Lies low p bytes) (hsize : p + bytes.length < 2 ^ 63) : c.throws = false := by
  have hstop := h.stop_lt
  have hname := h.name
  cases c with
  | element cb pos len =>
      simp only [Call.stop] at hstop
      cases cb <;> simp only [Call.throws, decide_eq_false_iff_not] <;> omega
  | httpField field flen value vlen =>
      simp only [Call.stop, Call.nameStop] at hstop hname
      simp only [Call.throws, decide_eq_false_iff_not]
      omega

/-! ### The version -/

/-- The byte that leads to a state of the version. -/
def versionByte (target : Nat) : Nat := ((chars "HTTP/1.").getD (target - 5) 0).toNat

/-- What the table says of the version: its states go along the text, and it is told of behind
the last. -/
structure VersionRow (cs : Nat) (t : Transition) : Prop where
  into : 5 ≤ t.target ∧ t.target ≤ 12 → cs + 1 = t.target ∧
    t.actions = (if t.target = 5 then [.mark] else []) ∧
    t.bytes = if t.target = 12 then [(48, 49)] else [(versionByte t.target, versionByte t.target)]
  told : .httpVersion ∈ t.actions → cs = 12 ∧ t.actions = [.httpVersion]

instance (cs : Nat) (t : Transition) : Decidable (VersionRow cs t) :=
  decidable_of_iff
    ((5 ≤ t.target ∧ t.target ≤ 12 → cs + 1 = t.target ∧
        t.actions = (if t.target = 5 then [.mark] else []) ∧
        t.bytes = if t.target = 12 then [(48, 49)]
          else [(versionByte t.target, versionByte t.target)]) ∧
      (.httpVersion ∈ t.actions → cs = 12 ∧ t.actions = [.httpVersion]))
    ⟨fun ⟨into, told⟩ => ⟨into, told⟩, fun ⟨into, told⟩ => ⟨into, told⟩⟩

theorem transitions_version : ∀ row ∈ transitions, ∀ t ∈ row.2, VersionRow row.1 t := by
  decide +kernel

theorem next_version {relaxed : Bool} {cs : Nat} {c : UInt8} {t : Transition}
    (h : next relaxed cs c = some t) : VersionRow cs t := by
  obtain ⟨⟨ts, hrow, ht⟩, _⟩ := next_mem h
  exact transitions_version (cs, ts) hrow t ht

/-- What the version may be. -/
def versionTexts : List (List UInt8) := [chars "HTTP/1.1", chars "HTTP/1.0"]

theorem versionTexts_read : ∀ text ∈ versionTexts, text.length = 8 ∧ text.take 7 = chars "HTTP/1." ∧
    charsToVersion text 8 ≠ none := by
  decide

/-- In the states of the version the machine has gone over as much of it since the mark. -/
def VersionAt (head : List UInt8) (p : Nat) (a : HttpParser) : Prop :=
  5 ≤ a.cs → a.cs ≤ 12 → ∃ text ∈ versionTexts, a.mark + (a.cs - 4) = p ∧
    At head a.mark (text.take (a.cs - 4))

/-- A byte that leads along the version. -/
theorem exists_text {relaxed : Bool} {c : UInt8} {t : Transition}
    (htakes : t.takes relaxed c = true) (hlow : 5 ≤ t.target) (hhigh : t.target ≤ 12)
    (hbytes : t.bytes = if t.target = 12 then [(48, 49)]
      else [(versionByte t.target, versionByte t.target)])
    (text : List UInt8) (htext : text ∈ versionTexts) :
    ∃ text' ∈ versionTexts, text'.take (t.target - 5) = text.take (t.target - 5) ∧
      text'[t.target - 5]? = some c := by
  rw [Transition.takes, hbytes, Bool.and_eq_true] at htakes
  obtain ⟨hrange, _⟩ := htakes
  by_cases hlast : t.target = 12
  · rw [if_pos hlast] at hrange
    simp only [List.any_cons, List.any_nil, Bool.or_false, Bool.and_eq_true, decide_eq_true_eq]
      at hrange
    have hc : c = 48 ∨ c = 49 := by
      rw [← UInt8.toNat_inj, ← UInt8.toNat_inj]
      show c.toNat = 48 ∨ c.toNat = 49
      omega
    rw [hlast, (versionTexts_read text htext).2.1]
    rcases hc with rfl | rfl
    · exact ⟨chars "HTTP/1.0", .tail _ (.head _), by decide, by decide⟩
    · exact ⟨chars "HTTP/1.1", .head _, by decide, by decide⟩
  · rw [if_neg hlast] at hrange
    simp only [List.any_cons, List.any_nil, Bool.or_false, Bool.and_eq_true, decide_eq_true_eq]
      at hrange
    have hc : c.toNat = versionByte t.target := Nat.le_antisymm hrange.2 hrange.1
    have hseven : text[t.target - 5]? = (chars "HTTP/1.")[t.target - 5]? := by
      rw [← (versionTexts_read text htext).2.1, List.getElem?_take_of_lt (by omega)]
    have hlength : t.target - 5 < (chars "HTTP/1.").length := by
      have : (chars "HTTP/1.").length = 7 := by decide
      omega
    refine ⟨text, htext, rfl, ?_⟩
    rw [versionByte, List.getD_eq_getElem?_getD, List.getElem?_eq_getElem hlength,
      Option.getD_some] at hc
    rw [hseven, List.getElem?_eq_getElem hlength, UInt8.toNat_inj.mp hc]

/-- Every transition goes along the version, and tells of it as one of its texts. -/
theorem VersionAt.follow {head : List UInt8} {p : Nat} {a : HttpParser} {c : UInt8} {t : Transition}
    (h : VersionAt head p a) (hc : head[p]? = some c) (hsize : head.length < 2 ^ 63)
    (hnext : next a.uriRelaxed a.cs c = some t) :
    VersionAt head (p + 1) (a.follow p t).1 ∧
      ∀ call ∈ (a.follow p t).2, call.action ≠ .requestMethod → call.refusal head = none := by
  have hrow := next_version hnext
  obtain ⟨hp, _⟩ := List.getElem?_eq_some_iff.mp hc
  refine ⟨?_, fun call hcall hmethod => ?_⟩
  · intro hlow hhigh
    rw [HttpParser.follow_cs] at hlow hhigh ⊢
    obtain ⟨hcs, hactions, hbytes⟩ := hrow.into ⟨hlow, hhigh⟩
    have htakes := (next_mem hnext).2
    by_cases hfirst : t.target = 5
    · -- the first letter, where the mark is set
      obtain ⟨text, htext, _, hget⟩ :=
        exists_text htakes hlow hhigh hbytes (chars "HTTP/1.1") (.head _)
      rw [if_pos hfirst] at hactions
      have hmark : (a.follow p t).1.mark = p := by
        rw [HttpParser.follow, hactions]
        rfl
      rw [hfirst] at hget ⊢
      refine ⟨text, htext, by rw [hmark], ?_⟩
      have hone : text.take 1 = [c] := by
        rw [List.take_one, List.head?_eq_getElem?, hget]
        rfl
      rw [hmark, hone, at_singleton]
      exact hc
    · obtain ⟨text, htext, hpos, hat⟩ := h (by omega) (by omega)
      obtain ⟨text', htext', htake, hget⟩ := exists_text htakes hlow hhigh hbytes text htext
      rw [if_neg hfirst] at hactions
      have hmark : (a.follow p t).1.mark = a.mark := by
        rw [HttpParser.follow, hactions]
        rfl
      have hlength : (text'.take (t.target - 5)).length = a.cs - 4 := by
        have := (versionTexts_read text' htext').1
        rw [List.length_take]
        omega
      rw [hmark]
      refine ⟨text', htext', by omega, ?_⟩
      rw [(by omega : t.target - 4 = t.target - 5 + 1), List.take_add_one, hget, at_append, hlength,
        hpos]
      rw [(by omega : a.cs - 4 = t.target - 5), ← htake] at hat
      exact ⟨hat, at_singleton.mpr hc⟩
  · cases call with
    | httpField => rfl
    | element cb pos len =>
        cases cb with
        | requestMethod => exact absurd rfl hmethod
        | requestUri | fragment | requestPath | queryString => rfl
        | httpVersion =>
            have hmem : Action.httpVersion ∈ t.actions := by
              have haction : (Call.element .httpVersion pos len).action ∈
                  t.actions.filter Action.calls := by
                rw [← HttpParser.actAll_actions p { a with cs := t.target }]
                exact List.mem_map_of_mem hcall
              exact List.mem_of_mem_filter haction
            obtain ⟨hcs, hactions⟩ := hrow.told hmem
            rw [HttpParser.follow, hactions] at hcall
            have hcall := List.mem_singleton.mp hcall
            injection hcall with _ hpos hlen
            obtain ⟨text, htext, hmark, hat⟩ := h (by omega) (by omega)
            obtain ⟨hlength, _, hread⟩ := versionTexts_read text htext
            rw [hcs, List.take_of_length_le hlength.le, At, hlength] at hat
            rw [hcs] at hmark
            rw [hpos, hlen, HttpParser.len_eq (by show a.mark ≤ p; omega) (by omega),
              Call.refusal, if_neg]
            show charsToVersion (head.drop a.mark) (p - a.mark) ≠ none
            have hsame : (head.drop a.mark).take 8 = text.take 8 := by
              rw [List.take_of_length_le hlength.le]
              exact hat
            rw [(by omega : p - a.mark = 8), charsToVersion_take hsame]
            exact hread

theorem Accepts.version_fine {head : List UInt8} (hsize : head.length < 2 ^ 63) {a : HttpParser}
    {p : Nat} {bytes : List UInt8} {calls : List Call} (h : Accepts a p bytes calls)
    (hat : head.drop p = bytes) (hversion : VersionAt head p a) :
    ∀ c ∈ calls, c.action ≠ .requestMethod → c.refusal head = none := by
  induction h with
  | @last a p c t hnext hend =>
      have hc : head[p]? = some c := by rw [← List.head?_drop, hat, List.head?_cons]
      exact (hversion.follow hc hsize hnext).2
  | @more a p c t bytes calls hnext hgoes _ ih =>
      have hc : head[p]? = some c := by rw [← List.head?_drop, hat, List.head?_cons]
      obtain ⟨hkept, hfine⟩ := hversion.follow hc hsize hnext
      have hrest : head.drop (p + 1) = bytes := by
        rw [← List.drop_drop, hat, List.drop_one, List.tail_cons]
      exact List.forall_mem_append.mpr ⟨hfine, ih hrest hkept⟩

/-- What the callbacks of the head are, from the path on. -/
theorem Accepts.path_calls {head more : List UInt8} {a : HttpParser} {p : Nat} {calls : List Call}
    (h : Accepts a p more calls) (hcs : a.cs = 3) (hmark : a.mark ≤ p)
    (hstart : a.fieldStart ≤ p) (hat : head.drop p = more) (hsize : head.length < 2 ^ 31) :
    ∀ c ∈ calls, c.throws = false ∧ c.action ≠ .requestMethod ∧ c.refusal head = none := by
  have hplaced : Placed 0 p (known a.cs) a := by
    rw [hcs]
    exact ⟨hmark, hstart, fun hk => (by cases hk), fun hk => (by cases hk)⟩
  have hlength : p + more.length < 2 ^ 63 := by
    have hmore : 0 < more.length := List.length_pos_iff.mpr h.ne_nil
    rw [← hat, List.length_drop] at hmore ⊢
    omega
  have hfollows := h.follows
  rw [hcs] at hfollows
  have hversion : VersionAt head p a := fun hlow => by omega
  intro c hc
  have hmethod := hfollows.no_method (by decide) c hc
  have hlies := h.call_lies hplaced (Nat.zero_le p) (by omega) hc
  exact ⟨hlies.throws_eq hlength, hmethod, h.version_fine (by omega) hat hversion c hc hmethod⟩

theorem Call.fill_method (head : List UInt8) (r : HttpRequest) {c : Call}
    (h : c.action ≠ .requestMethod) : (c.fill head r).method = r.method := by
  cases c with
  | element cb pos len =>
      cases cb with
      | requestMethod => exact absurd rfl h
      | _ => rfl
  | httpField field flen value vlen =>
      rw [Call.fill]
      split <;> rfl

theorem foldl_fill_method (head : List UInt8) {calls : List Call}
    (h : ∀ c ∈ calls, c.action ≠ .requestMethod) (r : HttpRequest) :
    (calls.foldl (Call.fill head) r).method = r.method := by
  induction calls generalizing r with
  | nil => rfl
  | cons c calls ih =>
      obtain ⟨hc, hcalls⟩ := List.forall_mem_cons.mp h
      rw [List.foldl_cons, ih hcalls, Call.fill_method head r hc]

end Lyslg.Http
