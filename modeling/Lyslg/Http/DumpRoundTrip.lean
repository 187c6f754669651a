import Lyslg.Http.DumpWalk
import Lyslg.Support.Horner
/-!
# Requests come back from their text

A parser that is fed the text of a request gets the request back, unless the text is too long
for the `int` that an assertion converts its length to, or a header has no name.
-/

namespace Lyslg.Http

open Http11 Support Support.Machine Support.Memory

/-! ## Numbers -/

/-- The digits are those of a number, and the parser reads it back. -/
theorem foldl_dumpNat (digits : List Nat) (h : ∀ d ∈ digits, d < 10) :
    ((digits.reverse.map fun d => UInt8.ofNat (48 + d)).foldl
      (fun n c => 10 * n + (c.toNat - 48)) 0) = Nat.ofDigits 10 digits := by
  have hvalue : ∀ d ∈ digits, (UInt8.ofNat (48 + d)).toNat - 48 = d := by
    intro d hd
    have hlt := h d hd
    rw [UInt8.toNat_ofNat']
    omega
  rw [List.map_reverse]
  exact Horner.foldl_digits 10 (fun d => UInt8.ofNat (48 + d)) (fun c => c.toNat - 48) hvalue

theorem dumpNat_digits {n : Nat} (hn : 0 < n) : ∀ c ∈ dumpNat n, 48 ≤ c ∧ c ≤ 57 := by
  intro c hc
  rw [dumpNat, if_neg (by omega)] at hc
  obtain ⟨d, hd, rfl⟩ := List.mem_map.mp hc
  have hlt : d < 10 := Nat.digits_lt_base (by decide) (List.mem_reverse.mp hd)
  rw [UInt8.le_iff_toNat_le, UInt8.le_iff_toNat_le, UInt8.toNat_ofNat']
  simp only [UInt8.reduceToNat]
  omega

theorem dumpNat_ne_nil {n : Nat} (hn : 0 < n) : dumpNat n ≠ [] := by
  rw [dumpNat, if_neg (by omega)]
  simp only [ne_eq, List.map_eq_nil_iff, List.reverse_eq_nil_iff, Nat.digits_eq_nil_iff_eq_zero]
  omega

theorem dumpNat_value {n : Nat} (hn : 0 < n) :
    (dumpNat n).foldl (fun n c => 10 * n + (c.toNat - 48)) 0 = n := by
  rw [dumpNat, if_neg (by omega), foldl_dumpNat _ fun d hd => Nat.digits_lt_base (by decide) hd,
    Nat.ofDigits_digits]

theorem lexicalCast_dumpNat {n : Nat} (hn : 0 < n) (hlt : n < 2 ^ 64) :
    lexicalCastU64 (dumpNat n) = some n := by
  have hdigits := dumpNat_digits hn
  have hdecimal : decimal (dumpNat n) = some n := by
    have hin : ¬(dumpNat n = [] ∨ (dumpNat n).any fun c => c < 48 || 57 < c) := by
      simp only [dumpNat_ne_nil hn, false_or, List.any_eq_true, not_exists, not_and,
        Bool.or_eq_true, decide_eq_true_eq, not_or, UInt8.not_lt]
      exact hdigits
    rw [decimal, if_neg hin]
    simp only [dumpNat_value hn]
    rw [if_pos hlt]
  obtain ⟨c, s, hcons⟩ := List.exists_cons_of_ne_nil (dumpNat_ne_nil hn)
  have hc := hdigits c (by rw [hcons]; exact List.mem_cons_self)
  rw [hcons] at hdecimal ⊢
  rw [lexicalCastU64, if_neg (by rintro rfl; exact absurd hc.1 (by decide)),
    if_neg (by rintro rfl; exact absurd hc.1 (by decide)), hdecimal]

/-! ## Header maps -/

namespace Headers

theorem strcasecmpZero_comm (a b : List UInt8) : strcasecmpZero a b = strcasecmpZero b a :=
  Bool.and_comm _ _

/-- A new key is added. -/
theorem mem_set {m : Headers} {key : List UInt8}
    (hnew : ∀ entry ∈ m, strcasecmpZero entry.1 key = false) (val : List UInt8)
    (entry : List UInt8 × List UInt8) :
    entry ∈ m.set key val ↔ entry ∈ m ∨ entry = (key, val) := by
  induction m with
  | nil => simp [set]
  | cons first rest ih =>
      obtain ⟨k, v⟩ := first
      obtain ⟨hfirst, hrest⟩ := List.forall_mem_cons.mp hnew
      simp only [strcasecmpZero, Bool.and_eq_false_iff, Bool.not_eq_false'] at hfirst
      rw [set]
      by_cases hbefore : caseInsensitiveLess key k = true
      · rw [if_pos hbefore, List.mem_cons]
        exact or_comm
      · rw [if_neg hbefore, if_pos (hfirst.resolve_right hbefore), List.mem_cons, ih hrest,
          List.mem_cons, or_assoc]

theorem mem_foldl_set {m fields : Headers}
    (hnew : ∀ entry ∈ m, ∀ field ∈ fields, strcasecmpZero entry.1 field.1 = false)
    (hfields : fields.Pairwise fun a b => strcasecmpZero a.1 b.1 = false)
    (entry : List UInt8 × List UInt8) :
    entry ∈ fields.foldl (fun m field => m.set field.1 field.2) m ↔ entry ∈ m ∨ entry ∈ fields := by
  induction fields generalizing m with
  | nil => simp
  | cons field fields ih =>
      obtain ⟨hfield, hrest⟩ := List.pairwise_cons.mp hfields
      have hset := mem_set (fun e he => hnew e he field List.mem_cons_self) field.2
      have hnew' : ∀ e ∈ m.set field.1 field.2, ∀ f ∈ fields, strcasecmpZero e.1 f.1 = false := by
        intro e he f hf
        rcases (hset e).mp he with he | rfl
        · exact hnew e he f (List.mem_cons_of_mem _ hf)
        · exact hfield f hf
      rw [List.foldl_cons, ih hnew' hrest, hset, List.mem_cons, or_assoc]

/-- The entry of a key is found, if no other key is equal to it but for case. -/
theorem find_eq {m : Headers} {key val : List UInt8} (hmem : (key, val) ∈ m)
    (honly : ∀ entry ∈ m, strcasecmpZero entry.1 key = true → entry = (key, val))
    (hself : strcasecmpZero key key = true) : m.find key = some val := by
  unfold find
  cases hfind : List.find? (fun entry => !caseInsensitiveLess entry.1 key &&
      !caseInsensitiveLess key entry.1) m with
  | none => exact absurd hself (List.find?_eq_none.mp hfind _ hmem)
  | some entry =>
      have hequal : strcasecmpZero entry.1 key = true := by
        have hfound := List.find?_some hfind
        exact hfound
      rw [honly entry (List.mem_of_find?_eq_some hfind) hequal]
      rfl

theorem find_eq_none {m : Headers} {key : List UInt8}
    (hnone : ∀ entry ∈ m, strcasecmpZero entry.1 key = false) : m.find key = none := by
  unfold find
  rw [Option.map_eq_none_iff, List.find?_eq_none]
  intro entry hentry
  exact Bool.eq_false_iff.mp (hnone entry hentry)

end Headers

/-! ## The request line -/

/-- The path of a request line, with the query if there is one. -/
def dumpPathQuery (path query : List UInt8) : List UInt8 :=
  path ++ (if query = [] then [] else chars "?") ++ query

/-- The URI of a request line. -/
def dumpTarget (path query fragment : List UInt8) : List UInt8 :=
  dumpPathQuery path query ++ (if fragment = [] then [] else chars "#") ++ fragment

theorem goes_uri_end {c : UInt8} {target : Nat}
    (h : (c, target) = (32, 4) ∨ (c, target) = (35, 20)) :
    Goes 33 c target [.requestPath, .requestUri] ∧ Goes 26 c target [.requestPath, .requestUri] ∧
      Goes 30 c target [.queryString, .requestUri] := by
  rcases h with h | h <;> cases h <;> decide

section

variable {head path query fragment : List UInt8} {p : Nat} {a : HttpParser} {r : HttpRequest}

theorem fills_pathQuery (hpath : IsPath path) (hquery : isEncoded isQueryChar query) {c : UInt8}
    {target : Nat} (hend : (c, target) = (32, 4) ∨ (c, target) = (35, 20))
    (hat : At head p (dumpPathQuery path query))
    (hsize : p + (dumpPathQuery path query).length < 2 ^ 63) (hcs : a.cs = 3) (hq : r.query = []) :
    ∃ b, b.cs = target ∧ Fills head p (dumpPathQuery path query ++ [c]) a b r
      { r with path := path, query := query } := by
  have hmark : chars "?" = [63] := by decide
  obtain ⟨hempty, hsegment, hparam⟩ := goes_uri_end hend
  unfold dumpPathQuery at hat hsize ⊢
  by_cases hnone : query = []
  · subst hnone
    rw [if_pos rfl, List.append_nil, List.append_nil] at hat hsize ⊢
    have hsame : ({ r with path := path, query := [] } : HttpRequest) =
        { r with path := path } := by
      rw [← hq]
    rw [hsame]
    exact ⟨_, rfl, fills_path hpath hat hsize (.inr rfl) ⟨hempty, hsegment⟩ hcs⟩
  · rw [if_neg hnone, hmark] at hat hsize ⊢
    obtain ⟨hpathMark, hqueryAt⟩ := at_append.mp hat
    rw [List.length_append] at hsize
    have hgoes : Goes 33 63 29 [.requestPath] ∧ Goes 26 63 29 [.requestPath] := by decide
    have hfirst := fills_path (r := r) hpath (at_append.mp hpathMark).1
      (by rw [List.length_append] at hsize; omega) (.inl rfl) hgoes hcs
    have hsecond := fills_query (a := { a with cs := 29, mark := p }) (r := { r with path := path })
      hnone hquery hqueryAt (by omega) hparam rfl
    rw [List.append_assoc _ query]
    exact ⟨_, rfl, hfirst.append hsecond⟩

theorem fills_target (hpath : IsPath path) (hquery : isEncoded isQueryChar query)
    (hfragment : isEncoded isQueryChar fragment)
    (hat : At head p (dumpTarget path query fragment))
    (hsize : p + (dumpTarget path query fragment).length < 2 ^ 63) (hcs : a.cs = 3)
    (hq : r.query = []) (hf : r.fragment = []) :
    ∃ b, b.cs = 4 ∧ Fills head p (dumpTarget path query fragment ++ [32]) a b r
      { r with path := path, query := query, fragment := fragment } := by
  have hhash : chars "#" = [35] := by decide
  unfold dumpTarget at hat hsize ⊢
  by_cases hnone : fragment = []
  · subst hnone
    rw [if_pos rfl, List.append_nil, List.append_nil] at hat hsize ⊢
    have hsame : ({ r with path := path, query := query, fragment := [] } : HttpRequest) =
        { r with path := path, query := query } := by
      rw [← hf]
    rw [hsame]
    exact fills_pathQuery hpath hquery (.inl rfl) hat hsize hcs hq
  · rw [if_neg hnone, hhash] at hat hsize ⊢
    obtain ⟨hpathHash, hfragmentAt⟩ := at_append.mp hat
    rw [List.length_append] at hsize
    obtain ⟨b, hb, hfirst⟩ := fills_pathQuery hpath hquery (.inr rfl) (at_append.mp hpathHash).1
      (by rw [List.length_append] at hsize; omega) hcs hq
    have hsecond := fills_fragment (a := b) (r := { r with path := path, query := query }) hnone
      hfragment hfragmentAt (by omega) hb
    rw [List.append_assoc _ fragment]
    exact ⟨_, rfl, hfirst.append hsecond⟩

/-- The request line with its CRLF. -/
def HttpRequest.requestLine (r : HttpRequest) : List UInt8 :=
  httpMethodToString r.method ++ [32] ++ (dumpTarget r.path r.query r.fragment ++ [32]) ++
    (dumpVersion r.version ++ [13] ++ [10])

theorem method_mem {m : HttpMethod} (h : ∀ c ∈ httpMethodToString m, 65 ≤ c ∧ c ≤ 90) :
    (m, httpMethodToString m) ∈ httpMethodMap := by
  cases m <;> revert h <;> decide +kernel

theorem fills_requestLine (h : r.LineText) (hat : At head 0 r.requestLine)
    (hsize : r.requestLine.length < 2 ^ 63) (hcs : a.cs = 1) :
    ∃ b, b.cs = 13 ∧ Fills head 0 r.requestLine a b {}
      { ({} : HttpRequest) with
        method := r.method, path := r.path, query := r.query, fragment := r.fragment
        version := r.version } := by
  unfold HttpRequest.requestLine at hat hsize ⊢
  simp only [List.length_append] at hsize
  have hlength := (dumpVersion_eq h.version).1
  obtain ⟨hstart, hversion⟩ := at_append.mp hat
  obtain ⟨hmethod, htarget⟩ := at_append.mp hstart
  have hfirst := fills_method (r := {}) (method_mem h.method) h.method hmethod hcs
  obtain ⟨b, hb, hsecond⟩ := fills_target (a := { a with cs := 3, mark := 0 })
    (r := { ({} : HttpRequest) with method := r.method }) h.path h.query h.fragment
    (at_append.mp htarget).1 (by simp only [List.length_append]; omega) rfl rfl rfl
  have hthird := fills_version (a := b) (r := { ({} : HttpRequest) with
      method := r.method, path := r.path, query := r.query, fragment := r.fragment }) h.version
    (at_append.mp (at_append.mp hversion).1).1 (by simp only [List.length_append]; omega) hb
  have hnewline : Quiet 17 [10] 13 := by decide
  exact ⟨_, rfl, (hfirst.append hsecond).append (hthird.append (Fills.quiet (hnewline.walks _) _))⟩

/-! ## The headers -/

theorem fills_fields {fields : Headers} (hline : ∀ field ∈ fields, HeaderLine field)
    (hne : ∀ field ∈ fields, field.1 ≠ []) (hat : At head p (fields.flatMap dumpHeader))
    (hsize : p + (fields.flatMap dumpHeader).length < 2 ^ 63) (hcs : a.cs = 13) :
    ∃ b, b.cs = 13 ∧ Fills head p (fields.flatMap dumpHeader) a b r
      { r with headers := fields.foldl (fun m field => m.set field.1 field.2) r.headers } := by
  induction fields generalizing p a r with
  | nil => exact ⟨a, hcs, .quiet (.nil p a) r⟩
  | cons field fields ih =>
      obtain ⟨hfirst, hline⟩ := List.forall_mem_cons.mp hline
      obtain ⟨hname, hne⟩ := List.forall_mem_cons.mp hne
      rw [List.flatMap_cons] at hat hsize ⊢
      rw [List.length_append] at hsize
      obtain ⟨hhere, hlater⟩ := at_append.mp hat
      have hfits : p + (dumpHeader field).length < 2 ^ 63 := by omega
      obtain ⟨b, hb, hfills⟩ := fills_header (r := r) hfirst hname hhere hfits hcs
      obtain ⟨b', hb', hrest⟩ :=
        ih hline hne (r := r.setHeader field.1 field.2) hlater (by omega) hb
      exact ⟨b', hb', hfills.append hrest⟩

/-- A header without a name is an error. -/
theorem exec_nameless {fields : Headers} (hline : ∀ field ∈ fields, HeaderLine field)
    (hnameless : ∃ field ∈ fields, field.1 = []) (hcs : a.cs = 13) (p : Nat) (rest : List UInt8) :
    (HttpParser.scanner.exec a p (fields.flatMap dumpHeader ++ rest)).1.cs = 0 := by
  induction fields generalizing p a with
  | nil => simp at hnameless
  | cons field fields ih =>
      obtain ⟨name, value⟩ := field
      obtain ⟨hfirst, hlines⟩ := List.forall_mem_cons.mp hline
      by_cases hname : name = []
      · subst hname
        have hcolon : ∀ relaxed, next relaxed 13 58 = none := by decide
        have hnone : HttpParser.scanner.next a 58 = none := by
          have hstart := hcolon a.uriRelaxed
          rw [← hcs] at hstart
          exact hstart
        have hbytes : (([], value) :: fields).flatMap dumpHeader ++ rest =
            58 :: (32 :: (value ++ chars "\r\n" ++ (fields.flatMap dumpHeader ++ rest))) := by
          rw [List.flatMap_cons, dumpHeader, chars_separator]
          simp
        rw [hbytes, Scanner.exec_none hnone]
        rfl
      · obtain ⟨b, hb, hwalk⟩ := walks_header hfirst hname hcs p
        rw [List.flatMap_cons, List.append_assoc, hwalk.exec_append]
        apply ih hlines _ hb
        obtain ⟨field, hfield, hempty⟩ := hnameless
        rcases List.mem_cons.mp hfield with rfl | hfield
        · exact absurd hempty hname
        · exact ⟨field, hfield, hempty⟩

end

theorem exec_blankLine {a : HttpParser} (hcs : a.cs = 13) (rest : List UInt8) (p : Nat) :
    ∃ b : HttpParser, b.cs = 348 ∧
      HttpParser.scanner.exec a p (13 :: 10 :: rest) = (b, p + 1 + 1, []) := by
  have hreturn : Goes a.cs 13 18 [.startField] := by
    rw [hcs]
    decide
  have hnewline : Goes 18 10 348 [.done] := by decide
  obtain ⟨t, hnext, hactions, hfollow⟩ :=
    hnewline.exists_next (a := { a with cs := 18, fieldStart := p })
  have hends : HttpParser.scanner.ends t = true := by
    simp [HttpParser.scanner, hactions]
  have hwalk : HttpParser.scanner.Walks p a [13] [] { a with cs := 18, fieldStart := p } :=
    hreturn.walks (by decide) p
  have hlast := hwalk.exec_append (10 :: rest)
  rw [Scanner.exec_ends hnext hends] at hlast
  have hdone : HttpParser.scanner.follow (p + 1) { a with cs := 18, fieldStart := p } t =
      ({ a with cs := 348, fieldStart := p }, []) := hfollow (p + 1)
  rw [List.length_singleton, hdone] at hlast
  exact ⟨_, rfl, hlast⟩

/-! ## The whole text -/

section

variable {r : HttpRequest}

theorem dump_eq (h : r.Textual) : r.dump false =
    r.requestLine ++ r.fields.flatMap dumpHeader ++ chars "\r\n" ++ r.body := by
  have hheaders : (r.headers.flatMap fun header =>
      if !false && strcasecmpZero header.1 (chars "connection") then [] else dumpHeader header) =
        r.headers.flatMap dumpHeader := by
    apply List.flatMap_congr
    intro header hheader
    rw [(h.headers header hheader).connection]
    rfl
  have hconnection : chars "connection: " = chars "connection" ++ chars ": " := by decide
  have hlength : chars "content-length: " = chars "content-length" ++ chars ": " := by
    decide
  have htwice : chars "\r\n\r\n" = chars "\r\n" ++ chars "\r\n" := by decide
  have hversion : chars " HTTP/" = [32] ++ chars "HTTP/" := by decide
  have hspace : chars " " = [32] := by decide
  unfold HttpRequest.dump HttpRequest.requestLine HttpRequest.fields
  rw [hheaders, hconnection, hversion, hspace, List.flatMap_cons, List.flatMap_append]
  by_cases hbody : r.body = []
  · simp [hbody, dumpTarget, dumpPathQuery, dumpVersion, dumpHeader, chars_newline]
  · simp [hbody, dumpTarget, dumpPathQuery, dumpVersion, dumpHeader, hlength, htwice, chars_newline]

/-- The lines that `dump` adds, with what they are given. -/
theorem forall_fields {P : List UInt8 × List UInt8 → Prop}
    (hconnection : P (chars "connection", chars (if r.close then "close" else "keep-alive")))
    (hheaders : ∀ header ∈ r.headers, P header)
    (hlength : r.body ≠ [] → P (chars "content-length", dumpNat r.body.length)) :
    ∀ field ∈ r.fields, P field := by
  intro field hfield
  rcases List.mem_cons.mp hfield with rfl | hfield
  · exact hconnection
  · rcases List.mem_append.mp hfield with hfield | hfield
    · exact hheaders field hfield
    · by_cases hbody : r.body = []
      · simp [hbody] at hfield
      · rw [if_pos hbody, List.mem_singleton] at hfield
        rw [hfield]
        exact hlength hbody

theorem fields_line (h : r.Textual) : ∀ field ∈ r.fields, HeaderLine field := by
  apply forall_fields
  · cases r.close <;> exact ⟨by decide +kernel, by decide +kernel, by decide⟩
  · exact fun header hheader => (h.headers header hheader).toHeaderLine
  · intro hbody
    have hpos : 0 < r.body.length := List.length_pos_iff.mpr hbody
    have hname : ∀ c ∈ chars "content-length", isNameChar c := by decide +kernel
    have hdigit : ∀ c : UInt8, 48 ≤ c ∧ c ≤ 57 → isValueChar c ∧ c ≠ 32 ∧ c ≠ 9 :=
      forall_byte (by decide +kernel)
    have hvalue (c : UInt8) (hc : c ∈ dumpNat r.body.length) := hdigit c (dumpNat_digits hpos c hc)
    refine ⟨hname, fun c hc => (hvalue c hc).1, fun h => ?_, fun h => ?_⟩
    · exact (hvalue 32 (List.mem_of_mem_head? h)).2.1 rfl
    · exact (hvalue 9 (List.mem_of_mem_head? h)).2.2 rfl

theorem fields_pairwise (h : r.Textual) :
    r.fields.Pairwise fun a b => strcasecmpZero a.1 b.1 = false := by
  have hnames : strcasecmpZero (chars "connection") (chars "content-length") = false := by
    decide
  apply List.pairwise_cons.mpr
  constructor
  · intro field hfield
    rcases List.mem_append.mp hfield with hfield | hfield
    · rw [Headers.strcasecmpZero_comm]
      exact (h.headers field hfield).connection
    · split at hfield
      · rw [List.mem_singleton.mp hfield]
        exact hnames
      · cases hfield
  · refine List.pairwise_append.mpr ⟨h.map, ?_, fun header hheader field hfield => ?_⟩
    · split <;> simp
    · split at hfield
      · rw [List.mem_singleton.mp hfield]
        exact (h.headers header hheader).contentLength
      · cases hfield

/-- A header without a name is one of the request's own. -/
theorem fields_named (h : ∀ header ∈ r.headers, header.1 ≠ []) :
    ∀ field ∈ r.fields, field.1 ≠ [] := by
  have hconnection : chars "connection" ≠ [] := by decide
  have hlength : chars "content-length" ≠ [] := by decide
  exact forall_fields hconnection h fun _ => hlength

/-! ## The round trip -/

theorem exec_dump (h : r.Textual) {a : HttpParser} (hcs : a.cs = 1)
    (hnamed : ∀ header ∈ r.headers, header.1 ≠ []) (hsize : (r.dump false).length < 2 ^ 63) :
    ∃ (b : HttpParser) (calls : List Call) (n : Nat),
      a.exec 0 (r.dump false) = (b, n, calls) ∧ b.cs = 348 ∧ (r.dump false).drop n = r.body ∧
      (∀ c ∈ calls, c.throws = false ∧ c.refusal (r.dump false) = none) ∧
      calls.foldl (Call.fill (r.dump false)) {} = { ({} : HttpRequest) with
        method := r.method, path := r.path, query := r.query, fragment := r.fragment
        version := r.version
        headers := r.fields.foldl (fun m field => m.set field.1 field.2) [] } := by
  have htext : r.dump false = (r.requestLine ++ r.fields.flatMap dumpHeader) ++
      13 :: 10 :: r.body := by
    rw [dump_eq h, chars_newline, List.append_assoc _ [13, 10]]
    rfl
  have hat : At (r.dump false) 0 (r.requestLine ++ r.fields.flatMap dumpHeader) := by
    rw [htext]
    exact at_prefix _ _
  have hlength := congrArg List.length htext
  rw [List.length_append, List.length_append] at hlength
  generalize r.dump false = head at *
  obtain ⟨hline, hfields⟩ := at_append.mp hat
  obtain ⟨b, hb, hfirst⟩ := fills_requestLine h.line hline (by omega) hcs
  obtain ⟨b', hb', hsecond⟩ := fills_fields (fields_line h) (fields_named hnamed) hfields
    (by omega) hb
  obtain ⟨calls, hwalk, hfine, hfill⟩ := (hfirst.append hsecond).exists_calls
  obtain ⟨b'', hb'', hend⟩ := exec_blankLine hb' r.body
    (0 + (r.requestLine ++ r.fields.flatMap dumpHeader).length)
  have hexec := hwalk.exec_append (13 :: 10 :: r.body)
  rw [hend, List.append_nil, ← htext, ← HttpParser.exec_eq_scan] at hexec
  refine ⟨b'', calls, _, hexec, hb'', ?_, hfine, hfill⟩
  rw [htext, Nat.zero_add, Nat.add_assoc, List.drop_length_add_append]
  rfl

/-- What is filled in is the request. -/
theorem recovered (h : r.Textual) (hsize : r.body.length < 2 ^ 64) {parsed : HttpRequest}
    (hparsed : parsed = { ({} : HttpRequest) with
      method := r.method, path := r.path, query := r.query, fragment := r.fragment
      version := r.version
      headers := r.fields.foldl (fun m field => m.set field.1 field.2) [] }) :
    r.Recovered parsed := by
  have hheaders (entry : List UInt8 × List UInt8) : entry ∈ parsed.headers ↔ entry ∈ r.fields := by
    rw [hparsed]
    exact (Headers.mem_foldl_set (by simp) (fields_pairwise h) entry).trans (by simp)
  refine ⟨by rw [hparsed], by rw [hparsed], by rw [hparsed], by rw [hparsed], by rw [hparsed],
    hheaders, ?_⟩
  have hlength : strcasecmpZero (chars "connection") (chars "content-length") = false := by
    decide
  unfold HttpRequest.contentLength HttpRequest.getHeaderAsU64
  by_cases hbody : r.body = []
  · have hnone : ∀ entry ∈ parsed.headers,
        strcasecmpZero entry.1 (chars "content-length") = false := by
      intro entry hentry
      refine forall_fields
        (P := fun entry => strcasecmpZero entry.1 (chars "content-length") = false)
        hlength ?_ ?_ entry ((hheaders entry).mp hentry)
      · exact fun header hheader => (h.headers header hheader).contentLength
      · exact fun hne => absurd hbody hne
    rw [Headers.find_eq_none hnone, hbody]
    rfl
  · have hpos : 0 < r.body.length := List.length_pos_iff.mpr hbody
    have hmem : (chars "content-length", dumpNat r.body.length) ∈ parsed.headers := by
      rw [hheaders]
      unfold HttpRequest.fields
      rw [if_pos hbody]
      simp
    have honly : ∀ entry ∈ parsed.headers, strcasecmpZero entry.1 (chars "content-length") = true →
        entry = (chars "content-length", dumpNat r.body.length) := by
      intro entry hentry
      refine forall_fields
        (P := fun entry => strcasecmpZero entry.1 (chars "content-length") = true →
        entry = (chars "content-length", dumpNat r.body.length)) ?_ ?_ ?_ entry
          ((hheaders entry).mp hentry)
      · intro hequal
        rw [hlength] at hequal
        cases hequal
      · intro header hheader hequal
        rw [(h.headers header hheader).contentLength] at hequal
        cases hequal
      · exact fun _ _ => rfl
    rw [Headers.find_eq hmem honly (by decide), Option.bind_some,
      lexicalCast_dumpNat hpos hsize]
    rfl

theorem dump_ne_nil (r : HttpRequest) : r.dump false ≠ [] := by
  have hspace : chars " HTTP/" ≠ [] := by decide
  unfold HttpRequest.dump
  simp [hspace]

/-- `checkedExecute` of a text that passes the assertion. -/
theorem checkedExecute_dump (raw : HttpParser) (hsize : (r.dump false).length < 2 ^ 31) :
    ∃ a : HttpParser, a.cs = 1 ∧ ∀ b n calls, a.exec 0 (r.dump false) = (b, n, calls) →
      (HttpRequestParser.new raw).checkedExecute (r.dump false) =
        if calls.any Call.throws then none
        else some (⟨b, calls.foldl (Call.fill (r.dump false)) {},
          calls.foldl (fun e c => (c.refusal (r.dump false)).getD e) 0⟩, n) := by
  refine ⟨raw.init, rfl, fun b n calls h => ?_⟩
  rw [HttpRequestParser.checkedExecute_new raw (dump_ne_nil r) hsize, ← HttpParser.exec_eq_scan, h]

theorem roundTrips (h : r.Textual) (hnamed : ∀ header ∈ r.headers, header.1 ≠ [])
    (hsize : (r.dump false).length < 2 ^ 31) (raw : HttpParser) : r.RoundTrips raw := by
  obtain ⟨a, hcs, hchecked⟩ := checkedExecute_dump raw hsize
  obtain ⟨b, calls, n, hexec, hfinal, hdrop, hfine, hfill⟩ :=
    exec_dump h hcs hnamed (by omega)
  have hthrows : calls.any Call.throws = false := by
    rw [List.any_eq_false]
    exact fun c hc => Bool.eq_false_iff.mp (hfine c hc).1
  have herror :=
    (foldl_refusal_eq_zero (r.dump false) calls 0).mpr ⟨rfl, fun c hc => (hfine c hc).2⟩
  have hbody : r.body.length < 2 ^ 64 := by
    have hlength := congrArg List.length (dump_eq h)
    rw [List.length_append] at hlength
    omega
  have hresult := hchecked b n calls hexec
  rw [hthrows, if_neg Bool.false_ne_true] at hresult
  refine ⟨_, n, hresult, ?_, ?_, hdrop, recovered h hbody hfill⟩
  · simp [HttpRequestParser.isFinished, HttpParser.isFinished, hfinal]
  · simp [HttpRequestParser.hasError, HttpParser.hasError, hfinal, herror]

/-- The assertion fails on a text that is too long. -/
theorem not_roundTrips_of_long (hsize : 2 ^ 31 ≤ (r.dump false).length) (raw : HttpParser) :
    ¬ r.RoundTrips raw := by
  intro ⟨parser, nparse, hexec, _⟩
  have hrange := int32_range (r.dump false).length
  rw [HttpRequestParser.checkedExecute, if_neg (by omega)] at hexec
  cases hexec

/-- A header without a name is an error. -/
theorem not_roundTrips_of_nameless (h : r.Textual) (hnameless : ∃ header ∈ r.headers, header.1 = [])
    (raw : HttpParser) : ¬ r.RoundTrips raw := by
  intro hround
  have hsize : (r.dump false).length < 2 ^ 31 := by
    by_contra hlong
    exact not_roundTrips_of_long (by omega) raw hround
  obtain ⟨parser, nparse, hresult, _, herror, _⟩ := hround
  obtain ⟨a, hcs, hchecked⟩ := checkedExecute_dump raw hsize
  have htext : r.dump false = r.requestLine ++
      (r.fields.flatMap dumpHeader ++ (chars "\r\n" ++ r.body)) := by
    rw [dump_eq h]
    simp only [List.append_assoc]
  have hat : At (r.dump false) 0 r.requestLine := by
    rw [htext]
    exact at_prefix _ _
  have hlength := congrArg List.length htext
  rw [List.length_append] at hlength
  obtain ⟨b, hb, hfills⟩ := fills_requestLine h.line hat (by omega) hcs
  obtain ⟨calls, hwalk, _⟩ := hfills.exists_calls
  have hfails : (a.exec 0 (r.dump false)).1.cs = 0 := by
    obtain ⟨header, hheader, hname⟩ := hnameless
    have hfield : header ∈ r.fields := by
      unfold HttpRequest.fields
      simp [hheader]
    rw [HttpParser.exec_eq_scan, htext, hwalk.exec_append]
    exact exec_nameless (fields_line h) ⟨header, hfield, hname⟩ hb _ _
  generalize hexec : a.exec 0 (r.dump false) = run at hfails
  obtain ⟨b', n, calls'⟩ := run
  rw [hchecked b' n calls' hexec] at hresult
  by_cases hthrows : calls'.any Call.throws = true
  · rw [if_pos hthrows] at hresult
    cases hresult
  · rw [if_neg hthrows] at hresult
    have hparser := congrArg Prod.fst (Option.some.inj hresult)
    simp only at hparser hfails
    rw [← hparser] at herror
    simp [HttpRequestParser.hasError, HttpParser.hasError, hfails] at herror

/-- A request comes back from its text iff all headers have names and the length of the text is
an `int`. -/
theorem dump_roundTrips (h : r.Textual) (raw : HttpParser) :
    r.RoundTrips raw ↔
      (∀ header ∈ r.headers, header.1 ≠ []) ∧ (r.dump false).length < 2 ^ 31 := by
  constructor
  · intro hround
    constructor
    · intro header hheader hname
      exact not_roundTrips_of_nameless h ⟨header, hheader, hname⟩ raw hround
    · by_contra hsize
      exact not_roundTrips_of_long (by omega) raw hround
  · intro ⟨hnamed, hsize⟩
    exact roundTrips h hnamed hsize raw

end

/-- A request with all its parts. -/
theorem dump_roundTrips_all_parts :
    let r : HttpRequest :=
      { method := .post, version := 0x10, close := false, path := chars "/a//b-c/"
        query := chars "x=1&y", fragment := chars "top", body := chars "xyz"
        headers := [(chars "Accept", []), (chars "Host", chars "h: 1 ")] }
    r.RoundTrips (.fresh true) := by
  intro r
  have htext : r.Textual := by
    refine ⟨by decide +kernel, .inl rfl, ⟨chars "a//b-c/", ?_⟩, ?_, ?_, ?_, ?_⟩
    · decide +kernel
    · decide +kernel
    · decide +kernel
    · intro header hheader
      have hname : ∀ header ∈ r.headers, ∀ c ∈ header.1, isNameChar c := by decide +kernel
      have hvalue : ∀ header ∈ r.headers, ∀ c ∈ header.2, isValueChar c := by decide +kernel
      have hstart : ∀ header ∈ r.headers,
          header.2.head? ≠ some 32 ∧ header.2.head? ≠ some 9 := by decide
      have hown : ∀ header ∈ r.headers, strcasecmpZero header.1 (chars "connection") = false ∧
          strcasecmpZero header.1 (chars "content-length") = false := by decide
      exact ⟨⟨hname header hheader, hvalue header hheader, hstart header hheader⟩,
        (hown header hheader).1, (hown header hheader).2⟩
    · decide
  exact (dump_roundTrips htext (.fresh true)).mpr ⟨by decide, by decide⟩

/-- A body of `2 ^ 31` bytes is too long for the assertion. -/
theorem dump_too_long :
    let r : HttpRequest := { body := List.replicate (2 ^ 31) 97 }
    r.Textual ∧ ∀ raw, ¬ r.RoundTrips raw := by
  intro r
  have hbody : r.body.length = 2 ^ 31 := List.length_replicate
  have htext : r.Textual := by
    have hmethod : ∀ c ∈ httpMethodToString .get, 65 ≤ c ∧ c ≤ 90 := by decide +kernel
    have hpath : PathText (chars "/") := ⟨[], by decide, by decide, by simp⟩
    exact ⟨hmethod, .inr rfl, hpath, by simp [r], by simp [r], by simp [r], by simp [r]⟩
  refine ⟨htext, fun raw => not_roundTrips_of_long ?_ raw⟩
  rw [dump_eq htext, List.length_append, hbody]
  exact Nat.le_add_left _ _

end Lyslg.Http
