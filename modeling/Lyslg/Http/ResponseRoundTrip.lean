import Lyslg.Http.ResponseDump
import Lyslg.Http.ResponseWalk
/-!
# Responses come back from their text

The parser of the client over what `HttpResponse::dump` prints.  The lines are assigned to the
headers one after the other, so that the last line of a name counts.
-/

namespace Lyslg.Http

open Support Support.Machine Support.Memory
open scoped ListMembers

/-! ## Which responses should come back -/

namespace ResponseMessage

/-- The header lines of the text. -/
def fields (r : ResponseMessage) (websocket : Bool) : Headers :=
  (r.headers.filter fun header => websocket || !strcasecmpZero header.1 (chars "connection")) ++
    (r.cookies.map fun cookie => (chars "Set-Cookie", cookie)) ++
    ((if websocket then []
      else [(chars "connection", chars (if r.close then "close" else "keep-alive"))]) ++
    if r.body ≠ [] then [(chars "content-length", dumpNat r.body.length)] else [])

/-- What is printed for the reason. -/
def reasonText (r : ResponseMessage) : List UInt8 :=
  if r.reason = [] then httpStatusToString r.status else r.reason

/-- The status line with its CRLF. -/
def statusLine (r : ResponseMessage) : List UInt8 :=
  dumpVersion r.version ++ [32] ++ (dumpNat (r.status % 2 ^ 32).toNat ++ [32]) ++
    (r.reasonText ++ [13] ++ [10])

/-- The text up to the body. -/
def head (r : ResponseMessage) (websocket : Bool) : List UInt8 :=
  r.statusLine ++ (r.fields websocket).flatMap dumpHeader ++ chars "\r\n"

/-- Header values and cookies may be empty, and hold all but line ends and a blank in front. -/
structure Textual (r : ResponseMessage) : Prop where
  version : r.version = 0x10 ∨ r.version = 0x11
  /-- `HttpStatus` is an `int` -/
  status : -2 ^ 31 ≤ r.status ∧ r.status < 2 ^ 31
  reason : ∀ c ∈ r.reason, HttpClientParser.isLineChar c
  headers : ∀ header ∈ r.headers, HttpClientParser.Line header
  cookies : ∀ cookie ∈ r.cookies, HttpClientParser.Line (chars "Set-Cookie", cookie)

/-- `parsed` is the response, with the headers of its text. -/
structure Recovered (r : ResponseMessage) (websocket : Bool) (parsed : HttpResponse) : Prop where
  version : parsed.version = r.version
  status : parsed.status = r.status
  reason : parsed.reason = r.reasonText
  headers : ∀ key, parsed.headers.find key = Headers.find (r.fields websocket).reverse key

/-- A parser that is fed the text finishes the response and leaves the body; `raw` is what the
memory of its `httpclient_parser` held before. -/
def RoundTrips (r : ResponseMessage) (raw : HttpClientParser) : Prop :=
  ∃ parser nparse,
    (HttpResponseParser.new raw).checkedExecute (r.dump false) false = .ok (parser, nparse) ∧
      parser.isFinished = true ∧ parser.hasError = false ∧
      (r.dump false).drop nparse = r.body ∧ r.Recovered false parser.data

theorem length_head (r : ResponseMessage) (websocket : Bool) : (r.head websocket).length =
    (r.statusLine ++ (r.fields websocket).flatMap dumpHeader).length + 2 := by
  have hnewline : (chars "\r\n").length = 2 := by decide
  unfold head
  rw [List.length_append, hnewline]

theorem dump_eq_head (r : ResponseMessage) (websocket : Bool) :
    r.dump websocket = r.head websocket ++ r.body := by
  have hheaders : (r.headers.flatMap fun header =>
      if !websocket && strcasecmpZero header.1 (chars "connection") then [] else
        dumpHeader header) =
        (r.headers.filter fun header =>
          websocket || !strcasecmpZero header.1 (chars "connection")).flatMap dumpHeader := by
    induction r.headers with
    | nil => rfl
    | cons header headers ih =>
        rw [List.flatMap_cons, ih, List.filter_cons]
        cases websocket <;> cases strcasecmpZero header.1 (chars "connection") <;>
          simp
  have hcookies : (r.cookies.flatMap fun cookie => chars "Set-Cookie: " ++ cookie ++ chars "\r\n") =
      (r.cookies.map fun cookie => (chars "Set-Cookie", cookie)).flatMap dumpHeader := by
    have hcookie : chars "Set-Cookie: " = chars "Set-Cookie" ++ chars ": " := by decide
    rw [List.flatMap_map, hcookie]
    rfl
  have hconnection : chars "connection: " = chars "connection" ++ chars ": " := by decide
  have hlength : chars "content-length: " = chars "content-length" ++ chars ": " := by decide
  have htwice : chars "\r\n\r\n" = chars "\r\n" ++ chars "\r\n" := by decide
  have hspace : chars " " = [32] := by decide
  unfold ResponseMessage.dump head statusLine fields reasonText
  rw [hheaders, hcookies, hconnection, hspace]
  by_cases hbody : r.body = [] <;> cases websocket
  all_goals simp [hbody, dumpVersion, dumpHeader, hlength, htwice, chars_newline]

end ResponseMessage

/-! ## Numbers -/

theorem dumpNat_spec (n : Nat) : dumpNat n ≠ [] ∧ (∀ c ∈ dumpNat n, 48 ≤ c ∧ c ≤ 57) ∧
    (dumpNat n).foldl (fun n c => 10 * n + (c.toNat - 48)) 0 = n := by
  rcases Nat.eq_zero_or_pos n with rfl | hn
  · exact ⟨by decide, by simp [dumpNat], rfl⟩
  · exact ⟨dumpNat_ne_nil hn, dumpNat_digits hn, dumpNat_value hn⟩

/-- A digit is one of a number, and none of the bytes that stand around numbers. -/
structure DigitChar (c : UInt8) : Prop where
  digit : isDigit 10 c = true
  value : digitValue c = c.toNat - 48
  space : isSpace c = false
  sign : c ≠ 45 ∧ c ≠ 43
  line : HttpClientParser.isLineChar c = true
  header : isValueChar c = true

theorem digitChar {c : UInt8} (h : 48 ≤ c ∧ c ≤ 57) : DigitChar c := by
  constructor <;> revert h <;> revert c <;> apply forall_byte <;> decide +kernel

/-- The digits of a number before a byte that is none. -/
theorem leadingValue_dumpNat (n : Nat) {c : UInt8} (hc : isDigit 10 c = false)
    (rest : List UInt8) : leadingValue 10 (dumpNat n ++ c :: rest) = n := by
  obtain ⟨_, hdigits, hvalue⟩ := dumpNat_spec n
  have htake : (dumpNat n ++ c :: rest).takeWhile (isDigit 10) = dumpNat n := by
    rw [List.takeWhile_append_of_pos fun d hd => (digitChar (hdigits d hd)).digit,
      List.takeWhile_cons, hc]
    exact List.append_nil _
  rw [leadingValue, htake]
  refine (List.foldl_ext _ _ 0 fun m d hd => ?_).trans hvalue
  rw [(digitChar (hdigits d hd)).value]

/-- `atoi` reads a status back, the negative ones as well. -/
theorem atoi_status {status : Int} (h : -2 ^ 31 ≤ status ∧ status < 2 ^ 31) (rest : List UInt8) :
    atoi (dumpNat (status % 2 ^ 32).toNat ++ 32 :: rest) = status := by
  have hlt : (status % 2 ^ 32).toNat < 2 ^ 32 := by omega
  have hwrap : int32 ((status % 2 ^ 32).toNat : Int) = status := by
    have hbmod : (status % 2 ^ 32).bmod (2 ^ 32) = status.bmod (2 ^ 32) :=
      Int.emod_bmod status (2 ^ 32)
    rw [Int.toNat_of_nonneg (Int.emod_nonneg _ (by decide)), int32, hbmod]
    exact Int.bmod_eq_of_le h.1 h.2
  generalize (status % 2 ^ 32).toNat = n at hlt hwrap
  have hvalue := leadingValue_dumpNat n (by decide : isDigit 10 32 = false) rest
  obtain ⟨c, s, hcons⟩ := List.exists_cons_of_ne_nil (dumpNat_spec n).1
  have hplain := digitChar ((dumpNat_spec n).2.1 c (by rw [hcons]; exact List.mem_cons_self))
  have hlead (s : List UInt8) : skipPrefix 10 s = s := by
    unfold skipPrefix
    split
    · exact if_neg fun h => absurd h.1 (by decide)
    · rfl
  have hstart : (dumpNat n ++ 32 :: rest).dropWhile isSpace = dumpNat n ++ 32 :: rest := by
    rw [hcons, List.cons_append, List.dropWhile_cons, hplain.space]
    rfl
  have hstrtol : strtol (dumpNat n ++ 32 :: rest) 10 = n := by
    rw [strtol, hstart]
    split
    · rename_i heq
      rw [hcons] at heq
      exact absurd (List.cons.inj heq).1 hplain.sign.1
    · rename_i heq
      rw [hcons] at heq
      exact absurd (List.cons.inj heq).1 hplain.sign.2
    · rw [hlead, hvalue]
      omega
  rw [atoi, hstrtol, hwrap]

/-! ## Stretches of a head -/

namespace HttpClientParser

/-- The machine goes over the bytes at `p`, and the callbacks on the buffer take the response
along. -/
structure Fills (buffer : List UInt8) (p : Nat) (bytes : List UInt8) (a b : HttpClientParser)
    (d d' : HttpResponse) : Prop where
  exists_calls : ∃ calls, (scanner buffer).Walks p a bytes calls b ∧
    ∀ self : HttpResponseParser, self.data = d →
      calls.foldlM (HttpResponseParser.callback buffer) self = some { self with data := d' }

section

variable {buffer bytes bytes' : List UInt8} {p : Nat} {a b b' : HttpClientParser}
  {d d' d'' : HttpResponse}

theorem Fills.append (h : Fills buffer p bytes a b d d')
    (h' : Fills buffer (p + bytes.length) bytes' b b' d' d'') :
    Fills buffer p (bytes ++ bytes') a b' d d'' := by
  obtain ⟨calls, hwalk, hfill⟩ := h.exists_calls
  obtain ⟨calls', hwalk', hfill'⟩ := h'.exists_calls
  refine ⟨calls ++ calls', hwalk.append hwalk', fun self hself => ?_⟩
  rw [List.foldlM_append, hfill self hself]
  exact hfill' { self with data := d' } rfl

/-- A stretch without callbacks. -/
theorem Fills.quiet (h : (scanner buffer).Walks p a bytes [] b) (d : HttpResponse) :
    Fills buffer p bytes a b d d := by
  refine ⟨[], h, fun self hself => ?_⟩
  rw [← hself]
  rfl

/-- A stretch with one callback. -/
theorem Fills.call {call : ResponseCall} (h : (scanner buffer).Walks p a bytes [call] b)
    (hcall : ∀ self : HttpResponseParser, self.data = d →
      HttpResponseParser.callback buffer self call = some { self with data := d' }) :
    Fills buffer p bytes a b d d' := by
  refine ⟨[call], h, fun self hself => ?_⟩
  rw [List.foldlM_cons, hcall self hself]
  rfl

/-- A stretch without callbacks, and a byte with one. -/
theorem Fills.element {c : UInt8} {target : Nat} {actions : List HttpClient.Action}
    {call : ResponseCall} (h : (scanner buffer).Walks p a bytes [] b)
    (hgoes : Goes b.cs c target actions) (hdone : .done ∉ actions)
    (hact : { b with cs := target }.actAll buffer (p + bytes.length) actions = (b', [call]))
    (hcall : ∀ self : HttpResponseParser, self.data = d →
      HttpResponseParser.callback buffer self call = some { self with data := d' }) :
    Fills buffer p (bytes ++ [c]) a b' d d' := by
  have hwalk := hgoes.walks buffer hdone (p + bytes.length)
  rw [hact] at hwalk
  exact .call (h.append hwalk) hcall

/-! ### The status line -/

/-- The machine goes over the bytes without actions. -/
def Quiet (cs : Nat) (bytes : List UInt8) (target : Nat) : Prop :=
  bytes.foldlM quietStep cs = some target

instance (cs : Nat) (bytes : List UInt8) (target : Nat) : Decidable (Quiet cs bytes target) :=
  inferInstanceAs (Decidable (_ = _))

variable (buffer) in
theorem Quiet.walks {target : Nat} (h : Quiet a.cs bytes target) (p : Nat) :
    (scanner buffer).Walks p a bytes [] { a with cs := target } := by
  induction bytes generalizing a p with
  | nil =>
      cases h
      exact .nil p a
  | cons c bytes ih =>
      rw [Quiet, List.foldlM_cons, Option.bind_eq_bind, Option.bind_eq_some_iff] at h
      obtain ⟨cs, hstep, hrest⟩ := h
      exact (walks_quietStep buffer hstep p).append (ih (a := { a with cs := cs }) hrest (p + 1))

/-- The machine over the parts of a status line. -/
structure StatusSteps : Prop where
  version : ∀ version, version = 0x10 ∨ version = 0x11 →
    Goes 1 72 8 [.mark] ∧ Quiet 8 (dumpVersion version).tail 15
  versionEnd : Goes 15 32 16 [.httpVersion]
  status : ∀ c : UInt8, 48 ≤ c ∧ c ≤ 57 → Goes 16 c 17 [.mark] ∧ quietStep 17 c = some 17
  statusEnd : Goes 17 32 18 [.statusCode]
  reason : ∀ c : UInt8, isLineChar c → Goes 18 c 19 [.mark] ∧ quietStep 19 c = some 19
  reasonEnd : Goes 19 13 24 [.reasonPhrase]
  newline : Quiet 24 [10] 20

theorem statusSteps : StatusSteps where
  version version h := by rcases h with rfl | rfl <;> decide +kernel
  versionEnd := by decide +kernel
  status := forall_byte (by decide +kernel)
  statusEnd := by decide +kernel
  reason := forall_byte (by decide +kernel)
  reasonEnd := by decide +kernel
  newline := by decide +kernel

theorem fills_version {version : Nat} (hversion : version = 0x10 ∨ version = 0x11)
    (hat : At buffer p (dumpVersion version)) (hsize : p + 8 < 2 ^ 63) (hcs : a.cs = 1) :
    ∃ b, b.cs = 16 ∧ b.chunked = a.chunked ∧
      Fills buffer p (dumpVersion version ++ [32]) a b d { d with version := version } := by
  obtain ⟨hlength, -, -, heq, hfound⟩ := dumpVersion_eq hversion
  obtain ⟨hfirst, hrest⟩ := statusSteps.version version hversion
  have hwalk : (scanner buffer).Walks p a (dumpVersion version) []
      { a with cs := 15, mark := p } := by
    rw [heq]
    rw [← hcs] at hfirst
    have hlater := Quiet.walks buffer (a := { a with cs := 8, mark := p }) hrest (p + 1)
    exact (hfirst.walks buffer (by decide) p).append hlater
  have hfind : charsToVersion (buffer.drop p) (HttpParser.len p (p + (dumpVersion version).length))
      = some version := by
    rw [HttpParser.len_eq (Nat.le_add_right _ _) (by omega), Nat.add_sub_cancel_left, hlength,
      ← hfound]
    apply charsToVersion_take
    rw [At, hlength] at hat
    rw [List.take_of_length_le hlength.le]
    exact hat
  refine ⟨{ a with cs := 16, mark := p }, rfl, rfl,
    .element hwalk statusSteps.versionEnd (by decide) rfl ?_⟩
  intro self hself
  simp only [HttpResponseParser.callback, hfind, hself]

theorem fills_status {status : Int} (h : -2 ^ 31 ≤ status ∧ status < 2 ^ 31)
    (hat : At buffer p (dumpNat (status % 2 ^ 32).toNat ++ [32])) (hcs : a.cs = 16) :
    ∃ b, b.cs = 18 ∧ b.chunked = a.chunked ∧
      Fills buffer p (dumpNat (status % 2 ^ 32).toNat ++ [32]) a b d
      { d with status := status } := by
  have hread : atoi (buffer.drop p) = status := by
    have htext := List.take_append_drop (dumpNat (status % 2 ^ 32).toNat ++ [32]).length
      (buffer.drop p)
    have hhere : (buffer.drop p).take (dumpNat (status % 2 ^ 32).toNat ++ [32]).length =
        dumpNat (status % 2 ^ 32).toNat ++ [32] := hat
    rw [hhere, List.append_assoc] at htext
    rw [← htext]
    exact atoi_status h _
  obtain ⟨hne, hdigits, -⟩ := dumpNat_spec (status % 2 ^ 32).toNat
  generalize dumpNat (status % 2 ^ 32).toNat = text at *
  obtain ⟨c, rest, rfl⟩ := List.exists_cons_of_ne_nil hne
  obtain ⟨hc, hrest⟩ := List.forall_mem_cons.mp hdigits
  have hfirst := (statusSteps.status c hc).1
  rw [← hcs] at hfirst
  obtain ⟨cs, rfl, hloop⟩ := walks_within buffer (a := { a with cs := 17, mark := p })
    (S := fun cs => cs = 17)
    (fun cs c hc h => ⟨17, by rw [h]; exact (statusSteps.status c (hrest c hc)).2, rfl⟩) rfl (p + 1)
  have hwalk := (hfirst.walks buffer (by decide) p).append hloop
  let b : HttpClientParser :=
    { a with cs := 18, mark := p, status := int32 (strtol (buffer.drop p) 10) }
  have hact : ({ a with cs := 18, mark := p } : HttpClientParser).actAll buffer
      (p + ([c] ++ rest).length) [.statusCode] =
        (b, [.statusCode p (HttpParser.len p (p + ([c] ++ rest).length))]) := rfl
  refine ⟨b, rfl, rfl, .element hwalk statusSteps.statusEnd (by decide) hact fun self hself => ?_⟩
  simp only [HttpResponseParser.callback, hread, hself]

/-- What a `std::string` is made of from a text. -/
theorem stdString_at {text : List UInt8} (hat : At buffer p text)
    (hsize : p + text.length < 2 ^ 63) :
    stdString buffer p (HttpParser.len p (p + text.length)) = some text := by
  obtain ⟨hlen, htext⟩ := slice_len hat hsize
  rw [stdString, if_pos hlen]
  exact congrArg some htext

theorem fills_reason {reason : List UInt8} (hreason : ∀ c ∈ reason, isLineChar c)
    (hne : reason ≠ [])
    (hat : At buffer p reason) (hsize : p + reason.length < 2 ^ 63) (hcs : a.cs = 18) :
    ∃ b, b.cs = 20 ∧ b.chunked = a.chunked ∧
      Fills buffer p (reason ++ [13] ++ [10]) a b d { d with reason := reason } := by
  have hstring := stdString_at hat hsize
  obtain ⟨c, rest, rfl⟩ := List.exists_cons_of_ne_nil hne
  obtain ⟨hc, hrest⟩ := List.forall_mem_cons.mp hreason
  have hfirst := (statusSteps.reason c hc).1
  rw [← hcs] at hfirst
  obtain ⟨cs, rfl, hloop⟩ := walks_within buffer (a := { a with cs := 19, mark := p })
    (S := fun cs => cs = 19)
    (fun cs c hc h => ⟨19, by rw [h]; exact (statusSteps.reason c (hrest c hc)).2, rfl⟩) rfl (p + 1)
  have hwalk := (hfirst.walks buffer (by decide) p).append hloop
  have hlast := Quiet.walks buffer (a := { a with cs := 24, mark := p })
    statusSteps.newline (p + (c :: rest ++ [13]).length)
  have hcall : Fills buffer p (c :: rest ++ [13]) a { a with cs := 24, mark := p } d
      { d with reason := c :: rest } := by
    refine .element hwalk statusSteps.reasonEnd (by decide) rfl fun self hself => ?_
    simp only [HttpResponseParser.callback, hstring, hself]
    rfl
  exact ⟨{ a with cs := 20, mark := p }, rfl, rfl, hcall.append (.quiet hlast _)⟩

theorem httpStatusToString_line (s : Int) :
    httpStatusToString s ≠ [] ∧ ∀ c ∈ httpStatusToString s, isLineChar c := by
  have hunknown : chars "<unknown>" ≠ [] ∧ ∀ c ∈ chars "<unknown>", isLineChar c := by
    decide +kernel
  have hreasons : ∀ entry ∈ httpStatusMap, entry.2 ≠ [] ∧ ∀ c ∈ entry.2, isLineChar c := by
    decide +kernel
  unfold httpStatusToString
  cases hlookup : httpStatusMap.lookup s with
  | none => exact hunknown
  | some text =>
      obtain ⟨before, after, hsplit, _⟩ := List.lookup_eq_some_iff.mp hlookup
      exact hreasons (s, text) (by rw [hsplit]; simp)

theorem reasonText_line {r : ResponseMessage} (h : r.Textual) :
    r.reasonText ≠ [] ∧ ∀ c ∈ r.reasonText, isLineChar c := by
  unfold ResponseMessage.reasonText
  split
  · exact httpStatusToString_line r.status
  · rename_i hne
    exact ⟨hne, h.reason⟩

theorem fills_statusLine {r : ResponseMessage} (h : r.Textual) (hat : At buffer 0 r.statusLine)
    (hsize : r.statusLine.length < 2 ^ 63) (hcs : a.cs = 1) :
    ∃ b, b.cs = 20 ∧ b.chunked = a.chunked ∧ Fills buffer 0 r.statusLine a b {}
      { ({} : HttpResponse) with
        version := r.version, status := r.status, reason := r.reasonText } := by
  obtain ⟨hne, hreason⟩ := reasonText_line h
  have hlength := (dumpVersion_eq h.version).1
  unfold ResponseMessage.statusLine at hat hsize ⊢
  simp only [List.length_append] at hsize
  obtain ⟨hfront, hline⟩ := at_append.mp hat
  obtain ⟨hversion, hstatus⟩ := at_append.mp hfront
  obtain ⟨b, hb, hbchunked, hfirst⟩ := fills_version (d := {}) h.version (at_append.mp hversion).1
    (by omega) hcs
  obtain ⟨b', hb', hbchunked', hsecond⟩ := fills_status
    (d := { ({} : HttpResponse) with version := r.version }) h.status hstatus hb
  obtain ⟨b'', hb'', hbchunked'', hthird⟩ := fills_reason
    (d := { ({} : HttpResponse) with version := r.version, status := r.status }) hreason hne
    (at_append.mp (at_append.mp hline).1).1 (by simp only [List.length_append]; omega) hb'
  refine ⟨b'', hb'', ?_, (hfirst.append hsecond).append hthird⟩
  rw [hbchunked'', hbchunked', hbchunked]

/-! ### The headers -/

theorem fills_header {name value : List UInt8} (h : Line (name, value)) (hne : name ≠ [])
    (hat : At buffer p (dumpHeader (name, value)))
    (hsize : p + (dumpHeader (name, value)).length < 2 ^ 63) (hcs : a.cs ∈ lineStart) :
    ∃ b, b.cs ∈ lineStart ∧ (value ≠ [] → b.cs ∈ headEnd) ∧
      (name.map toLower ≠ encodingName → b.chunked = a.chunked) ∧
      Fills buffer p (dumpHeader (name, value)) a b d
        { d with headers := d.headers.set name value } := by
  obtain ⟨b, hwalk, hline, hend, hkept⟩ := walks_header buffer h hne hcs p
  have hlength : (dumpHeader (name, value)).length = name.length + 2 + value.length + 2 := by
    simp only [dumpHeader, List.length_append, chars_separator, chars_newline, List.length_cons,
      List.length_nil]
  rw [hlength] at hsize
  have hat : At buffer p (name ++ chars ": " ++ value ++ chars "\r\n") := hat
  obtain ⟨hfield, _⟩ := at_append.mp hat
  obtain ⟨hkey, hval⟩ := at_append.mp hfield
  obtain ⟨hname, _⟩ := at_append.mp hkey
  have hstart : p + (name ++ chars ": ").length = p + name.length + 2 := by
    rw [List.length_append, ← Nat.add_assoc]
    rfl
  rw [hstart] at hval
  have hntext := stdString_at hname (by omega)
  have hvtext := stdString_at hval (by omega)
  have hflen : HttpParser.len p (p + name.length) ≠ 0 := by
    rw [HttpParser.len_eq (Nat.le_add_right _ _) (by omega)]
    have := List.length_pos_iff.mpr hne
    omega
  refine ⟨b, hline, hend, hkept, .call hwalk fun self hself => ?_⟩
  simp only [HttpResponseParser.callback, if_neg hflen, hntext, hvtext, hself]
  rfl

/-- The last line decides on the state behind the lines. -/
theorem fills_fields {fields : Headers} (hline : ∀ field ∈ fields, Line field)
    (hne : ∀ field ∈ fields, field.1 ≠ []) (hat : At buffer p (fields.flatMap dumpHeader))
    (hsize : p + (fields.flatMap dumpHeader).length < 2 ^ 63) (hcs : a.cs ∈ lineStart) :
    ∃ b, b.cs ∈ lineStart ∧ (∀ last ∈ fields.getLast?, last.2 ≠ [] → b.cs ∈ headEnd) ∧
      ((∀ field ∈ fields, field.1.map toLower ≠ encodingName) → b.chunked = a.chunked) ∧
      Fills buffer p (fields.flatMap dumpHeader) a b d
        { d with headers := fields.foldl (fun m field => m.set field.1 field.2) d.headers } := by
  induction fields generalizing p a d with
  | nil => exact ⟨a, hcs, by simp, fun _ => rfl, .quiet (.nil p a) d⟩
  | cons field fields ih =>
      obtain ⟨hfirst, hlines⟩ := List.forall_mem_cons.mp hline
      obtain ⟨hname, hne⟩ := List.forall_mem_cons.mp hne
      rw [List.flatMap_cons] at hat hsize ⊢
      rw [List.length_append] at hsize
      obtain ⟨hhere, hlater⟩ := at_append.mp hat
      have hfits : p + (dumpHeader field).length < 2 ^ 63 := by omega
      obtain ⟨b, hb, hend, hkept, hfills⟩ := fills_header (d := d) hfirst hname hhere hfits hcs
      obtain ⟨b', hb', hend', hkept', hrest⟩ := ih hlines hne
        (d := { d with headers := d.headers.set field.1 field.2 }) hlater (by omega) hb
      refine ⟨b', hb', ?_, fun hother => ?_, hfills.append hrest⟩
      · cases fields with
        | nil =>
            obtain ⟨calls, hnone, _⟩ := hrest.exists_calls
            rw [(hnone.unique (.nil _ b)).2]
            intro last hlast
            cases Option.some.inj hlast
            exact hend
        | cons next fields =>
            rw [List.getLast?_cons_cons]
            exact hend'
      · obtain ⟨hthis, hothers⟩ := List.forall_mem_cons.mp hother
        rw [hkept' hothers, hkept hthis]

variable (buffer) in
/-- The end of the head. -/
theorem exec_blankLine (hcs : a.cs ∈ headEnd) (rest : List UInt8) (p : Nat) :
    ∃ b : HttpClientParser, b.cs = 120 ∧ b.bodyStart = p + 2 ∧ b.chunked = a.chunked ∧
      (scanner buffer).exec a p (13 :: 10 :: rest) = (b, p + 2, []) := by
  obtain ⟨s, hwalk, hs, hchunked⟩ : ∃ s : HttpClientParser,
      (scanner buffer).Walks p a [13] [] s ∧ s.cs = 3 ∧ s.chunked = a.chunked := by
    obtain hgoes | hgoes := markSteps.blankLine a.cs hcs
    · exact ⟨_, hgoes.walks buffer (by decide) p, rfl, rfl⟩
    · exact ⟨_, hgoes.walks buffer (by decide) p, rfl, rfl⟩
  have hlf : Goes s.cs 10 120 [.done] := by
    rw [hs]
    exact markSteps.finish
  obtain ⟨t, hnext, ht⟩ := Option.map_eq_some_iff.mp hlf
  obtain ⟨htarget, hactions⟩ := Prod.mk.inj ht
  have hends : (scanner buffer).ends t = true := by
    simp [scanner, hactions]
  have hfollow : (scanner buffer).follow (p + 1) s t =
      ({ s with cs := 120, bodyStart := p + 2 }, []) := by
    show { s with cs := t.target }.actAll buffer (p + 1) t.actions = _
    rw [htarget, hactions]
    rfl
  have hlast := hwalk.exec_append (10 :: rest)
  rw [Scanner.exec_ends (m := scanner buffer) hnext hends, List.length_singleton, hfollow] at hlast
  exact ⟨{ s with cs := 120, bodyStart := p + 2 }, rfl, rfl, hchunked, hlast⟩

theorem execute_fst (parser : HttpClientParser) : (parser.execute buffer).1 =
    ((scanner buffer).exec { parser with mark := 0, fieldLen := 0, fieldStart := 0 } 0 buffer).1 :=
  rfl

/-- `httpclient_parser_execute`, given the run of the machine. -/
theorem execute_of_exec {parser : HttpClientParser} {n : Nat} {calls : List ResponseCall}
    (hpos : 0 < buffer.length) (hlen : buffer.length < 2 ^ 64)
    (hexec :
      (scanner buffer).exec { parser with mark := 0, fieldLen := 0, fieldStart := 0 } 0 buffer =
      (b, n, calls)) (hbody : b.bodyStart ≤ buffer.length) :
    parser.execute buffer = (b, some n, calls) := by
  have hnread := execute_nread hpos hlen parser
  unfold execute at hnread ⊢
  simp only [hexec, hbody, if_true] at hnread ⊢
  rw [hnread _ rfl]

end

end HttpClientParser

/-! ## Header maps -/

namespace Headers

theorem set_eq_assign (m : Headers) (key val : List UInt8) :
    m.set key val = OrderedMap.assign caseInsensitiveLess m key val := by
  induction m with
  | nil => rfl
  | cons first rest ih => rw [set, OrderedMap.assign, ih]

theorem find_cons (first : List UInt8 × List UInt8) (rest : Headers) (key : List UInt8) :
    find (first :: rest) key =
      if strcasecmpZero first.1 key then some first.2 else find rest key :=
  OrderedMap.find_cons first rest key

theorem foldl_set_eq_assignAll (m fields : Headers) :
    fields.foldl (fun m field => set m field.1 field.2) m =
      OrderedMap.assignAll caseInsensitiveLess m fields :=
  List.foldl_ext _ _ _ fun m field _ => set_eq_assign m field.1 field.2

/-- The last line of a name is found. -/
theorem find_fields (fields : Headers) (key : List UInt8) :
    find (fields.foldl (fun m field => set m field.1 field.2) []) key =
      find fields.reverse key := by
  have hfind (m : Headers) : find m key = OrderedMap.find caseInsensitiveLess m key := rfl
  have hempty : OrderedMap.find caseInsensitiveLess ([] : Headers) key = none := rfl
  rw [hfind, hfind, foldl_set_eq_assignAll,
    OrderedMap.find_assignAll caseInsensitiveLess_weak List.Pairwise.nil, hempty, Option.or_none]

end Headers

/-! ## The round trip -/

section

variable {r : ResponseMessage}

theorem forall_fields_response {P : List UInt8 × List UInt8 → Prop} {websocket : Bool}
    (hheaders : ∀ header ∈ r.headers, P header)
    (hcookies : ∀ cookie ∈ r.cookies, P (chars "Set-Cookie", cookie))
    (hconnection : P (chars "connection", chars (if r.close then "close" else "keep-alive")))
    (hlength : P (chars "content-length", dumpNat r.body.length)) :
    ∀ field ∈ r.fields websocket, P field := by
  intro field hfield
  simp only [ResponseMessage.fields, List.mem_append, List.mem_filter, List.mem_map] at hfield
  obtain (⟨hheader, -⟩ | ⟨cookie, hcookie, rfl⟩) | hown | hown := hfield
  · exact hheaders field hheader
  · exact hcookies cookie hcookie
  · split at hown
    · cases hown
    · rw [List.mem_singleton.mp hown]
      exact hconnection
  · split at hown
    · rw [List.mem_singleton.mp hown]
      exact hlength
    · cases hown

theorem lines_response (h : r.Textual) (websocket : Bool) :
    ∀ field ∈ r.fields websocket, HttpClientParser.Line field := by
  apply forall_fields_response h.headers h.cookies
  · cases r.close <;> exact ⟨by decide +kernel, by decide +kernel, by decide +kernel⟩
  · have hname : ∀ c ∈ chars "content-length", HttpClientParser.isTokenChar c := by decide +kernel
    have hvalue (c : UInt8) (hc : c ∈ dumpNat r.body.length) :=
      digitChar ((dumpNat_spec r.body.length).2.1 c hc)
    exact ⟨hname, fun c hc => (hvalue c hc).line,
      fun c hc => (hvalue c (List.mem_of_mem_head? hc)).space⟩

/-- A header without a name is one of the response's own. -/
theorem named_response (h : ∀ header ∈ r.headers, header.1 ≠ []) (websocket : Bool) :
    ∀ field ∈ r.fields websocket, field.1 ≠ [] := by
  have hcookie : chars "Set-Cookie" ≠ [] := by decide
  have hconnection : chars "connection" ≠ [] := by decide
  have hlength : chars "content-length" ≠ [] := by decide
  exact forall_fields_response h (fun _ _ => hcookie) hconnection hlength

/-- The last line has a value, as long as there is one of those that `dump` adds. -/
theorem last_response (r : ResponseMessage) :
    ∃ last ∈ (r.fields false).getLast?, last.2 ≠ [] := by
  have hconnection : chars (if r.close then "close" else "keep-alive") ≠ [] := by
    cases r.close <;> decide
  unfold ResponseMessage.fields
  generalize chars (if r.close then "close" else "keep-alive") = value at hconnection ⊢
  by_cases hbody : r.body = []
  · exact ⟨(chars "connection", value), by simp [hbody], hconnection⟩
  · exact ⟨(chars "content-length", dumpNat r.body.length), by simp [hbody],
      (dumpNat_spec r.body.length).1⟩

/-- The machine over the head of a response, whatever is behind it. -/
theorem exec_response (h : r.Textual) (hnamed : ∀ header ∈ r.headers, header.1 ≠ [])
    {websocket : Bool} (hlast : ∃ last ∈ (r.fields websocket).getLast?, last.2 ≠ [])
    {rest buffer : List UInt8} (hbuffer : buffer = r.head websocket ++ rest)
    (hsize : buffer.length < 2 ^ 63) {a : HttpClientParser} (hcs : a.cs = 1) :
    ∃ (b : HttpClientParser) (calls : List ResponseCall),
      (HttpClientParser.scanner buffer).exec a 0 buffer = (b, (r.head websocket).length, calls) ∧
        b.cs = 120 ∧ b.bodyStart = (r.head websocket).length ∧
        ((∀ field ∈ r.fields websocket,
          field.1.map toLower ≠ HttpClientParser.encodingName) → b.chunked = a.chunked) ∧
        ∀ self : HttpResponseParser, self.data = {} →
          calls.foldlM (HttpResponseParser.callback buffer) self = some { self with
            data := { ({} : HttpResponse) with
              version := r.version, status := r.status, reason := r.reasonText
              headers :=
                (r.fields websocket).foldl (fun m field => m.set field.1 field.2) [] } } := by
  have hhead := r.length_head websocket
  have htext : buffer = (r.statusLine ++ (r.fields websocket).flatMap dumpHeader) ++
      13 :: 10 :: rest := by
    rw [hbuffer, ResponseMessage.head, chars_newline, List.append_assoc _ [13, 10]]
    rfl
  have hat : At buffer 0 (r.statusLine ++ (r.fields websocket).flatMap dumpHeader) := by
    rw [htext]
    exact at_prefix _ _
  have hlength := congrArg List.length htext
  rw [List.length_append, List.length_append] at hlength
  obtain ⟨hline, hfields⟩ := at_append.mp hat
  obtain ⟨b, hb, hbchunked, hfirst⟩ := HttpClientParser.fills_statusLine h hline (by omega) hcs
  obtain ⟨b', hb', hend, hkept, hsecond⟩ := HttpClientParser.fills_fields
    (d := { ({} : HttpResponse) with
      version := r.version, status := r.status, reason := r.reasonText })
    (lines_response h websocket) (named_response hnamed websocket) hfields (by omega)
    (by rw [hb]; decide)
  obtain ⟨last, hmem, hvalue⟩ := hlast
  obtain ⟨calls, hwalk, hfill⟩ := (hfirst.append hsecond).exists_calls
  obtain ⟨b'', hcs'', hbody'', hchunked'', hexec⟩ := HttpClientParser.exec_blankLine
    buffer (hend last hmem hvalue) rest
    (0 + (r.statusLine ++ (r.fields websocket).flatMap dumpHeader).length)
  have hrun := hwalk.exec_append (13 :: 10 :: rest)
  rw [hexec, List.append_nil, ← htext, Nat.zero_add, ← hhead] at hrun
  rw [Nat.zero_add, ← hhead] at hbody''
  refine ⟨b'', calls, hrun, hcs'', hbody'', fun hother => ?_, hfill⟩
  rw [hchunked'', hkept hother, hbchunked]

/-- `execute` of a new parser, in one call. -/
theorem execute_response (h : r.Textual) (hnamed : ∀ header ∈ r.headers, header.1 ≠ [])
    {websocket : Bool} (hlast : ∃ last ∈ (r.fields websocket).getLast?, last.2 ≠ [])
    {rest buffer : List UInt8} (hbuffer : buffer = r.head websocket ++ rest)
    (hsize : buffer.length < 2 ^ 63) (raw : HttpClientParser) :
    ∃ parser,
      (HttpResponseParser.new raw).execute buffer false = .ok (parser, (r.head websocket).length) ∧
        parser.isFinished = true ∧ parser.hasError = false ∧ r.Recovered websocket parser.data ∧
        ((∀ field ∈ r.fields websocket,
          field.1.map toLower ≠ HttpClientParser.encodingName) →
          parser.parser.chunked = false) := by
  obtain ⟨b, calls, hexec, hcs, hbody, hchunked, hfill⟩ :=
    exec_response h hnamed hlast hbuffer hsize
    (a := { raw.init with mark := 0, fieldLen := 0, fieldStart := 0 }) rfl
  have hhead := r.length_head websocket
  have hlength := congrArg List.length hbuffer
  rw [List.length_append] at hlength
  have hrun := HttpClientParser.execute_of_exec (by omega) (by omega) hexec (by omega)
  have hcalls := hfill { parser := b, data := {}, error := 0 } rfl
  let data : HttpResponse := { ({} : HttpResponse) with
    version := r.version, status := r.status, reason := r.reasonText
    headers := (r.fields websocket).foldl (fun m field => m.set field.1 field.2) [] }
  refine ⟨{ parser := b, data := data, error := 0 }, ?_, ?_, ?_,
    ⟨rfl, rfl, rfl, Headers.find_fields (r.fields websocket)⟩, hchunked⟩
  · simp only [HttpResponseParser.execute, HttpResponseParser.new,
      Bool.false_eq_true, if_false, hrun,
      hcalls]
    rfl
  · simp [HttpResponseParser.isFinished, HttpClientParser.isFinished, hcs]
  · simp [HttpResponseParser.hasError, HttpClientParser.hasError, hcs]

/-- A header without a name is an error. -/
theorem exec_nameless_response {fields : Headers}
    (hline : ∀ field ∈ fields, HttpClientParser.Line field)
    (hnameless : ∃ field ∈ fields, field.1 = []) (buffer : List UInt8) {a : HttpClientParser}
    (hcs : a.cs ∈ HttpClientParser.lineStart) (p : Nat) (rest : List UInt8) :
    ((HttpClientParser.scanner buffer).exec a p (fields.flatMap dumpHeader ++ rest)).1.cs = 0 := by
  induction fields generalizing p a with
  | nil => simp at hnameless
  | cons field fields ih =>
      obtain ⟨name, value⟩ := field
      obtain ⟨hfirst, hlines⟩ := List.forall_mem_cons.mp hline
      by_cases hname : name = []
      · subst hname
        have hnone : (HttpClientParser.scanner buffer).next a 58 = none :=
          HttpClientParser.markSteps.nameless a.cs hcs
        have hbytes : (([], value) :: fields).flatMap dumpHeader ++ rest =
            58 :: (32 :: (value ++ chars "\r\n" ++ (fields.flatMap dumpHeader ++ rest))) := by
          rw [List.flatMap_cons, dumpHeader, chars_separator]
          simp
        rw [hbytes, Scanner.exec_none hnone]
        rfl
      · obtain ⟨b, hwalk, hb, -⟩ := HttpClientParser.walks_header buffer hfirst hname hcs p
        rw [List.flatMap_cons, List.append_assoc, hwalk.exec_append]
        apply ih hlines _ hb
        obtain ⟨field, hfield, hempty⟩ := hnameless
        rcases List.mem_cons.mp hfield with rfl | hfield
        · exact absurd hempty hname
        · exact ⟨field, hfield, hempty⟩

/-- The assertion on the length of the data. -/
theorem checkedExecute_ok_iff {self parser : HttpResponseParser} {data : List UInt8}
    {chunck : Bool} {nparse : Nat} : self.checkedExecute data chunck = .ok (parser, nparse) ↔
      data.length < 2 ^ 31 ∧ self.execute data chunck = .ok (parser, nparse) := by
  unfold HttpResponseParser.checkedExecute
  by_cases hsize : data.length < 2 ^ 31
  · rw [if_pos (int32_natCast hsize).symm, and_iff_right hsize]
  · have hrange := int32_range data.length
    rw [if_neg (by omega), iff_false_right (fun h => hsize h.1)]
    rintro ⟨⟩

/-- A parser gets a response back from its text iff all headers have names and the length of the
text is an `int`. -/
theorem response_roundTrips (h : r.Textual) (raw : HttpClientParser) :
    r.RoundTrips raw ↔
      (∀ header ∈ r.headers, header.1 ≠ []) ∧ (r.dump false).length < 2 ^ 31 := by
  constructor
  · rintro ⟨parser, nparse, hchecked, _, herror, _⟩
    obtain ⟨hsize, hexec⟩ := checkedExecute_ok_iff.mp hchecked
    refine ⟨fun header hheader hname => ?_, hsize⟩
    have hparser := (HttpResponseParser.execute_ok hexec).1
    have htext : r.dump false = r.statusLine ++
        ((r.fields false).flatMap dumpHeader ++ (chars "\r\n" ++ r.body)) := by
      rw [r.dump_eq_head, ResponseMessage.head]
      simp only [List.append_assoc]
    have hat : At (r.dump false) 0 r.statusLine := by
      rw [htext]
      exact at_prefix _ _
    have hlength := congrArg List.length htext
    rw [List.length_append] at hlength
    obtain ⟨b, hb, _, hfills⟩ := HttpClientParser.fills_statusLine
      (a := { raw.init with mark := 0, fieldLen := 0, fieldStart := 0 }) h hat (by omega) rfl
    obtain ⟨calls, hwalk, _⟩ := hfills.exists_calls
    have hfield : header ∈ r.fields false := by
      have hother : strcasecmpZero header.1 (chars "connection") = false := by
        rw [hname]
        decide
      simp [ResponseMessage.fields, hheader, hother]
    have hfails := exec_nameless_response (lines_response h false) ⟨header, hfield, hname⟩
      (r.dump false) (a := b) (by rw [hb]; decide) (0 + r.statusLine.length)
      (chars "\r\n" ++ r.body)
    have hrun := hwalk.exec_append ((r.fields false).flatMap dumpHeader ++ (chars "\r\n" ++ r.body))
    rw [← htext] at hrun
    have hcs : parser.parser.cs = 0 := by
      rw [hparser, if_neg Bool.false_ne_true, HttpResponseParser.new, HttpClientParser.execute_fst,
        hrun]
      exact hfails
    simp [HttpResponseParser.hasError, HttpClientParser.hasError, hcs] at herror
  · rintro ⟨hnamed, hsize⟩
    obtain ⟨parser, hexec, hfinished, herror, hrecovered, _⟩ :=
      execute_response h hnamed (last_response r) (r.dump_eq_head false) (by omega) raw
    have hchecked := checkedExecute_ok_iff.mpr ⟨hsize, hexec⟩
    have hdrop : (r.dump false).drop (r.head false).length = r.body := by
      rw [r.dump_eq_head, List.drop_left]
    exact ⟨parser, _, hchecked, hfinished, herror, hdrop, hrecovered⟩

end

/-- Without a reason, with a length of the caller's and two cookies. -/
theorem response_roundTrips_two_cookies :
    let r : ResponseMessage :=
      { status := -1, version := 0x10, close := false, body := chars "xyz"
        headers := [(chars "Connection", chars "Upgrade"), (chars "Content-Length", [])]
        cookies := [chars "a=1", chars "b=2;path=/"] }
    r.RoundTrips .fresh := by
  intro r
  have htext : r.Textual := by
    have hname : ∀ header ∈ r.headers, ∀ c ∈ header.1, HttpClientParser.isTokenChar c := by
      decide +kernel
    have hvalue : ∀ header ∈ r.headers, ∀ c ∈ header.2, HttpClientParser.isLineChar c := by
      decide +kernel
    have hstart : ∀ header ∈ r.headers, ∀ c ∈ header.2.head?, isSpace c = false := by decide +kernel
    have hcookie : ∀ c ∈ chars "Set-Cookie", HttpClientParser.isTokenChar c := by decide +kernel
    have hcookies : ∀ cookie ∈ r.cookies, (∀ c ∈ cookie, HttpClientParser.isLineChar c) ∧
        ∀ c ∈ cookie.head?, isSpace c = false := by decide +kernel
    refine ⟨.inl rfl, by decide, by simp [r], fun header hheader => ?_, fun cookie hmem => ?_⟩
    · exact ⟨hname header hheader, hvalue header hheader, hstart header hheader⟩
    · exact ⟨hcookie, (hcookies cookie hmem).1, (hcookies cookie hmem).2⟩
  exact (response_roundTrips htext .fresh).mpr (by decide +kernel)

end Lyslg.Http
