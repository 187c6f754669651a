import Lyslg.Http.DumpRoundTrip
import Lyslg.Http.ResponseDump
import Lyslg.Support.Lines
import Mathlib.Data.List.TakeWhile
/-!
# The headers that frame a printed message

`dump` prints a connection header by itself and a content-length one before a body.  A peer reads
the printed text line by line, with what a path, a reason, a header or a cookie may hold of line
ends, and takes the body behind the first blank line.  `Printed.framed_iff` says when it finds one
header of each kind: the setters must not have brought in another one.
-/

namespace Lyslg.Http

open Support

/-! ## What a peer reads -/

/-- The lines of a text. -/
abbrev crlfLines (text : List UInt8) : List (List UInt8) := Lines.lines 13 10 text

/-- The lines of the header block, and what is behind its blank line. -/
def readMessage (text : List UInt8) : Option (List (List UInt8) × List UInt8) :=
  Lines.readText 13 10 text

def isOws (c : UInt8) : Bool := c = 32 || c = 9

/-- A value without the white space around it. -/
def trimOws (value : List UInt8) : List UInt8 :=
  ((value.dropWhile isOws).reverse.dropWhile isOws).reverse

/-- The value of a header line whose name is `name`, but for its case. -/
def fieldNamed (name line : List UInt8) : Option (List UInt8) :=
  if 58 ∈ line ∧ (line.takeWhile (· ≠ 58)).map toLower = name then
    some (trimOws ((line.dropWhile (· ≠ 58)).drop 1))
  else none

/-- The values of the headers with a name. -/
def valuesOf (name : List UInt8) (ls : List (List UInt8)) : List (List UInt8) :=
  ls.filterMap (fieldNamed name)

/-- What the connection header says. -/
def closeText (close : Bool) : List UInt8 := chars (if close then "close" else "keep-alive")

/-- There is one connection header, which says whether to close. -/
def StatesClose (close : Bool) (ls : List (List UInt8)) : Prop :=
  ∃ value, valuesOf (chars "connection") ls = [value] ∧ value.map toLower = closeText close

/-- A peer that reads the text finds one connection header and, if there is a body, finds it behind
the blank line with one header that states its length. -/
def Framed (text : List UInt8) (close : Bool) (body : List UInt8) : Prop :=
  ∃ fields rest, readMessage text = some (fields, rest) ∧ StatesClose close fields ∧
    (body ≠ [] → rest = body ∧
      valuesOf (chars "content-length") fields = [dumpNat body.length])

/-! ## What is printed -/

/-- The parts of a printed message: its first line, what is printed before the connection header
and behind it. -/
structure Printed where
  start : List UInt8
  front : List (List UInt8)
  back : List (List UInt8)
  websocket : Bool
  close : Bool
  body : List UInt8

namespace Printed

def connectionLine (p : Printed) : List UInt8 := chars "connection: " ++ closeText p.close

def lengthLine (p : Printed) : List UInt8 := chars "content-length: " ++ dumpNat p.body.length

def ownConnection (p : Printed) : List (List UInt8) :=
  if p.websocket then [] else [p.connectionLine]

def ownLength (p : Printed) : List (List UInt8) := if p.body ≠ [] then [p.lengthLine] else []

def text (p : Printed) : List UInt8 :=
  Lines.printed 13 10 (p.start :: (p.front ++ p.ownConnection ++ p.back ++ p.ownLength))
    ++ 13 :: 10 :: p.body

/-- The lines before the connection header; only the first line of all is not a header. -/
def before (p : Printed) : List (List UInt8) :=
  (crlfLines p.start).tail ++ p.front.flatMap crlfLines

def after (p : Printed) : List (List UInt8) := p.back.flatMap crlfLines

/-- The lines up to a blank one. -/
def block (ls : List (List UInt8)) : List (List UInt8) := ls.takeWhile (· ≠ [])

/-- No other line of the block is a connection header.  A blank line before `dump`'s own one ends
the block, which then must have one. -/
def ConnectionAlone (p : Printed) : Prop :=
  if p.websocket then StatesClose p.close (block (p.before ++ p.after))
  else ([] ∈ p.before → StatesClose p.close (block p.before)) ∧
    ([] ∉ p.before → valuesOf (chars "connection") p.before = [] ∧
      valuesOf (chars "connection") (block p.after) = [])

/-- No line but `dump`'s own ones frames the message. -/
def FramesAlone (p : Printed) : Prop :=
  p.ConnectionAlone ∧ (p.body ≠ [] →
    [] ∉ p.before ++ p.after ∧ valuesOf (chars "content-length") (p.before ++ p.after) = [])

end Printed

/-- A header line, without its end. -/
def headerSegment (header : List UInt8 × List UInt8) : List UInt8 :=
  header.1 ++ chars ": " ++ header.2

/-- The headers of the map that `dump` prints. -/
def printedHeaders (headers : Headers) (websocket : Bool) : List (List UInt8) :=
  (headers.filter fun header =>
    !(!websocket && strcasecmpZero header.1 (chars "connection"))).map headerSegment

/-- The parts of a request. -/
def HttpRequest.printed (r : HttpRequest) (websocket : Bool) : Printed where
  start := httpMethodToString r.method ++ chars " " ++ r.path
    ++ (if r.query = [] then [] else chars "?") ++ r.query
    ++ (if r.fragment = [] then [] else chars "#") ++ r.fragment
    ++ chars " HTTP/" ++ dumpNat (r.version >>> 4) ++ chars "." ++ dumpNat (r.version &&& 0x0f)
  front := []
  back := printedHeaders r.headers websocket
  websocket := websocket
  close := r.close
  body := r.body

/-- The parts of a response. -/
def ResponseMessage.printed (r : ResponseMessage) (websocket : Bool) : Printed where
  start := chars "HTTP/" ++ dumpNat (r.version >>> 4) ++ chars "." ++ dumpNat (r.version &&& 0x0f)
    ++ chars " " ++ dumpNat (r.status % 2 ^ 32).toNat ++ chars " "
    ++ (if r.reason = [] then httpStatusToString r.status else r.reason)
  front := printedHeaders r.headers websocket ++ r.cookies.map (chars "Set-Cookie: " ++ ·)
  back := []
  websocket := websocket
  close := r.close
  body := r.body

/-! ## Lines and values -/

theorem valuesOf_append (name : List UInt8) (ls ms : List (List UInt8)) :
    valuesOf name (ls ++ ms) = valuesOf name ls ++ valuesOf name ms := List.filterMap_append

theorem valuesOf_cons_none {name line : List UInt8} (h : fieldNamed name line = none)
    (ls : List (List UInt8)) : valuesOf name (line :: ls) = valuesOf name ls :=
  List.filterMap_cons_none h

theorem valuesOf_cons_some {name line value : List UInt8} (h : fieldNamed name line = some value)
    (ls : List (List UInt8)) : valuesOf name (line :: ls) = value :: valuesOf name ls :=
  List.filterMap_cons_some h

theorem trimOws_eq {value : List UInt8} (h : ∀ c ∈ value, isOws c = false) :
    trimOws value = value := by
  have hdrop (s : List UInt8) (hs : ∀ c ∈ s, isOws c = false) : s.dropWhile isOws = s := by
    cases s with
    | nil => rfl
    | cons c s =>
        rw [List.dropWhile_cons_of_neg]
        rw [hs c List.mem_cons_self]
        decide
  rw [trimOws, hdrop value h, hdrop _ fun c hc => h c (List.mem_reverse.mp hc),
    List.reverse_reverse]

/-- The blank behind the colon does not count. -/
theorem trimOws_blank {value : List UInt8} (h : ∀ c ∈ value, isOws c = false) :
    trimOws (32 :: value) = value := by
  have hskip : (32 :: value).dropWhile isOws = value.dropWhile isOws :=
    List.dropWhile_cons_of_pos (by decide)
  rw [trimOws, hskip]
  exact trimOws_eq h

/-- The value of a line that is a name, a colon and a value. -/
theorem fieldNamed_line {name : List UInt8} (hname : 58 ∉ name) (value wanted : List UInt8) :
    fieldNamed wanted (name ++ 58 :: value) =
      if name.map toLower = wanted then some (trimOws value) else none := by
  have htake : (name ++ 58 :: value).takeWhile (· ≠ 58) = name := by
    rw [List.takeWhile_append_of_pos fun c hc => by
      rw [decide_eq_true_eq]
      rintro rfl
      exact hname hc]
    simp
  have hdrop : (name ++ 58 :: value).dropWhile (· ≠ 58) = 58 :: value := by
    rw [List.dropWhile_append_of_pos fun c hc => by
      rw [decide_eq_true_eq]
      rintro rfl
      exact hname hc]
    simp
  have hmem : 58 ∈ name ++ 58 :: value := List.mem_append_right _ List.mem_cons_self
  rw [fieldNamed, htake, hdrop, List.drop_succ_cons, List.drop_zero]
  simp only [hmem, true_and]

namespace Printed

theorem block_append (ls ms : List (List UInt8)) :
    block (ls ++ ms) = if [] ∈ ls then block ls else ls ++ block ms := by
  induction ls with
  | nil => rfl
  | cons l ls ih =>
      by_cases hl : l = []
      · subst hl
        simp [block]
      · unfold block at ih ⊢
        rw [List.cons_append, List.takeWhile_cons_of_pos (by simpa using hl), ih]
        have hmem : [] ∈ l :: ls ↔ [] ∈ ls := by
          rw [List.mem_cons]
          exact or_iff_right (Ne.symm hl)
        simp only [hmem]
        split_ifs
        · rw [List.takeWhile_cons_of_pos (by simpa using hl)]
        · rfl

theorem block_eq {ls : List (List UInt8)} (h : [] ∉ ls) : block ls = ls := by
  refine List.takeWhile_eq_self_iff.mpr fun l hl => ?_
  rw [decide_eq_true_eq]
  rintro rfl
  exact h hl

/-! ### The lines of `dump` -/

variable {p : Printed}

theorem connectionLine_isLine (p : Printed) : Lines.IsLine 13 10 p.connectionLine := by
  apply Lines.isLine_of_not_mem
  unfold connectionLine
  cases p.close <;> decide

theorem connection_connectionLine (p : Printed) :
    fieldNamed (chars "connection") p.connectionLine = some (closeText p.close) := by
  unfold connectionLine
  cases p.close <;> decide

theorem length_connectionLine (p : Printed) :
    fieldNamed (chars "content-length") p.connectionLine = none := by
  unfold connectionLine
  cases p.close <;> decide

theorem toLower_closeText (close : Bool) : (closeText close).map toLower = closeText close := by
  cases close <;> decide

theorem digits_plain (h : p.body ≠ []) :
    ∀ c ∈ dumpNat p.body.length, isOws c = false ∧ c ≠ 13 := by
  have hdigit : ∀ c : UInt8, 48 ≤ c ∧ c ≤ 57 → isOws c = false ∧ c ≠ 13 := by
    apply forall_byte
    decide +kernel
  intro c hc
  exact hdigit c (dumpNat_digits (List.length_pos_iff.mpr h) c hc)

theorem lengthLine_isLine (h : p.body ≠ []) : Lines.IsLine 13 10 p.lengthLine := by
  apply Lines.isLine_of_not_mem
  intro hmem
  rcases List.mem_append.mp hmem with hmem | hmem
  · revert hmem
    decide
  · exact (digits_plain h 13 hmem).2 rfl

theorem fieldNamed_lengthLine (h : p.body ≠ []) (wanted : List UInt8) :
    fieldNamed wanted p.lengthLine =
      if chars "content-length" = wanted then some (dumpNat p.body.length) else none := by
  have hlower : (chars "content-length").map toLower = chars "content-length" := by decide
  have hline : p.lengthLine = chars "content-length" ++ 58 :: 32 :: dumpNat p.body.length := rfl
  rw [hline, fieldNamed_line (by decide), trimOws_blank fun c hc => (digits_plain h c hc).1, hlower]

theorem ownConnection_lines (p : Printed) :
    p.ownConnection.flatMap crlfLines = p.ownConnection := by
  unfold ownConnection
  cases p.websocket with
  | true => rfl
  | false =>
      show crlfLines p.connectionLine ++ [] = [p.connectionLine]
      rw [List.append_nil, crlfLines, (connectionLine_isLine p).lines_eq (by decide)]

theorem ownLength_lines (p : Printed) : p.ownLength.flatMap crlfLines = p.ownLength := by
  unfold ownLength
  split_ifs with h
  · show crlfLines p.lengthLine ++ [] = [p.lengthLine]
    rw [List.append_nil, crlfLines, (lengthLine_isLine h).lines_eq (by decide)]
  · rfl

/-- A peer reads the lines up to the first blank one. -/
theorem readMessage_text (p : Printed) :
    let ls := p.before ++ (p.ownConnection ++ (p.after ++ p.ownLength))
    readMessage p.text = some (block ls, Lines.behind 13 10 ls p.body) := by
  intro ls
  have hread := Lines.readText_printed (by decide : (13 : UInt8) ≠ 10) p.start
    (p.front ++ p.ownConnection ++ p.back ++ p.ownLength) p.body
  have hls : (crlfLines p.start).tail ++
      (p.front ++ p.ownConnection ++ p.back ++ p.ownLength).flatMap crlfLines = ls := by
    simp only [List.flatMap_append, ownConnection_lines, ownLength_lines, List.append_assoc, ls,
      before, after]
  simp only [hls] at hread
  exact hread

theorem ownConnection_ne (p : Printed) : [] ∉ p.ownConnection := by
  unfold ownConnection
  cases p.websocket with
  | true => exact List.not_mem_nil
  | false => exact fun h => List.cons_ne_nil _ _ (List.mem_singleton.mp h).symm

theorem ownLength_ne (p : Printed) : [] ∉ p.ownLength := by
  unfold ownLength
  split_ifs
  · exact fun h => List.cons_ne_nil _ _ (List.mem_singleton.mp h).symm
  · exact List.not_mem_nil

theorem connection_ownLength (p : Printed) : valuesOf (chars "connection") p.ownLength = [] := by
  unfold ownLength
  split_ifs with h
  · exact valuesOf_cons_none (by rw [fieldNamed_lengthLine h, if_neg (by decide)]) []
  · rfl

theorem length_ownConnection (p : Printed) :
    valuesOf (chars "content-length") p.ownConnection = [] := by
  unfold ownConnection
  cases p.websocket with
  | true => rfl
  | false => exact valuesOf_cons_none (length_connectionLine p) []

/-! ### The two headers -/

/-- The length line does not matter for the connection headers of the block. -/
theorem connection_block_ownLength (p : Printed) (ls : List (List UInt8)) :
    valuesOf (chars "connection") (block (ls ++ p.ownLength)) =
      valuesOf (chars "connection") (block ls) := by
  rw [block_append]
  split_ifs with hblank
  · rfl
  · rw [block_eq hblank, block_eq (ownLength_ne p), valuesOf_append, connection_ownLength,
      List.append_nil]

/-- `dump`'s own connection header states what the others must not. -/
theorem statesClose_own {close : Bool} {ls : List (List UInt8)} {others more : List (List UInt8)}
    (h : valuesOf (chars "connection") ls = others ++ closeText close :: more) :
    StatesClose close ls ↔ others = [] ∧ more = [] := by
  unfold StatesClose
  rw [h]
  constructor
  · rintro ⟨value, hvalue, _⟩
    have hlength := congrArg List.length hvalue
    rw [List.length_append, List.length_cons, List.length_singleton] at hlength
    exact ⟨List.eq_nil_of_length_eq_zero (by omega), List.eq_nil_of_length_eq_zero (by omega)⟩
  · rintro ⟨rfl, rfl⟩
    exact ⟨_, rfl, toLower_closeText close⟩

theorem statesClose_congr {close : Bool} {ls ms : List (List UInt8)}
    (h : valuesOf (chars "connection") ls = valuesOf (chars "connection") ms) :
    StatesClose close ls ↔ StatesClose close ms := by
  unfold StatesClose
  rw [h]

theorem statesClose_iff (p : Printed) :
    StatesClose p.close (block (p.before ++ (p.ownConnection ++ (p.after ++ p.ownLength)))) ↔
      p.ConnectionAlone := by
  unfold ConnectionAlone ownConnection
  cases p.websocket with
  | true =>
      simp only [if_true, List.nil_append]
      rw [← List.append_assoc]
      exact statesClose_congr (connection_block_ownLength p _)
  | false =>
      simp only [Bool.false_eq_true, if_false, List.cons_append, List.nil_append]
      by_cases hblank : [] ∈ p.before
      · rw [block_append, if_pos hblank]
        exact ⟨fun h => ⟨fun _ => h, absurd hblank⟩, fun h => h.1 hblank⟩
      · rw [block_append, if_neg hblank]
        refine Iff.trans (statesClose_own ?_)
          ⟨fun h => ⟨fun hin => absurd hin hblank, fun _ => h⟩, fun h => h.2 hblank⟩
        have hcons : block (p.connectionLine :: (p.after ++ p.ownLength)) =
            p.connectionLine :: block (p.after ++ p.ownLength) :=
          List.takeWhile_cons_of_pos (decide_eq_true (List.cons_ne_nil _ _))
        rw [valuesOf_append, hcons, valuesOf_cons_some (connection_connectionLine p),
          connection_block_ownLength]

/-- The body is found with its length when no line is blank and none is another length. -/
theorem length_iff (h : p.body ≠ []) :
    let ls := p.before ++ (p.ownConnection ++ (p.after ++ p.ownLength))
    (Lines.behind 13 10 ls p.body = p.body ∧
        valuesOf (chars "content-length") (block ls) = [dumpNat p.body.length]) ↔
      [] ∉ p.before ++ p.after ∧
        valuesOf (chars "content-length") (p.before ++ p.after) = [] := by
  intro ls
  have hblank : [] ∉ ls ↔ [] ∉ p.before ++ p.after := by
    simp only [ls, List.mem_append, ownConnection_ne, ownLength_ne, false_or, or_false]
  have hown : valuesOf (chars "content-length") p.ownLength = [dumpNat p.body.length] := by
    rw [ownLength, if_pos h]
    exact valuesOf_cons_some (by rw [fieldNamed_lengthLine h, if_pos rfl]) []
  rw [Lines.behind_eq_iff, hblank]
  refine and_congr_right fun hno => ?_
  rw [block_eq (hblank.mpr hno)]
  simp only [ls, valuesOf_append, length_ownConnection, hown, List.nil_append]
  rw [← List.append_assoc]
  exact List.append_left_eq_self

/-- A printed message is framed exactly when no other line frames it. -/
theorem framed_iff (p : Printed) : Framed p.text p.close p.body ↔ p.FramesAlone := by
  have hread := readMessage_text p
  unfold Framed FramesAlone
  rw [← statesClose_iff p]
  constructor
  · rintro ⟨fields, rest, hmessage, hclose, hbody⟩
    obtain ⟨rfl, rfl⟩ := Prod.mk.inj (Option.some.inj (hread.symm.trans hmessage))
    exact ⟨hclose, fun h => (length_iff h).mp (hbody h)⟩
  · rintro ⟨hclose, hbody⟩
    exact ⟨_, _, hread, hclose, fun h => (length_iff h).mpr (hbody h)⟩

end Printed

/-! ## Requests and responses -/

/-- Header by header, or segment by segment. -/
theorem printed_headers (headers : Headers) (websocket : Bool) :
    Lines.printed 13 10 (printedHeaders headers websocket) =
      headers.flatMap fun header =>
        if !websocket && strcasecmpZero header.1 (chars "connection") then []
        else dumpHeader header := by
  induction headers with
  | nil => rfl
  | cons header headers ih =>
      rw [List.flatMap_cons, ← ih]
      unfold printedHeaders
      cases hown : !websocket && strcasecmpZero header.1 (chars "connection") with
      | true =>
          rw [List.filter_cons_of_neg (by simp [hown])]
          rfl
      | false =>
          rw [List.filter_cons_of_pos (by simp [hown]), List.map_cons, Lines.printed_cons]
          simp [headerSegment, dumpHeader, chars]

theorem printed_own (p : Printed) :
    Lines.printed 13 10 p.ownConnection =
      if p.websocket then [] else chars "connection: " ++ closeText p.close ++ chars "\r\n" := by
  unfold Printed.ownConnection Printed.connectionLine
  cases p.websocket with
  | true => rfl
  | false => cases p.close <;> rfl

theorem printed_length (p : Printed) :
    Lines.printed 13 10 p.ownLength ++ 13 :: 10 :: p.body =
      if p.body ≠ [] then
        chars "content-length: " ++ dumpNat p.body.length ++ chars "\r\n\r\n" ++ p.body
      else chars "\r\n" := by
  unfold Printed.ownLength
  split_ifs with h
  · have hend : chars "\r\n\r\n" = [13, 10, 13, 10] := by decide
    rw [Lines.printed_cons, Printed.lengthLine, hend]
    simp [Lines.printed]
  · rw [not_not.mp h]
    rfl

theorem Printed.text_eq (p : Printed) :
    p.text = p.start ++ chars "\r\n" ++ Lines.printed 13 10 p.front
      ++ (if p.websocket then [] else chars "connection: " ++ closeText p.close ++ chars "\r\n")
      ++ Lines.printed 13 10 p.back
      ++ (if p.body ≠ [] then
          chars "content-length: " ++ dumpNat p.body.length ++ chars "\r\n\r\n" ++ p.body
        else chars "\r\n") := by
  have hend : chars "\r\n" = [13, 10] := by decide
  rw [← printed_own, ← printed_length, Printed.text, Lines.printed_cons]
  simp only [Lines.printed_append, hend, List.append_assoc, List.cons_append, List.nil_append]

theorem HttpRequest.dump_eq (r : HttpRequest) (websocket : Bool) :
    r.dump websocket = (r.printed websocket).text := by
  rw [Printed.text_eq]
  simp only [HttpRequest.dump, HttpRequest.printed, printed_headers, closeText, Lines.printed_nil,
    List.append_nil]
  rfl

theorem ResponseMessage.dump_eq (r : ResponseMessage) (websocket : Bool) :
    r.dump websocket = (r.printed websocket).text := by
  have hcookies : Lines.printed 13 10 (r.cookies.map (chars "Set-Cookie: " ++ ·)) =
      r.cookies.flatMap fun cookie => chars "Set-Cookie: " ++ cookie ++ chars "\r\n" := by
    rw [Lines.printed, List.flatMap_map]
    rfl
  rw [Printed.text_eq]
  simp only [ResponseMessage.dump, ResponseMessage.printed, printed_headers, hcookies, closeText,
    Lines.printed_append, List.append_assoc]
  rfl

/-! ### Headers that fit a line -/

/-- The header does not end a line by itself, and its name does not end at a colon. -/
structure PlainHeader (header : List UInt8 × List UInt8) : Prop where
  name : 13 ∉ header.1 ∧ 58 ∉ header.1
  value : 13 ∉ header.2

theorem headerSegment_eq (header : List UInt8 × List UInt8) :
    headerSegment header = header.1 ++ 58 :: 32 :: header.2 := by
  have hcolon : chars ": " = [58, 32] := by decide
  rw [headerSegment, hcolon, List.append_assoc]
  rfl

theorem PlainHeader.isLine {header : List UInt8 × List UInt8} (h : PlainHeader header) :
    Lines.IsLine 13 10 (headerSegment header) := by
  apply Lines.isLine_of_not_mem
  rw [headerSegment_eq, List.mem_append, not_or]
  exact ⟨h.name.1, by simp [h.value]⟩

theorem flatMap_lines {segments : List (List UInt8)} (h : ∀ l ∈ segments, Lines.IsLine 13 10 l) :
    segments.flatMap crlfLines = segments := by
  induction segments with
  | nil => rfl
  | cons segment segments ih =>
      obtain ⟨hfirst, hmore⟩ := List.forall_mem_cons.mp h
      rw [List.flatMap_cons, ih hmore, crlfLines, hfirst.lines_eq (by decide)]
      rfl

/-- Which headers have a name that a peer looks for. -/
theorem valuesOf_headers {headers : Headers} (h : ∀ header ∈ headers, PlainHeader header)
    (name : List UInt8) :
    valuesOf name (headers.map headerSegment) = [] ↔
      ∀ header ∈ headers, header.1.map toLower ≠ name := by
  rw [valuesOf, List.filterMap_eq_nil_iff, List.forall_mem_map]
  refine forall₂_congr fun header hheader => ?_
  rw [headerSegment_eq, fieldNamed_line (h header hheader).name.2]
  split_ifs with hname
  · exact iff_of_false (by simp) (fun hne => hne hname)
  · exact iff_of_true rfl hname

/-- `strcasecmp` compares a name without NUL as a peer does. -/
theorem strcasecmpZero_connection {name wanted : List UInt8} (h : name.map toLower = wanted)
    (hnul : 0 ∉ wanted) :
    strcasecmpZero name (chars "connection") =
      (!lexLess wanted (chars "connection") && !lexLess (chars "connection") wanted) := by
  have hname : cStr name = name := by
    refine List.takeWhile_eq_self_iff.mpr fun c hc => ?_
    rw [decide_eq_true_eq]
    rintro rfl
    refine hnul ?_
    rw [← h]
    exact List.mem_map_of_mem (f := toLower) hc
  have hlower : (cStr (chars "connection")).map toLower = chars "connection" := by decide
  simp only [strcasecmpZero, caseInsensitiveLess, hname, h, hlower]

/-- A request of one-line texts, where `m_websocket` is not set, is framed as long as no header
states another length of its body. -/
theorem HttpRequest.framed_iff_of_plain {r : HttpRequest}
    (hstart : 13 ∉ (r.printed false).start) (hheaders : ∀ header ∈ r.headers, PlainHeader header) :
    Framed (r.dump false) r.close r.body ↔
      (r.body ≠ [] → ∀ header ∈ r.headers, header.1.map toLower ≠ chars "content-length") := by
  have hbefore : (r.printed false).before = [] := by
    rw [Printed.before, crlfLines, (Lines.isLine_of_not_mem hstart).lines_eq (by decide)]
    rfl
  have hplain : ∀ header ∈ r.headers.filter fun header =>
      !(!false && strcasecmpZero header.1 (chars "connection")), PlainHeader header :=
    fun header hheader => hheaders header (List.mem_of_mem_filter hheader)
  have hafter : (r.printed false).after = printedHeaders r.headers false := by
    refine flatMap_lines fun l hl => ?_
    obtain ⟨header, hheader, rfl⟩ := List.mem_map.mp hl
    exact (hplain header hheader).isLine
  have hblank : [] ∉ printedHeaders r.headers false := by
    intro hmem
    obtain ⟨header, _, heq⟩ := List.mem_map.mp hmem
    rw [headerSegment_eq] at heq
    simp at heq
  have hconnection : valuesOf (chars "connection") (printedHeaders r.headers false) = [] := by
    refine (valuesOf_headers hplain _).mpr fun header hheader hname => ?_
    have hkept := (List.mem_filter.mp hheader).2
    rw [strcasecmpZero_connection hname (by decide)] at hkept
    revert hkept
    decide
  have hlength : valuesOf (chars "content-length") (printedHeaders r.headers false) = [] ↔
      ∀ header ∈ r.headers, header.1.map toLower ≠ chars "content-length" := by
    rw [printedHeaders, valuesOf_headers hplain]
    constructor
    · intro h header hheader hname
      refine h header (List.mem_filter.mpr ⟨hheader, ?_⟩) hname
      rw [strcasecmpZero_connection hname (by decide)]
      decide
    · exact fun h header hheader => h header (List.mem_of_mem_filter hheader)
  rw [r.dump_eq]
  refine (r.printed false).framed_iff.trans ?_
  unfold Printed.FramesAlone Printed.ConnectionAlone
  rw [hbefore, hafter, List.nil_append, hlength, Printed.block_eq hblank]
  constructor
  · exact fun h hbody => (h.2 hbody).2
  · intro h
    exact ⟨⟨fun hin => absurd hin List.not_mem_nil, fun _ => ⟨rfl, hconnection⟩⟩,
      fun hbody => ⟨hblank, h hbody⟩⟩

/-- Whatever the setters have made of a message, its printed text is framed by one connection
header and one content-length header if and only if no other line of it frames it. -/
theorem dump_framed_iff (websocket : Bool) (version : UInt8) (close : Bool) :
    (∀ setters : List RequestSetter,
      let r := setters.foldl HttpRequest.apply (.new version close)
      Framed (r.dump websocket) r.close r.body ↔ (r.printed websocket).FramesAlone) ∧
    ∀ time2Str, ∀ setters : List ResponseSetter,
      let r := setters.foldl (ResponseMessage.apply time2Str) (.new version close)
      Framed (r.dump websocket) r.close r.body ↔ (r.printed websocket).FramesAlone := by
  constructor
  · intro setters r
    rw [r.dump_eq]
    exact (r.printed websocket).framed_iff
  · intro time2Str setters r
    rw [r.dump_eq]
    exact (r.printed websocket).framed_iff

/-- A request with a body and with a `Content-Length` header of its own prints both lengths. -/
theorem dump_prints_two_lengths :
    let r := [RequestSetter.setHeader (chars "Content-Length") (chars "0"),
      .setBody (chars "x")].foldl HttpRequest.apply (.new 0x11 true)
    r.dump false = chars "GET / HTTP/1.1\r\nconnection: close\r\n" ++
        chars "Content-Length: 0\r\ncontent-length: 1\r\n\r\nx" ∧
      ¬ Framed (r.dump false) r.close r.body := by
  intro r
  refine ⟨by decide +kernel, fun h => ?_⟩
  rw [r.dump_eq] at h
  have halone := (((r.printed false).framed_iff.mp h).2 (by decide)).2
  revert halone
  decide +kernel

end Lyslg.Http
