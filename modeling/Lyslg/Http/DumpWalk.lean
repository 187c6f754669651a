import Lyslg.Http.Dump
import Lyslg.Support.Scanner
/-!
# The machine over the text of a request

`Fills` goes over a stretch of a head and takes a request along: the callbacks on the way
fill it in.  There is one lemma for each part of the request line and one for a header line.
-/

namespace Lyslg.Http

open Http11 Support Support.Machine Support.Memory
open scoped ListMembers

/-- `http_parser_execute` as a scanner. -/
def HttpParser.scanner : Scanner UInt8 HttpParser Transition Call where
  next parser c := next parser.uriRelaxed parser.cs c
  follow p parser t := parser.follow p t
  ends t := .done ∈ t.actions
  fail parser := { parser with cs := 0 }

theorem HttpParser.exec_eq_scan (parser : HttpParser) (p : Nat) (bytes : List UInt8) :
    parser.exec p bytes = scanner.exec parser p bytes := by
  induction bytes generalizing parser p with
  | nil => rfl
  | cons c bytes ih =>
      cases hnext : next parser.uriRelaxed parser.cs c with
      | none => rw [exec_none hnext, Scanner.exec_none (m := scanner) hnext, scanner]
      | some t =>
          by_cases hdone : .done ∈ t.actions
          · rw [exec_done hnext hdone,
              Scanner.exec_ends (m := scanner) hnext (decide_eq_true hdone)]
            rfl
          · rw [exec_more hnext hdone,
              Scanner.exec_goes (m := scanner) hnext (decide_eq_false hdone),
              ih]
            rfl

/-- A parser that is fed for the first time, with data that pass the assertion. -/
theorem HttpRequestParser.checkedExecute_new (raw : HttpParser) {data : List UInt8}
    (hne : data ≠ []) (hsize : data.length < 2 ^ 31) :
    (HttpRequestParser.new raw).checkedExecute data =
      let run := HttpParser.scanner.exec raw.init 0 data
      if run.2.2.any Call.throws then none
      else some (⟨run.1, run.2.2.foldl (Call.fill data) {},
        run.2.2.foldl (fun e c => (c.refusal data).getD e) 0⟩, run.2.1) := by
  have hrun : raw.init.execute data = HttpParser.scanner.exec raw.init 0 data := by
    rw [execute_eq_exec hne, HttpParser.exec_eq_scan]
    rfl
  rw [checkedExecute, if_pos (int32_natCast hsize).symm, execute, new, hrun]
  simp only [foldlM_callback]
  by_cases hthrows : (HttpParser.scanner.exec raw.init 0 data).2.2.any Call.throws = true
  · rw [if_pos hthrows, if_pos hthrows]
    rfl
  · rw [if_neg hthrows, if_neg hthrows]
    rfl

/-! ## Single bytes -/

/-- The transition on a byte, whatever `uri_relaxed` is. -/
def Goes (cs : Nat) (c : UInt8) (target : Nat) (actions : List Action) : Prop :=
  ∀ relaxed, (next relaxed cs c).map (fun t => (t.target, t.actions)) = some (target, actions)

instance (cs : Nat) (c : UInt8) (target : Nat) (actions : List Action) :
    Decidable (Goes cs c target actions) :=
  inferInstanceAs (Decidable (∀ _, _))

section

variable {a : HttpParser} {c : UInt8} {target : Nat} {actions : List Action}

theorem Goes.exists_next (h : Goes a.cs c target actions) :
    ∃ t, HttpParser.scanner.next a c = some t ∧ t.actions = actions ∧
      ∀ p, a.follow p t = { a with cs := target }.actAll p actions := by
  obtain ⟨t, hnext, ht⟩ := Option.map_eq_some_iff.mp (h a.uriRelaxed)
  obtain ⟨htarget, hactions⟩ := Prod.mk.inj ht
  refine ⟨t, hnext, hactions, fun p => ?_⟩
  unfold HttpParser.follow
  rw [htarget, hactions]

theorem Goes.walks (h : Goes a.cs c target actions) (hgoes : .done ∉ actions) (p : Nat) :
    HttpParser.scanner.Walks p a [c] ({ a with cs := target }.actAll p actions).2
      ({ a with cs := target }.actAll p actions).1 := by
  obtain ⟨t, hnext, hactions, hfollow⟩ := h.exists_next
  refine .one hnext ?_ (hfollow p)
  rw [← hactions] at hgoes
  exact decide_eq_false hgoes

/-- Bytes that lead back to the state. -/
theorem walks_loop {bytes : List UInt8} (h : ∀ c ∈ bytes, Goes a.cs c a.cs []) (p : Nat) :
    HttpParser.scanner.Walks p a bytes [] a := by
  apply Scanner.Walks.loop
  intro c hc
  obtain ⟨t, hnext, hactions, hfollow⟩ := (h c hc).exists_next
  refine ⟨t, hnext, ?_, hfollow⟩
  simp [HttpParser.scanner, hactions]

/-- A transition without actions. -/
def quietStep (relaxed : Bool) (cs : Nat) (c : UInt8) : Option Nat :=
  (next relaxed cs c).bind fun t => if t.actions = [] then some t.target else none

/-- The machine goes over the bytes without actions. -/
def Quiet (cs : Nat) (bytes : List UInt8) (target : Nat) : Prop :=
  ∀ relaxed, bytes.foldlM (quietStep relaxed) cs = some target

instance (cs : Nat) (bytes : List UInt8) (target : Nat) : Decidable (Quiet cs bytes target) :=
  inferInstanceAs (Decidable (∀ _, _))

theorem Quiet.walks {bytes : List UInt8} (h : Quiet a.cs bytes target) (p : Nat) :
    HttpParser.scanner.Walks p a bytes [] { a with cs := target } := by
  have hfold := h a.uriRelaxed
  clear h
  induction bytes generalizing a p with
  | nil =>
      cases hfold
      exact .nil p a
  | cons c bytes ih =>
      rw [List.foldlM_cons, Option.bind_eq_bind, Option.bind_eq_some_iff] at hfold
      obtain ⟨cs, hstep, hrest⟩ := hfold
      obtain ⟨t, hnext, ht⟩ := Option.bind_eq_some_iff.mp hstep
      rw [Option.ite_none_right_eq_some, Option.some.injEq] at ht
      obtain ⟨hactions, rfl⟩ := ht
      have hfollow : a.follow p t = ({ a with cs := t.target }, []) := by
        rw [HttpParser.follow, hactions]
        rfl
      have hone : HttpParser.scanner.Walks p a [c] [] { a with cs := t.target } :=
        .one hnext (by simp [HttpParser.scanner, hactions]) hfollow
      exact hone.append (ih (p := p + 1) hrest)

end

/-! ### The text of a target -/

/-- The `sub_delims` of a URI. -/
def isSubDelim (c : UInt8) : Bool := c = 33 || c = 36 || (38 ≤ c && c ≤ 44) || c = 59 || c = 61

/-- `pchar`, but for its escapes; all bytes from 128 on belong to it. -/
def isPchar (c : UInt8) : Bool := isUnreserved c || isSubDelim c || c = 58 || c = 64 || 128 ≤ c

def isPathChar (c : UInt8) : Bool := isPchar c || c = 47

/-- The characters of a query and of a fragment. -/
def isQueryChar (c : UInt8) : Bool := isPchar c || c = 47 || c = 63

/-- Characters, and escapes of a `%` and two digits. -/
def isEncoded (plain : UInt8 → Bool) : List UInt8 → Bool
  | 37 :: x :: y :: rest => isXdigit x && isXdigit y && isEncoded plain rest
  | c :: rest => plain c && isEncoded plain rest
  | [] => true

/-- A path with one `/` at its start.  The machine reads what stands behind two as a host, which
may hold fewer characters. -/
def IsPath (path : List UInt8) : Prop :=
  ∃ rest, path = 47 :: rest ∧ rest.head? ≠ some 47 ∧ isEncoded isPathChar rest

/-- What fits the request line. -/
structure HttpRequest.LineText (r : HttpRequest) : Prop where
  method : ∀ c ∈ httpMethodToString r.method, 65 ≤ c ∧ c ≤ 90
  version : r.version = 0x10 ∨ r.version = 0x11
  path : IsPath r.path
  query : isEncoded isQueryChar r.query
  fragment : isEncoded isQueryChar r.fragment

theorem isEncoded_of_forall {plain : UInt8 → Bool} {text : List UInt8}
    (h : ∀ c ∈ text, c ≠ 37 ∧ plain c) : isEncoded plain text := by
  induction text with
  | nil => rfl
  | cons c rest ih =>
      obtain ⟨⟨hc, hplain⟩, hrest⟩ := List.forall_mem_cons.mp h
      rw [isEncoded.eq_2 _ _ _ fun _ _ _ hcons _ => hc hcons, hplain, ih hrest]
      rfl

/-- What an unreserved character belongs to. -/
theorem unreserved_chars (c : UInt8) :
    (isUnreserved c ∨ c = 47 → c ≠ 37 ∧ isPathChar c) ∧ (isParam c → c ≠ 37 ∧ isQueryChar c) := by
  revert c
  apply forall_byte
  decide +kernel

theorem HttpRequest.Textual.line {r : HttpRequest} (h : r.Textual) : r.LineText := by
  refine ⟨h.method, h.version, ?_, ?_, ?_⟩
  · obtain ⟨rest, hpath, hfirst, hrest⟩ := h.path
    exact ⟨rest, hpath, hfirst,
      isEncoded_of_forall fun c hc => (unreserved_chars c).1 (hrest c hc)⟩
  · exact isEncoded_of_forall fun c hc => (unreserved_chars c).2 (h.query c hc)
  · exact isEncoded_of_forall fun c hc => (unreserved_chars c).2 (h.fragment c hc)

/-! ### The bytes of each part -/

/-- The machine takes a text from `start`: `loop` is the state behind a character, `first` and
`second` are those inside an escape. -/
structure Takes (plain : UInt8 → Bool) (start loop first second : Nat) (actions : List Action) :
    Prop where
  opening : ∀ c, plain c → c ≠ 47 → Goes start c loop actions
  goes : ∀ c, plain c → Goes loop c loop []
  escape : Goes start 37 first actions ∧ Goes loop 37 first []
  digits : ∀ c, isXdigit c → Goes first c second [] ∧ Goes second c loop []

/-- The machine on the bytes of every part, in one check over all bytes. -/
theorem goes_parts (c : UInt8) :
    ((isPathChar c → c ≠ 47 → Goes 33 c 26 []) ∧ (isPathChar c → Goes 26 c 26 [])) ∧
    (isQueryChar c → (Goes 29 c 30 [.startQuery] ∧ Goes 30 c 30 []) ∧
      Goes 20 c 21 [.mark] ∧ Goes 21 c 21 []) ∧
    (isXdigit c → (Goes 27 c 28 [] ∧ Goes 28 c 26 []) ∧ (Goes 31 c 32 [] ∧ Goes 32 c 30 []) ∧
      Goes 22 c 23 [] ∧ Goes 23 c 21 []) ∧
    (isNameChar c → Goes 13 c 14 [.startField] ∧ Goes 14 c 14 []) ∧
    (isValueChar c → Goes 16 c 16 [] ∧ (c ≠ 32 → c ≠ 9 → Goes 15 c 16 [.startValue])) := by
  revert c
  apply forall_byte
  decide +kernel

theorem takes_path : Takes isPathChar 33 26 27 28 [] where
  opening c := (goes_parts c).1.1
  goes c := (goes_parts c).1.2
  escape := by decide
  digits c hc := ((goes_parts c).2.2.1 hc).1

theorem takes_query : Takes isQueryChar 29 30 31 32 [.startQuery] where
  opening c hc _ := ((goes_parts c).2.1 hc).1.1
  goes c hc := ((goes_parts c).2.1 hc).1.2
  escape := by decide
  digits c hc := ((goes_parts c).2.2.1 hc).2.1

theorem takes_fragment : Takes isQueryChar 20 21 22 23 [.mark] where
  opening c hc _ := ((goes_parts c).2.1 hc).2.1
  goes c hc := ((goes_parts c).2.1 hc).2.2
  escape := by decide
  digits c hc := ((goes_parts c).2.2.1 hc).2.2

section

variable {plain : UInt8 → Bool} {start loop first second : Nat} {actions : List Action}
  {a b : HttpParser} {text : List UInt8}

theorem Takes.walks_digits (h : Takes plain start loop first second actions) {x y : UInt8}
    (hx : isXdigit x) (hy : isXdigit y) (p : Nat) :
    HttpParser.scanner.Walks p { a with cs := first } [x, y] [] { a with cs := loop } := by
  have hone := Goes.walks (a := { a with cs := first }) (h.digits x hx).1 (by decide) p
  have htwo := Goes.walks (a := { a with cs := second }) (h.digits y hy).2 (by decide) (p + 1)
  exact hone.append htwo

/-- Texts lead back to the state behind a character. -/
theorem Takes.walks_loop (h : Takes plain start loop first second actions)
    (htext : isEncoded plain text) (p : Nat) :
    HttpParser.scanner.Walks p { a with cs := loop } text [] { a with cs := loop } := by
  fun_induction isEncoded plain text generalizing p with
  | case1 x y rest ih =>
      simp only [Bool.and_eq_true] at htext
      obtain ⟨⟨hx, hy⟩, hrest⟩ := htext
      have hmark := Goes.walks (a := { a with cs := loop }) h.escape.2 (by decide) p
      have hescape := hmark.append (h.walks_digits hx hy (p + 1))
      exact hescape.append (ih hrest (p + 3))
  | case2 c rest _ ih =>
      obtain ⟨hc, hrest⟩ := Bool.and_eq_true_iff.mp htext
      have hone := Goes.walks (a := { a with cs := loop }) (h.goes c hc) (by decide) p
      exact hone.append (ih hrest (p + 1))
  | case3 => exact .nil p _

/-- A text that is not empty, from its start on. -/
theorem Takes.walks (h : Takes plain start loop first second actions) (hdone : .done ∉ actions)
    (hne : text ≠ []) (htext : isEncoded plain text)
    (hslash : text.head? ≠ some 47 ∨ Goes start 47 loop actions) (hcs : a.cs = start) {p : Nat}
    (hact : ∀ cs, ({ a with cs := cs } : HttpParser).actAll p actions =
      ({ b with cs := cs }, [])) :
    HttpParser.scanner.Walks p a text [] { b with cs := loop } := by
  have hstart {c : UInt8} {target : Nat} (hgoes : Goes start c target actions) :
      HttpParser.scanner.Walks p a [c] [] { b with cs := target } := by
    rw [← hcs] at hgoes
    have hwalk := hgoes.walks hdone p
    rw [hact] at hwalk
    exact hwalk
  fun_cases isEncoded plain text with
  | case1 x y rest =>
      simp only [isEncoded, Bool.and_eq_true] at htext
      obtain ⟨⟨hx, hy⟩, hrest⟩ := htext
      have hescape := (hstart h.escape.1).append (h.walks_digits hx hy (p + 1))
      exact hescape.append (h.walks_loop hrest (p + 3))
  | case2 c rest hplain =>
      rw [isEncoded.eq_2 _ _ _ hplain] at htext
      obtain ⟨hc, hrest⟩ := Bool.and_eq_true_iff.mp htext
      have hgoes : Goes start c loop actions := by
        by_cases h47 : c = 47
        · subst h47
          exact hslash.resolve_left fun hother => hother rfl
        · exact h.opening c hc h47
      exact (hstart hgoes).append (h.walks_loop hrest (p + 1))
  | case3 => exact absurd rfl hne

end

theorem goes_name {c : UInt8} (hc : isNameChar c) :
    Goes 13 c 14 [.startField] ∧ Goes 14 c 14 [] :=
  (goes_parts c).2.2.2.1 hc

theorem goes_value {c : UInt8} (hc : isValueChar c) : Goes 16 c 16 [] :=
  ((goes_parts c).2.2.2.2 hc).1

theorem goes_first_value {c : UInt8} (hc : isValueChar c) (hspace : c ≠ 32) (htab : c ≠ 9) :
    Goes 15 c 16 [.startValue] :=
  ((goes_parts c).2.2.2.2 hc).2 hspace htab

/-! ## Stretches of a head -/

/-- The bytes stand at `p` in the head. -/
def At (head : List UInt8) (p : Nat) (bytes : List UInt8) : Prop :=
  slice head p bytes.length = bytes

/-- The machine goes over the bytes at `p`, and the callbacks on the head take the request
along. -/
structure Fills (head : List UInt8) (p : Nat) (bytes : List UInt8) (a b : HttpParser)
    (r r' : HttpRequest) : Prop where
  exists_calls : ∃ calls, HttpParser.scanner.Walks p a bytes calls b ∧
    (∀ c ∈ calls, c.throws = false ∧ c.refusal head = none) ∧ calls.foldl (Call.fill head) r = r'

section

variable {head bytes bytes' : List UInt8} {p : Nat} {a b b' : HttpParser} {r r' r'' : HttpRequest}

theorem at_append : At head p (bytes ++ bytes') ↔
    At head p bytes ∧ At head (p + bytes.length) bytes' := by
  unfold At
  rw [List.length_append, ← slice_append_slice]
  constructor
  · intro h
    have hfirst : (slice head p bytes.length).length = bytes.length := by
      have hlength := congrArg List.length h
      simp only [List.length_append, slice, List.length_take, List.length_drop] at hlength ⊢
      omega
    exact List.append_inj h hfirst
  · rintro ⟨h, h'⟩
    rw [h, h']

theorem at_prefix (bytes rest : List UInt8) : At (bytes ++ rest) 0 bytes := by
  rw [At, slice_append_left _ _ _ _ (Nat.zero_add _).le, slice_full]

theorem at_singleton {c : UInt8} : At head p [c] ↔ head[p]? = some c := by
  unfold At slice
  rw [List.length_singleton, List.take_one, List.head?_drop]
  cases head[p]? <;> simp

theorem Fills.append (h : Fills head p bytes a b r r')
    (h' : Fills head (p + bytes.length) bytes' b b' r' r'') :
    Fills head p (bytes ++ bytes') a b' r r'' := by
  obtain ⟨calls, hwalks, hfine, hfill⟩ := h.exists_calls
  obtain ⟨calls', hwalks', hfine', hfill'⟩ := h'.exists_calls
  refine ⟨calls ++ calls', hwalks.append hwalks', fun c hc => ?_, ?_⟩
  · rcases List.mem_append.mp hc with hc | hc
    · exact hfine c hc
    · exact hfine' c hc
  · rw [List.foldl_append, hfill, hfill']

/-- A stretch without callbacks. -/
theorem Fills.quiet (h : HttpParser.scanner.Walks p a bytes [] b) (r : HttpRequest) :
    Fills head p bytes a b r r :=
  ⟨[], h, fun _ hc => absurd hc List.not_mem_nil, rfl⟩

/-- A stretch without callbacks, and a byte that calls back with it, and perhaps with the
URI. -/
theorem Fills.element {c : UInt8} {target : Nat} {actions : List Action} {call : Call}
    {more : List Call} (h : HttpParser.scanner.Walks p a bytes [] b)
    (hgoes : Goes b.cs c target actions) (hdone : .done ∉ actions)
    (hact : { b with cs := target }.actAll (p + bytes.length) actions = (b', call :: more))
    (hmore : ∀ c ∈ more, c.action = .requestUri) (hthrows : call.throws = false)
    (hrefusal : call.refusal head = none) (hfill : call.fill head r = r') :
    Fills head p (bytes ++ [c]) a b' r r' := by
  have huri (c : Call) (hc : c.action = Element.requestUri.action) :
      (c.throws = false ∧ c.refusal head = none) ∧ ∀ r, c.fill head r = r := by
    obtain ⟨s, rfl⟩ := Call.exists_span hc
    exact ⟨⟨rfl, rfl⟩, fun r => rfl⟩
  have hwalk := hgoes.walks hdone (p + bytes.length)
  rw [hact] at hwalk
  refine ⟨call :: more, h.append hwalk, ?_, ?_⟩
  · rw [List.forall_mem_cons]
    exact ⟨⟨hthrows, hrefusal⟩, fun c hc => (huri c (hmore c hc)).1⟩
  · rw [List.foldl_cons, hfill]
    clear hact hwalk hfill
    induction more with
    | nil => rfl
    | cons c more ih =>
        obtain ⟨hc, hmore⟩ := List.forall_mem_cons.mp hmore
        rw [List.foldl_cons, (huri c hc).2, ih hmore]

end

/-! ### The request line -/

/-- The names in capitals. -/
theorem methods_walk : ∀ entry ∈ httpMethodMap, (∀ c ∈ entry.2, 65 ≤ c ∧ c ≤ 90) →
    entry.2 ≠ [] ∧ Goes 1 (entry.2.headD 0) 2 [.mark] ∧
      Quiet 2 entry.2.tail (173 + entry.2.length) ∧
      Goes (173 + entry.2.length) 32 3 [.requestMethod] := by
  decide +kernel

/-- `strncmp` takes no name for another one. -/
theorem methods_found : ∀ entry ∈ httpMethodMap,
    charsToHttpMethod entry.2 = entry.1 ∧ entry.1 ≠ .invalidMethod := by
  decide

section

variable {head : List UInt8} {p : Nat} {a b : HttpParser} {r : HttpRequest}

theorem fills_method {m : HttpMethod} {name : List UInt8} (hm : (m, name) ∈ httpMethodMap)
    (hupper : ∀ c ∈ name, 65 ≤ c ∧ c ≤ 90) (hat : At head 0 (name ++ [32])) (hcs : a.cs = 1) :
    Fills head 0 (name ++ [32]) a { a with cs := 3, mark := 0 } r { r with method := m } := by
  obtain ⟨hne, hfirst, hrest, hend⟩ := methods_walk _ hm hupper
  obtain ⟨hfound, hvalid⟩ := methods_found _ hm
  simp only at hne hfirst hrest hend hfound hvalid
  obtain ⟨c, rest, rfl⟩ := List.exists_cons_of_ne_nil hne
  have hfind : charsToHttpMethod (head.drop 0) = m := by
    obtain ⟨hname, hspace⟩ := at_append.mp hat
    have hget : head[(c :: rest).length]? = some 32 := by
      rw [Nat.zero_add] at hspace
      exact at_singleton.mp hspace
    have hprefix : head.take (c :: rest).length = c :: rest := hname
    rw [List.drop_zero, charsToHttpMethod_take hget, hprefix, hfound]
  have hwalk : HttpParser.scanner.Walks 0 a (c :: rest) []
      { a with cs := 173 + (c :: rest).length, mark := 0 } := by
    rw [← hcs] at hfirst
    have hstart := hfirst.walks (by decide) 0
    exact hstart.append (Quiet.walks (a := { a with cs := 2, mark := 0 }) hrest 1)
  have hact : ({ a with cs := 3, mark := 0 } : HttpParser).actAll (0 + (c :: rest).length)
      [.requestMethod] = ({ a with cs := 3, mark := 0 }, [.element .requestMethod 0
        (HttpParser.len 0 (0 + (c :: rest).length))]) := rfl
  refine Fills.element hwalk hend (by decide) hact (by simp) rfl ?_ ?_
  · rw [Call.refusal, hfind, if_neg hvalid]
  · rw [Call.fill, hfind, if_neg hvalid]

/-- What a callback gets that reads from a mark at `p` to the end of a text there. -/
theorem slice_len {text : List UInt8} (hat : At head p text) (hsize : p + text.length < 2 ^ 63) :
    HttpParser.len p (p + text.length) < 2 ^ 63 ∧
      slice head p (HttpParser.len p (p + text.length)) = text := by
  rw [HttpParser.len_eq (Nat.le_add_right _ _) (by omega), Nat.add_sub_cancel_left]
  exact ⟨by omega, hat⟩

theorem fills_path {path : List UInt8} (hpath : IsPath path) (hat : At head p path)
    (hsize : p + path.length < 2 ^ 63) {c : UInt8} {target : Nat} {more : List Action}
    (hmore : more = [] ∨ more = [.requestUri])
    (hgoes : Goes 33 c target (.requestPath :: more) ∧ Goes 26 c target (.requestPath :: more))
    (hcs : a.cs = 3) :
    Fills head p (path ++ [c]) a { a with cs := target, mark := p } r { r with path := path } := by
  obtain ⟨hlen, htext⟩ := slice_len hat hsize
  obtain ⟨cs, hwalk, hend⟩ : ∃ cs, HttpParser.scanner.Walks p a path []
      { a with cs := cs, mark := p } ∧ Goes cs c target (.requestPath :: more) := by
    obtain ⟨rest, rfl, hfirst, hrest⟩ := hpath
    have hslash : Goes a.cs 47 33 [.mark] := by
      rw [hcs]
      decide
    have hstart := hslash.walks (by decide) p
    by_cases hroot : rest = []
    · subst hroot
      exact ⟨33, hstart, hgoes.1⟩
    · have hsegments := takes_path.walks (a := { a with cs := 33, mark := p }) (by decide) hroot
        hrest (.inl hfirst) rfl (p := p + 1) fun cs => rfl
      exact ⟨26, hstart.append hsegments, hgoes.2⟩
  obtain ⟨extra, hact, hextra⟩ : ∃ extra, ({ a with cs := target, mark := p } : HttpParser).actAll
      (p + path.length) (.requestPath :: more) = ({ a with cs := target, mark := p },
        .element .requestPath p (HttpParser.len p (p + path.length)) :: extra) ∧
      ∀ c ∈ extra, c.action = .requestUri := by
    rcases hmore with rfl | rfl
    · exact ⟨[], rfl, by simp⟩
    · exact ⟨[_], rfl, by simp [Call.action, Element.action]⟩
  refine Fills.element hwalk hend ?_ hact hextra ?_ rfl ?_
  · rcases hmore with rfl | rfl <;> decide
  · simp only [Call.throws, decide_eq_false_iff_not]
    omega
  · rw [Call.fill, htext]

theorem fills_query {query : List UInt8} (hne : query ≠ []) (hquery : isEncoded isQueryChar query)
    (hat : At head p query) (hsize : p + query.length < 2 ^ 63) {c : UInt8} {target : Nat}
    (hgoes : Goes 30 c target [.queryString, .requestUri]) (hcs : a.cs = 29) :
    Fills head p (query ++ [c]) a { a with cs := target, queryStart := p } r
      { r with query := query } := by
  obtain ⟨hlen, htext⟩ := slice_len hat hsize
  have hslash : Goes 29 47 30 [.startQuery] := by decide
  have hwalk : HttpParser.scanner.Walks p a query [] { a with cs := 30, queryStart := p } :=
    takes_query.walks (by decide) hne hquery (.inr hslash) hcs
      (b := { a with queryStart := p }) fun cs => rfl
  have hact : ({ a with cs := target, queryStart := p } : HttpParser).actAll (p + query.length)
      [.queryString, .requestUri] = ({ a with cs := target, queryStart := p },
        [.element .queryString p (HttpParser.len p (p + query.length)),
          .element .requestUri a.mark (HttpParser.len a.mark (p + query.length))]) := rfl
  refine Fills.element hwalk hgoes (by decide) hact ?_ ?_ rfl ?_
  · simp [Call.action, Element.action]
  · simp only [Call.throws, decide_eq_false_iff_not]
    omega
  · rw [Call.fill, htext]

theorem fills_fragment {fragment : List UInt8} (hne : fragment ≠ [])
    (hfragment : isEncoded isQueryChar fragment) (hat : At head p fragment)
    (hsize : p + fragment.length < 2 ^ 63) (hcs : a.cs = 20) :
    Fills head p (fragment ++ [32]) a { a with cs := 4, mark := p } r
      { r with fragment := fragment } := by
  obtain ⟨hlen, htext⟩ := slice_len hat hsize
  have hslash : Goes 20 47 21 [.mark] := by decide
  have hwalk : HttpParser.scanner.Walks p a fragment [] { a with cs := 21, mark := p } :=
    takes_fragment.walks (by decide) hne hfragment (.inr hslash) hcs
      (b := { a with mark := p }) fun cs => rfl
  have hgoes : Goes 21 32 4 [.fragment] := by decide
  have hact : ({ a with cs := 4, mark := p } : HttpParser).actAll (p + fragment.length)
      [.fragment] = ({ a with cs := 4, mark := p },
        [.element .fragment p (HttpParser.len p (p + fragment.length))]) := rfl
  refine Fills.element hwalk hgoes (by decide) hact (by simp) ?_ rfl ?_
  · simp only [Call.throws, decide_eq_false_iff_not]
    omega
  · rw [Call.fill, htext]

/-- `HTTP/` and the digits of the version. -/
def dumpVersion (version : Nat) : List UInt8 :=
  chars "HTTP/" ++ dumpNat (version >>> 4) ++ chars "." ++ dumpNat (version &&& 0x0f)

theorem dumpVersion_eq {version : Nat} (h : version = 0x10 ∨ version = 0x11) :
    (dumpVersion version).length = 8 ∧ Goes 4 72 5 [.mark] ∧
      Quiet 5 (dumpVersion version).tail 12 ∧ dumpVersion version =
        72 :: (dumpVersion version).tail ∧
      charsToVersion (dumpVersion version) 8 = some version := by
  rcases h with rfl | rfl <;> decide

theorem fills_version {version : Nat} (hversion : version = 0x10 ∨ version = 0x11)
    (hat : At head p (dumpVersion version)) (hsize : p + 8 < 2 ^ 63) (hcs : a.cs = 4) :
    Fills head p (dumpVersion version ++ [13]) a { a with cs := 17, mark := p } r
      { r with version := version } := by
  obtain ⟨hlength, hfirst, hrest, heq, hfound⟩ := dumpVersion_eq hversion
  have hfind : charsToVersion (head.drop p) (HttpParser.len p (p + (dumpVersion version).length))
      = some version := by
    rw [HttpParser.len_eq (Nat.le_add_right _ _) (by omega), Nat.add_sub_cancel_left, hlength,
      ← hfound]
    apply charsToVersion_take
    rw [At, hlength] at hat
    rw [List.take_of_length_le hlength.le]
    exact hat
  have hwalk : HttpParser.scanner.Walks p a (dumpVersion version) []
      { a with cs := 12, mark := p } := by
    rw [heq]
    rw [← hcs] at hfirst
    have hlater := Quiet.walks (a := { a with cs := 5, mark := p }) hrest (p + 1)
    exact (hfirst.walks (by decide) p).append hlater
  have hgoes : Goes 12 13 17 [.httpVersion] := by decide
  have hact : ({ a with cs := 17, mark := p } : HttpParser).actAll
      (p + (dumpVersion version).length) [.httpVersion] = ({ a with cs := 17, mark := p },
        [.element .httpVersion p (HttpParser.len p (p + (dumpVersion version).length))]) := rfl
  refine Fills.element hwalk hgoes (by decide) hact (by simp) rfl ?_ ?_
  · rw [Call.refusal, hfind]
    rfl
  · rw [Call.fill, hfind]
    rfl

/-! ### Header lines -/

theorem chars_separator : chars ": " = [58, 32] := by decide

theorem chars_newline : chars "\r\n" = [13, 10] := by decide

/-- The machine over the name and the value, and what it does at the end of the line. -/
theorem walks_field {name value : List UInt8} (h : HeaderLine (name, value)) (hne : name ≠ [])
    (hcs : a.cs = 13) (p : Nat) :
    let v := p + name.length + 2
    ∃ s actions b, HttpParser.scanner.Walks p a (name ++ chars ": " ++ value) [] s ∧
      Goes s.cs 13 17 actions ∧ .done ∉ actions ∧ b.cs = 17 ∧
      ({ s with cs := 17 } : HttpParser).actAll (v + value.length) actions =
        (b, [.httpField p (HttpParser.len p (p + name.length)) v
          (HttpParser.len v (v + value.length))]) := by
  intro v
  obtain ⟨c, rest, rfl⟩ := List.exists_cons_of_ne_nil hne
  obtain ⟨hc, hrest⟩ := List.forall_mem_cons.mp h.name
  have hfirst := (goes_name hc).1
  rw [← hcs] at hfirst
  have hloop := walks_loop (a := { a with cs := 14, fieldStart := p })
    (fun c hc => (goes_name (hrest c hc)).2) (p + 1)
  have hname := (hfirst.walks (by decide) p).append hloop
  have hcolon : Goes 14 58 15 [.writeField] := by decide
  have hblank : Goes 15 32 15 [.startValue] := by decide
  have hsep := (hcolon.walks (a := { a with cs := 14, fieldStart := p }) (by decide)
    (p + (c :: rest).length)).append (hblank.walks (by decide) (p + (c :: rest).length + 1))
  let keyed : HttpParser := { a with
    cs := 15
    fieldStart := p
    fieldLen := HttpParser.len p (p + (c :: rest).length)
    mark := p + (c :: rest).length + 1 }
  have hkey : HttpParser.scanner.Walks p a (c :: rest ++ chars ": ") [] keyed := by
    rw [chars_separator]
    exact hname.append hsep
  have hstart : p + (c :: rest ++ chars ": ").length = v := by
    rw [List.length_append, chars_separator, ← Nat.add_assoc]
    rfl
  cases value with
  | nil =>
      have hend : Goes 15 13 17 [.startValue, .writeValue] := by decide
      rw [List.append_nil]
      exact ⟨keyed, [.startValue, .writeValue], { keyed with cs := 17, mark := v }, hkey, hend,
        by decide, rfl, rfl⟩
  | cons x value =>
      obtain ⟨hx, hvalue⟩ := List.forall_mem_cons.mp h.value
      have hblanks := h.start
      simp only [List.head?_cons, ne_eq, Option.some.injEq] at hblanks
      have hend : Goes 16 13 17 [.writeValue] := by decide
      have hgoes := goes_first_value hx hblanks.1 hblanks.2
      have hvalued : HttpParser.scanner.Walks (p + (c :: rest ++ chars ": ").length) keyed
          (x :: value) [] { keyed with cs := 16, mark := v } := by
        rw [hstart]
        exact (hgoes.walks (a := keyed) (by decide) v).append
          (walks_loop (a := { keyed with cs := 16, mark := v })
            (fun c hc => goes_value (hvalue c hc)) (v + 1))
      exact ⟨{ keyed with cs := 16, mark := v }, [.writeValue], { keyed with cs := 17, mark := v },
        hkey.append hvalued, hend, by decide, rfl, rfl⟩

theorem walks_header {name value : List UInt8} (h : HeaderLine (name, value)) (hne : name ≠ [])
    (hcs : a.cs = 13) (p : Nat) :
    let v := p + name.length + 2
    ∃ b, b.cs = 13 ∧ HttpParser.scanner.Walks p a (dumpHeader (name, value))
      [.httpField p (HttpParser.len p (p + name.length)) v (HttpParser.len v (v + value.length))]
      b := by
  intro v
  obtain ⟨s, actions, b, hwalk, hgoes, hdone, hb, hact⟩ := walks_field h hne hcs p
  have hstop : p + (name ++ chars ": " ++ value).length = v + value.length := by
    simp only [List.length_append, chars_separator, List.length_cons, List.length_nil, v]
    omega
  have hreturn : HttpParser.scanner.Walks (p + (name ++ chars ": " ++ value).length) s [13]
      [.httpField p (HttpParser.len p (p + name.length)) v (HttpParser.len v (v + value.length))]
      b := by
    have hwalks := hgoes.walks hdone (v + value.length)
    rw [hact] at hwalks
    rw [hstop]
    exact hwalks
  have hnewline : Quiet b.cs [10] 13 := by
    rw [hb]
    decide
  have hline := hwalk.append (hreturn.append (hnewline.walks _))
  exact ⟨_, rfl, by rw [dumpHeader, chars_newline]; exact hline⟩

theorem fills_header {name value : List UInt8} (h : HeaderLine (name, value)) (hne : name ≠ [])
    (hat : At head p (dumpHeader (name, value)))
    (hsize : p + (dumpHeader (name, value)).length < 2 ^ 63) (hcs : a.cs = 13) :
    ∃ b, b.cs = 13 ∧ Fills head p (dumpHeader (name, value)) a b r (r.setHeader name value) := by
  obtain ⟨b, hb, hwalk⟩ := walks_header h hne hcs p
  have hlength : (dumpHeader (name, value)).length = name.length + 2 + value.length + 2 := by
    simp only [dumpHeader, List.length_append, chars_separator, chars_newline, List.length_cons,
      List.length_nil]
  rw [hlength] at hsize
  have hat : At head p (name ++ chars ": " ++ value ++ chars "\r\n") := hat
  obtain ⟨hline, _⟩ := at_append.mp hat
  obtain ⟨hkey, hval⟩ := at_append.mp hline
  obtain ⟨hname, _⟩ := at_append.mp hkey
  have hstart : p + (name ++ chars ": ").length = p + name.length + 2 := by
    rw [List.length_append, ← Nat.add_assoc]
    rfl
  rw [hstart] at hval
  obtain ⟨hnlen, hntext⟩ := slice_len hname (by omega)
  obtain ⟨hvlen, hvtext⟩ := slice_len hval (by omega)
  have hflen : HttpParser.len p (p + name.length) ≠ 0 := by
    rw [HttpParser.len_eq (Nat.le_add_right _ _) (by omega)]
    have := List.length_pos_iff.mpr hne
    omega
  refine ⟨b, hb, _, hwalk, fun c hc => ?_, ?_⟩
  · rw [List.mem_singleton.mp hc]
    refine ⟨?_, rfl⟩
    simp only [Call.throws, decide_eq_false_iff_not]
    omega
  · rw [List.foldl_cons, List.foldl_nil, Call.fill, if_neg hflen, hntext, hvtext]

end

end Lyslg.Http
