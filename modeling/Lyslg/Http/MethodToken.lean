import Lyslg.Http.SocketStart
/-!
# The method of a request

A head in one piece, with any text in the place of its method.  The machine takes one to
twenty capitals and digits for a method, and the callback looks for the first name that they
begin with.
-/

namespace Lyslg.Http

open Http11 Support Support.Machine Support.Memory
open scoped ListMembers

/-! ## Tokens -/

/-- `upper | digit` -/
def isMethodChar (c : UInt8) : Bool := (48 ≤ c && c ≤ 57) || (65 ≤ c && c ≤ 90)

/-- `Method` of the grammar. -/
structure MethodText (token : List UInt8) : Prop where
  ne_nil : token ≠ []
  length_le : token.length ≤ 20
  alphabet : ∀ c ∈ token, isMethodChar c

/-- The token goes on behind a name. -/
def ExtendsName (token : List UInt8) : Prop :=
  MethodText token ∧ ∃ entry ∈ httpMethodMap, entry.2 <+: token ∧ entry.2 ≠ token

/-! ## What is said of a token -/

/-- What stands behind the method and its space in a head. -/
def HeadTail (relaxed : Bool) (more : List UInt8) : Prop :=
  Accepted relaxed (chars "GET " ++ more)

/-- A parser that gets the head in one piece recognises the names of the map, each for its own
method, and nothing else; `raw` is what the memory of its `http_parser` held before. -/
def MethodExact (raw : HttpParser) (token more : List UInt8) : Prop :=
  ∃ parser nparse,
    (HttpRequestParser.new raw).checkedExecute (token ++ 32 :: more) = some (parser, nparse) ∧
      (∀ entry ∈ httpMethodMap,
        parser.isFinished = true ∧ parser.hasError = false ∧ parser.data.method = entry.1 ↔
          token = entry.2) ∧
      ((∀ entry ∈ httpMethodMap, token ≠ entry.2) → parser.hasError = true)

/-- A token for which the parser does so. -/
structure MethodRead (relaxed : Bool) (token more : List UInt8) : Prop where
  fits : (token ++ 32 :: more).length < 2 ^ 31
  /-- the hyphen is not in the grammar -/
  hyphen : token ≠ chars "M-SEARCH"
  extension : ¬ ExtendsName token
  socket : ¬ BeginsSocket relaxed token more

/-! ## The machine over a method -/

/-- The state behind `n` characters of a method. -/
def methodState (n : Nat) : Nat := if n = 1 then 2 else 173 + n

theorem methodState_row : ∀ n < 21, 1 ≤ n → transitions.lookup (methodState n) =
    some (one 32 3 [.requestMethod] ::
      if n < 20 then [on methodChar (methodState (n + 1))] else []) := by
  decide +kernel

theorem takes_methodChar (relaxed : Bool) (c : UInt8) (target : Nat) (actions : List Action) :
    (on methodChar target actions).takes relaxed c = isMethodChar c := by
  simp [Transition.takes, on, methodChar, isMethodChar, UInt8.le_iff_toNat_le]

theorem next_methodState {n : Nat} (hlow : 1 ≤ n) (hhigh : n ≤ 20) (relaxed : Bool) (c : UInt8) :
    next relaxed (methodState n) c =
      if c = 32 then some (one 32 3 [.requestMethod])
      else if isMethodChar c ∧ n < 20 then some (on methodChar (methodState (n + 1)))
      else none := by
  have hspace : c.toNat = 32 ↔ c = 32 := UInt8.toNat_inj (b := 32)
  unfold next
  rw [methodState_row n (by omega) hlow, Option.getD_some, List.find?_cons, takes_one]
  by_cases hc : c = 32
  · rw [if_pos hc, decide_eq_true (hspace.mpr hc)]
  · rw [if_neg hc, decide_eq_false (hspace.not.mpr hc)]
    by_cases hn : n < 20
    · simp [hn, takes_methodChar]
    · simp [hn]

theorem next_start (relaxed : Bool) (c : UInt8) :
    next relaxed 1 c =
      if isMethodChar c then some (on methodChar (methodState 1) [.mark])
      else if c = 60 then some (one 60 194 [.mark])
      else if c = 64 then some (one 64 198 [.mark]) else none := by
  have hrow : transitions.lookup 1 =
      some [on methodChar 2 [.mark], one 60 194 [.mark], one 64 198 [.mark]] := by decide
  have hxml : c.toNat = 60 ↔ c = 60 := UInt8.toNat_inj (b := 60)
  have hjson : c.toNat = 64 ↔ c = 64 := UInt8.toNat_inj (b := 64)
  unfold next
  rw [hrow, Option.getD_some, List.find?_cons, takes_methodChar, List.find?_cons, takes_one,
    List.find?_cons, takes_one, List.find?_nil]
  simp only [hxml, hjson]
  cases isMethodChar c with
  | true => rfl
  | false => by_cases hx : c = 60 <;> by_cases hj : c = 64 <;> simp [hx, hj]

section

variable {a : HttpParser} {token more : List UInt8}

theorem walks_methodState {n : Nat} (hlow : 1 ≤ n) (hhigh : n + token.length ≤ 20)
    (htoken : ∀ c ∈ token, isMethodChar c) (hcs : a.cs = methodState n) (p : Nat) :
    HttpParser.scanner.Walks p a token [] { a with cs := methodState (n + token.length) } := by
  induction token generalizing a n p with
  | nil =>
      rw [List.length_nil, Nat.add_zero, ← hcs]
      exact .nil p a
  | cons c token ih =>
      obtain ⟨hc, htoken⟩ := List.forall_mem_cons.mp htoken
      rw [List.length_cons] at hhigh
      have hspace : c ≠ 32 := by
        rintro rfl
        cases hc
      have hgoes : Goes a.cs c (methodState (n + 1)) [] := by
        intro relaxed
        rw [hcs, next_methodState hlow (by omega), if_neg hspace, if_pos ⟨hc, by omega⟩]
        rfl
      have hwalk :=
        ih (a := { a with cs := methodState (n + 1) }) (n := n + 1) (by omega) (by omega)
        htoken rfl (p + 1)
      rw [List.length_cons, (by omega : n + (token.length + 1) = n + 1 + token.length)]
      exact (hgoes.walks (by decide) p).append hwalk

/-- The machine stops before the space where the token is no method. -/
theorem exec_methodState (more : List UInt8) {n : Nat} (hlow : 1 ≤ n) (hhigh : n ≤ 20)
    (hspace : 32 ∉ token)
    (htoken : ¬ (n + token.length ≤ 20 ∧ ∀ c ∈ token, isMethodChar c)) (hcs : a.cs = methodState n)
    (p : Nat) : ∃ b n', HttpParser.scanner.exec a p (token ++ 32 :: more) =
      (b, n', []) ∧ b.cs = 0 := by
  induction token generalizing a n p with
  | nil => exact absurd ⟨hhigh, fun c hc => absurd hc List.not_mem_nil⟩ htoken
  | cons c token ih =>
      rw [List.mem_cons, not_or] at hspace
      obtain ⟨hc, hspace⟩ := hspace
      have hnext := next_methodState hlow hhigh a.uriRelaxed c
      rw [if_neg (Ne.symm hc), ← hcs] at hnext
      by_cases hgoes : isMethodChar c ∧ n < 20
      · rw [if_pos hgoes] at hnext
        have hrest : ¬ (n + 1 + token.length ≤ 20 ∧ ∀ c ∈ token, isMethodChar c) := by
          rintro ⟨hlength, hchars⟩
          refine htoken ⟨?_, List.forall_mem_cons.mpr ⟨hgoes.1, hchars⟩⟩
          rw [List.length_cons]
          omega
        obtain ⟨b, n', hexec, hb⟩ := ih (a := { a with cs := methodState (n + 1) }) (n := n + 1)
          (by omega) (by omega) hspace hrest rfl (p + 1)
        refine ⟨b, n', ?_, hb⟩
        rw [List.cons_append, Scanner.exec_goes (m := HttpParser.scanner) hnext rfl]
        exact hexec
      · rw [if_neg hgoes] at hnext
        exact ⟨{ a with cs := 0 }, p, Scanner.exec_none (m := HttpParser.scanner) hnext p _, rfl⟩

theorem walks_token (htoken : MethodText token) (hcs : a.cs = 1) :
    HttpParser.scanner.Walks 0 a (token ++ [32])
      [.element .requestMethod 0 (HttpParser.len 0 token.length)]
      { a with cs := 3, mark := 0 } := by
  obtain ⟨c, rest, rfl⟩ := List.exists_cons_of_ne_nil htoken.ne_nil
  obtain ⟨hc, hrest⟩ := List.forall_mem_cons.mp htoken.alphabet
  have hlength := htoken.length_le
  rw [List.length_cons, Nat.add_comm] at hlength
  have hfirst : Goes a.cs c (methodState 1) [.mark] := by
    intro relaxed
    rw [hcs, next_start, if_pos hc]
    rfl
  have hloop := walks_methodState (a := { a with cs := methodState 1, mark := 0 }) (Nat.le_refl 1)
    hlength hrest rfl 1
  have hend : Goes (methodState (1 + rest.length)) 32 3 [.requestMethod] := by
    intro relaxed
    rw [next_methodState (by omega) hlength, if_pos rfl]
    rfl
  have hlast := hend.walks
    (a := { a with cs := methodState (1 + rest.length), mark := 0 }) (by decide) (c :: rest).length
  have hwalk := (hfirst.walks (by decide) 0).append hloop
  exact (hwalk.append (by rw [Nat.zero_add]; exact hlast))

/-- The machine goes on behind the method. -/
theorem HeadTail.accepts {relaxed : Bool} (hmore : HeadTail relaxed more) (hcs : a.cs = 3)
    (hrelaxed : a.uriRelaxed = relaxed) (p : Nat) : ∃ calls, Accepts a p more calls := by
  have hget : MethodText (chars "GET") := ⟨by decide, by decide, by simp [chars, isMethodChar]⟩
  obtain ⟨hend, hall⟩ := hmore
  have hbytes : chars "GET " ++ more = chars "GET" ++ [32] ++ more := rfl
  rw [execute_eq_exec (by simp [hbytes]), HttpParser.exec_eq_scan, hbytes,
    (walks_token hget rfl).exec_append, Nat.zero_add, ← HttpParser.exec_eq_scan] at hend hall
  have hne : more ≠ [] := by
    rintro rfl
    cases hend
  exact (accepts_of_exec hne hend (hall.trans List.length_append)).move hcs hrelaxed p

/-- The machine finishes a head with a method, whatever the method is. -/
theorem exec_method (htoken : MethodText token) (hmore : HeadTail a.uriRelaxed more)
    (hcs : a.cs = 1) (hstart : a.fieldStart = 0) (hsize : (token ++ 32 :: more).length < 2 ^ 31) :
    ∃ b n calls, HttpParser.scanner.exec a 0 (token ++ 32 :: more) =
        (b, n, .element .requestMethod 0 (HttpParser.len 0 token.length) :: calls) ∧
      b.cs = 348 ∧ ∀ c ∈ calls, c.throws = false ∧ c.action ≠ .requestMethod ∧
        c.refusal (token ++ 32 :: more) = none := by
  have hat : (token ++ 32 :: more).drop (token.length + 1) = more := by
    rw [← List.drop_drop, List.drop_left]
    rfl
  have hwalk := walks_token htoken hcs
  generalize hs : ({ a with cs := 3, mark := 0 } : HttpParser) = s at hwalk
  have hthree : s.cs = 3 := by rw [← hs]
  have hmark : s.mark ≤ token.length + 1 := by rw [← hs]; exact Nat.zero_le _
  have hfield : s.fieldStart ≤ token.length + 1 := by rw [← hs, hstart]; exact Nat.zero_le _
  obtain ⟨calls, haccepts⟩ := hmore.accepts hthree (by rw [← hs]) (token.length + 1)
  obtain ⟨b, hb, hexec⟩ := haccepts.exec_eq
  have hwhole := hwalk.exec_append more
  rw [List.length_append, List.length_singleton, Nat.zero_add, ← HttpParser.exec_eq_scan s, hexec,
    List.append_assoc, List.singleton_append, List.singleton_append] at hwhole
  exact ⟨b, _, calls, hwhole, hb, haccepts.path_calls hthree hmark hfield hat hsize⟩

end

/-! ## What the parser makes of a token -/

section

variable {raw : HttpParser} {token more : List UInt8}

theorem hasError_eq_false {parser : HttpRequestParser} :
    parser.hasError = false ↔ parser.error = 0 ∧ parser.parser.cs ≠ 0 := by
  simp [HttpRequestParser.hasError, HttpParser.hasError]

theorem checkedExecute_method (htoken : MethodText token) (hmore : HeadTail raw.uriRelaxed more)
    (hsize : (token ++ 32 :: more).length < 2 ^ 31) :
    ∃ parser nparse, (HttpRequestParser.new raw).checkedExecute (token ++ 32 :: more) =
        some (parser, nparse) ∧ parser.isFinished = true ∧
      (parser.hasError = false ↔ charsToHttpMethod token ≠ .invalidMethod) ∧
      (charsToHttpMethod token ≠ .invalidMethod →
        parser.data.method = charsToHttpMethod token) := by
  have hfind : charsToHttpMethod ((token ++ 32 :: more).drop 0) = charsToHttpMethod token := by
    have hspace : (token ++ 32 :: more)[token.length]? = some 32 := by simp
    rw [List.drop_zero, charsToHttpMethod_take hspace, List.take_left]
  obtain ⟨b, n, calls, hexec, hb, hcalls⟩ := exec_method htoken (a := raw.init) hmore rfl rfl hsize
  have hthrows : calls.any Call.throws = false :=
    List.any_eq_false.mpr fun c hc => Bool.eq_false_iff.mp (hcalls c hc).1
  rw [HttpRequestParser.checkedExecute_new raw (by simp) hsize, hexec]
  simp only [List.any_cons, hthrows, Call.throws, Bool.or_false, Bool.false_eq_true, if_false]
  refine ⟨_, _, rfl, ?_, ?_, fun hvalid => ?_⟩
  · simp [HttpRequestParser.isFinished, HttpParser.isFinished, hb]
  · have herror := foldl_refusal_eq_zero (token ++ 32 :: more)
      (.element .requestMethod 0 (HttpParser.len 0 token.length) :: calls) 0
    rw [List.forall_mem_cons, and_iff_left fun c hc => (hcalls c hc).2.2, and_iff_right rfl]
      at herror
    rw [hasError_eq_false, herror, Call.refusal, hfind, ite_eq_right_iff, hb]
    simp
  · rw [List.foldl_cons, foldl_fill_method _ fun c hc => (hcalls c hc).2.1, Call.fill, hfind,
      if_neg hvalid]

/-- A run whose callbacks are fine. -/
theorem checkedExecute_quiet {b : HttpParser} {n : Nat} {calls : List Call}
    (hexec : HttpParser.scanner.exec raw.init 0 (token ++ 32 :: more) = (b, n, calls))
    (hcalls : ∀ c ∈ calls, c.throws = false ∧ c.refusal (token ++ 32 :: more) = none)
    (hsize : (token ++ 32 :: more).length < 2 ^ 31) :
    ∃ parser nparse, (HttpRequestParser.new raw).checkedExecute (token ++ 32 :: more) =
        some (parser, nparse) ∧ (parser.hasError = false ↔ b.cs ≠ 0) := by
  have hthrows : calls.any Call.throws = false :=
    List.any_eq_false.mpr fun c hc => Bool.eq_false_iff.mp (hcalls c hc).1
  rw [HttpRequestParser.checkedExecute_new raw (by simp) hsize, hexec]
  simp only [hthrows, Bool.false_eq_true, if_false]
  refine ⟨_, _, rfl, ?_⟩
  rw [hasError_eq_false, foldl_refusal_eq_zero]
  exact and_iff_right ⟨rfl, fun c hc => (hcalls c hc).2⟩

/-- The state behind the first byte of a message of the socket part, and the text of it. -/
theorem exec_socket {c : UInt8} {text : List UInt8} {target : Nat}
    (hnext : ∀ relaxed, next relaxed 1 c = some (one c.toNat target [.mark]))
    (hstage : stage target = .socket)
    (hsize : (c :: text ++ 32 :: more).length < 2 ^ 31) :
    ∃ b n calls, HttpParser.scanner.exec raw.init 0 (c :: text ++ 32 :: more) = (b, n, calls) ∧
      b.cs = haltState raw.uriRelaxed target (text ++ 32 :: more) ∧
      ∀ call ∈ calls, call.throws = false ∧ call.refusal (c :: text ++ 32 :: more) = none := by
  have hfirst : HttpParser.scanner.next raw.init c = some (one c.toNat target [.mark]) :=
    hnext raw.init.uriRelaxed
  have hexec := Scanner.exec_goes hfirst rfl 0 (text ++ 32 :: more)
  refine ⟨_, _, _, hexec, exec_cs _ _ _, ?_⟩
  have hrest : 1 + (text ++ 32 :: more).length < 2 ^ 63 := by
    simp only [List.length_cons, List.length_append] at hsize ⊢
    omega
  exact exec_socket_calls (c :: text ++ 32 :: more)
    (a := { raw.init with cs := target, mark := 0 }) hstage (Nat.zero_le 1) hrest

/-- The machine fails on a token that is no method, unless it begins a message of the socket
part. -/
theorem exec_other (htoken : ¬ MethodText token) (hspace : 32 ∉ token) (hne : more ≠ [])
    (hsize : (token ++ 32 :: more).length < 2 ^ 31) :
    ∃ b n calls, HttpParser.scanner.exec raw.init 0 (token ++ 32 :: more) = (b, n, calls) ∧
      (b.cs ≠ 0 ↔ BeginsSocket raw.uriRelaxed token more) ∧
      ∀ c ∈ calls, c.throws = false ∧ c.refusal (token ++ 32 :: more) = none := by
  have hnone : ∀ c : Call, c ∈ [] → c.throws = false ∧ c.refusal (token ++ 32 :: more) = none :=
    fun c hc => absurd hc List.not_mem_nil
  cases token with
  | nil =>
      have hnext : HttpParser.scanner.next raw.init 32 = none := next_start raw.init.uriRelaxed 32
      refine ⟨_, _, _, Scanner.exec_none hnext 0 more, iff_of_false (fun h => h rfl) ?_, hnone⟩
      rintro (⟨text, h, _⟩ | ⟨text, h, _⟩) <;> cases h
  | cons c text =>
      rw [List.mem_cons, not_or] at hspace
      obtain ⟨_, hspace⟩ := hspace
      have hfirst (relaxed : Bool) := next_start relaxed c
      by_cases hc : isMethodChar c = true
      · simp only [if_pos hc] at hfirst
        have hrest : ¬ (1 + text.length ≤ 20 ∧ ∀ c ∈ text, isMethodChar c) := by
          rintro ⟨hlength, hchars⟩
          refine htoken ⟨List.cons_ne_nil c text, ?_, List.forall_mem_cons.mpr ⟨hc, hchars⟩⟩
          rw [List.length_cons]
          omega
        obtain ⟨b, n, hexec, hb⟩ := exec_methodState more
          (a := { raw.init with cs := methodState 1, mark := 0 }) (Nat.le_refl 1) (by omega) hspace
          hrest rfl 1
        have hnext : HttpParser.scanner.next raw.init c =
            some (on methodChar (methodState 1) [.mark]) := hfirst raw.init.uriRelaxed
        have hwhole := Scanner.exec_goes hnext rfl 0 (text ++ 32 :: more)
        have hsecond : HttpParser.scanner.exec (HttpParser.scanner.follow 0 raw.init
            (on methodChar (methodState 1) [.mark])).1 (0 + 1) (text ++ 32 :: more) = (b, n, []) :=
          hexec
        rw [hsecond] at hwhole
        refine ⟨_, _, _, hwhole, iff_of_false (fun h => h hb) ?_, hnone⟩
        rintro (⟨text, h, _⟩ | ⟨text, h, _⟩) <;> cases h <;> cases hc
      · simp only [if_neg hc] at hfirst
        by_cases hxml : c = 60
        · subst hxml
          obtain ⟨b, n, calls, hexec, hb, hcalls⟩ := exec_socket hfirst (by decide) hsize
          refine ⟨b, n, calls, hexec, ?_, hcalls⟩
          rw [hb, haltState_xml]
          simp [BeginsSocket]
        · simp only [if_neg hxml] at hfirst
          by_cases hjson : c = 64
          · subst hjson
            obtain ⟨b, n, calls, hexec, hb, hcalls⟩ := exec_socket hfirst (by decide) hsize
            refine ⟨b, n, calls, hexec, ?_, hcalls⟩
            rw [hb, haltState_json hne hspace]
            simp [BeginsSocket]
          · simp only [if_neg hjson] at hfirst
            have hnext : HttpParser.scanner.next raw.init c = none := hfirst raw.init.uriRelaxed
            refine ⟨_, _, _, Scanner.exec_none hnext 0 _, iff_of_false (fun h => h rfl) ?_, hnone⟩
            simp [BeginsSocket, hxml, hjson]

theorem checkedExecute_other (raw : HttpParser) (htoken : ¬ MethodText token) (hspace : 32 ∉ token)
    (hne : more ≠ [])
    (hsize : (token ++ 32 :: more).length < 2 ^ 31) :
    ∃ parser nparse, (HttpRequestParser.new raw).checkedExecute (token ++ 32 :: more) =
        some (parser, nparse) ∧
      (parser.hasError = false ↔ BeginsSocket raw.uriRelaxed token more) := by
  obtain ⟨b, n, calls, hexec, hcs, hcalls⟩ := exec_other htoken hspace hne hsize
  obtain ⟨parser, nparse, hrun, herror⟩ := checkedExecute_quiet hexec hcalls hsize
  exact ⟨parser, nparse, hrun, herror.trans hcs⟩

end

/-! ## Names -/

theorem names_method : ∀ entry ∈ httpMethodMap, entry.2 ≠ chars "M-SEARCH" →
    entry.2 ≠ [] ∧ entry.2.length ≤ 20 ∧ ∀ c ∈ entry.2, isMethodChar c := by
  decide

theorem names_injective : ∀ entry ∈ httpMethodMap, ∀ entry' ∈ httpMethodMap,
    entry.1 = entry'.1 ∨ entry.2.isPrefixOf entry'.2 → entry = entry' := by
  decide +kernel

theorem names_no_socket {relaxed : Bool} {more : List UInt8} : ∀ entry ∈ httpMethodMap,
    ¬ BeginsSocket relaxed entry.2 more := by
  have hhead : ∀ entry ∈ httpMethodMap, entry.2.head? ≠ some 60 ∧ entry.2.head? ≠ some 64 := by
    decide
  rintro entry hentry (⟨text, h, _⟩ | ⟨text, h, _⟩)
  · exact (hhead entry hentry).1 (by rw [h]; rfl)
  · exact (hhead entry hentry).2 (by rw [h]; rfl)

section

variable {token : List UInt8}

theorem MethodText.of_name {entry : HttpMethod × List UInt8} (hentry : entry ∈ httpMethodMap)
    (hhyphen : entry.2 ≠ chars "M-SEARCH") : MethodText entry.2 := by
  obtain ⟨hne, hlength, hchars⟩ := names_method entry hentry hhyphen
  exact ⟨hne, hlength, hchars⟩

theorem MethodText.not_socket (h : MethodText token) (relaxed : Bool) (more : List UInt8) :
    ¬ BeginsSocket relaxed token more := by
  rintro (⟨text, rfl, _⟩ | ⟨text, rfl, _⟩)
  · cases h.alphabet 60 List.mem_cons_self
  · cases h.alphabet 64 List.mem_cons_self

/-- The callback finds a method for what begins with a name. -/
theorem charsToHttpMethod_valid :
    charsToHttpMethod token ≠ .invalidMethod ↔ ∃ entry ∈ httpMethodMap, entry.2 <+: token := by
  unfold charsToHttpMethod
  cases hfind : httpMethodMap.find? fun entry => entry.2.isPrefixOf token with
  | none =>
      rw [List.find?_eq_none] at hfind
      refine iff_of_false (fun h => h rfl) ?_
      rintro ⟨entry, hentry, hprefix⟩
      exact hfind entry hentry (List.isPrefixOf_iff_prefix.mpr hprefix)
  | some entry =>
      have hentry := List.mem_of_find?_eq_some hfind
      have hprefix := List.find?_some hfind
      exact iff_of_true (methods_found entry hentry).2
        ⟨entry, hentry, List.isPrefixOf_iff_prefix.mp hprefix⟩

/-- Where no name is extended, the callback finds a method for its name only. -/
theorem charsToHttpMethod_eq_iff
    (hexact : ∀ entry ∈ httpMethodMap, entry.2 <+: token → entry.2 = token)
    {entry : HttpMethod × List UInt8} (hentry : entry ∈ httpMethodMap) :
    charsToHttpMethod token = entry.1 ↔ token = entry.2 := by
  constructor
  · intro h
    unfold charsToHttpMethod at h
    cases hfind : httpMethodMap.find? fun entry => entry.2.isPrefixOf token with
    | none =>
        rw [hfind] at h
        exact absurd h.symm (methods_found entry hentry).2
    | some entry' =>
        have hentry' := List.mem_of_find?_eq_some hfind
        have hprefix := List.find?_some hfind
        rw [hfind] at h
        rw [← names_injective entry' hentry' entry hentry (.inl h)]
        exact (hexact entry' hentry' (List.isPrefixOf_iff_prefix.mp hprefix)).symm
  · rintro rfl
    exact (methods_found entry hentry).1

end

/-! ## The method is recognised -/

theorem not_methodExact_of_long {raw : HttpParser} {token more : List UInt8}
    (hlong : 2 ^ 31 ≤ (token ++ 32 :: more).length) : ¬ MethodExact raw token more := by
  rintro ⟨parser, nparse, hrun, _⟩
  have hint := (int32_range (token ++ 32 :: more).length).2
  rw [HttpRequestParser.checkedExecute, if_neg (by omega)] at hrun
  cases hrun

theorem methodExact_of_method (raw : HttpParser) {token more : List UInt8}
    (htoken : MethodText token) (hmore : HeadTail raw.uriRelaxed more)
    (hsize : (token ++ 32 :: more).length < 2 ^ 31) :
    MethodExact raw token more ↔ ¬ ExtendsName token := by
  obtain ⟨parser, nparse, hrun, hfinished, herror, hmethod⟩ :=
    checkedExecute_method htoken hmore hsize
  constructor
  · rintro ⟨parser', nparse', hrun', _, hother⟩ ⟨_, entry, hentry, hprefix, hne⟩
    obtain ⟨rfl, rfl⟩ := Prod.mk.inj (Option.some.inj (hrun.symm.trans hrun'))
    have hnone : ∀ entry ∈ httpMethodMap, token ≠ entry.2 := by
      rintro entry' hentry' rfl
      have hsame := names_injective entry hentry entry' hentry'
        (.inr (List.isPrefixOf_iff_prefix.mpr hprefix))
      exact hne (by rw [hsame])
    have hvalid := herror.mpr (charsToHttpMethod_valid.mpr ⟨entry, hentry, hprefix⟩)
    rw [hother hnone] at hvalid
    cases hvalid
  · intro hextends
    have hexact : ∀ entry ∈ httpMethodMap, entry.2 <+: token → entry.2 = token :=
      fun entry hentry hprefix =>
        by_contra fun hne => hextends ⟨htoken, entry, hentry, hprefix, hne⟩
    refine ⟨parser, nparse, hrun, fun entry hentry => ?_, fun hnone => ?_⟩
    · rw [← charsToHttpMethod_eq_iff hexact hentry, herror, and_iff_right hfinished]
      constructor
      · rintro ⟨hvalid, hdata⟩
        rw [← hmethod hvalid, hdata]
      · intro hfound
        have hvalid : charsToHttpMethod token ≠ .invalidMethod := by
          rw [hfound]
          exact (methods_found entry hentry).2
        exact ⟨hvalid, (hmethod hvalid).trans hfound⟩
    · by_contra hfine
      obtain ⟨entry, hentry, hprefix⟩ :=
        charsToHttpMethod_valid.mp (herror.mp (Bool.eq_false_iff.mpr hfine))
      exact hnone entry hentry (hexact entry hentry hprefix).symm

theorem methodExact_of_other {raw : HttpParser} {token more : List UInt8}
    (htoken : ¬ MethodText token) (hspace : 32 ∉ token) (hne : more ≠ [])
    (hsize : (token ++ 32 :: more).length < 2 ^ 31) :
    MethodExact raw token more ↔
      token ≠ chars "M-SEARCH" ∧ ¬ BeginsSocket raw.uriRelaxed token more := by
  obtain ⟨parser, nparse, hrun, herror⟩ := checkedExecute_other raw htoken hspace hne hsize
  constructor
  · rintro ⟨parser', nparse', hrun', hnames, hother⟩
    obtain ⟨rfl, rfl⟩ := Prod.mk.inj (Option.some.inj (hrun.symm.trans hrun'))
    constructor
    · intro htoken
      have hentry : (HttpMethod.msearch, token) ∈ httpMethodMap := by
        rw [htoken]
        decide
      obtain ⟨_, hfine, _⟩ := (hnames _ hentry).mpr rfl
      exact names_no_socket _ hentry (herror.mp hfine)
    · intro hsocket
      have hnone : ∀ entry ∈ httpMethodMap, token ≠ entry.2 := by
        rintro entry hentry rfl
        exact names_no_socket entry hentry hsocket
      have hfine := herror.mpr hsocket
      rw [hother hnone] at hfine
      cases hfine
  · rintro ⟨hhyphen, hsocket⟩
    have hfailed : parser.hasError = true := by
      by_contra hfine
      exact hsocket (herror.mp (Bool.eq_false_iff.mpr hfine))
    refine ⟨parser, nparse, hrun, fun entry hentry => ?_, fun _ => hfailed⟩
    rw [hfailed]
    refine iff_of_false (fun h => Bool.noConfusion h.2.1) ?_
    rintro rfl
    exact htoken (.of_name hentry hhyphen)

/-- The parser recognises exactly the names for all tokens but these. -/
theorem methodExact_iff (raw : HttpParser) {token more : List UInt8} (hspace : 32 ∉ token)
    (hmore : HeadTail raw.uriRelaxed more) :
    MethodExact raw token more ↔ MethodRead raw.uriRelaxed token more := by
  by_cases hsize : (token ++ 32 :: more).length < 2 ^ 31
  · by_cases htoken : MethodText token
    · rw [methodExact_of_method raw htoken hmore hsize]
      constructor
      · intro hextends
        refine ⟨hsize, ?_, hextends, htoken.not_socket _ _⟩
        rintro rfl
        cases htoken.alphabet 45 (by decide)
      · exact MethodRead.extension
    · have hne : more ≠ [] := by
        rintro rfl
        obtain ⟨calls, haccepts⟩ := hmore.accepts (a := ⟨3, 0, 0, 0, 0, raw.uriRelaxed⟩) rfl rfl 0
        exact haccepts.ne_nil rfl
      rw [methodExact_of_other htoken hspace hne hsize]
      exact ⟨fun h => ⟨hsize, h.1, fun hextends => htoken hextends.1, h.2⟩,
        fun h => ⟨h.hyphen, h.socket⟩⟩
  · exact iff_of_false (not_methodExact_of_long (by omega)) fun h => hsize h.fits

theorem methodExact_iff_purge :
    MethodExact ⟨0, 0, 0, 0, 0, false⟩ (chars "PURGE") (chars "/ HTTP/1.1\r\n\r\n") ↔
      MethodRead false (chars "PURGE") (chars "/ HTTP/1.1\r\n\r\n") :=
  methodExact_iff ⟨0, 0, 0, 0, 0, false⟩ (by decide) (by unfold HeadTail; decide +kernel)

/-- `GETX` is taken for `GET`. -/
theorem not_methodExact_getx :
    HeadTail false (chars "/ HTTP/1.1\r\n\r\n") ∧
      ¬ MethodExact ⟨0, 0, 0, 0, 0, false⟩ (chars "GETX") (chars "/ HTTP/1.1\r\n\r\n") := by
  have htail : HeadTail false (chars "/ HTTP/1.1\r\n\r\n") := by
    unfold HeadTail
    decide +kernel
  have htoken : MethodText (chars "GETX") := ⟨by decide, by decide, by decide⟩
  refine ⟨htail, fun h => ?_⟩
  have hexact := (methodExact_of_method ⟨0, 0, 0, 0, 0, false⟩ htoken htail (by decide)).mp h
  exact hexact ⟨htoken, (.get, chars "GET"), by decide, by decide, by decide⟩

end Lyslg.Http
