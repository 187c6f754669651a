import Lyslg.Http.ResponseParser
/-!
# What one call of `execute` does

The marks stay in the buffer, so the result of `httpclient_parser_execute` is never more than
the buffer holds.  A size line leaves its value, cut down to an `int`, in `content_len`.
-/

namespace Lyslg.Http

open HttpClient Support Support.Machine

variable {buffer : List UInt8}

/-! ## Invariants of a run of the machine -/

namespace HttpClientParser

/-- What every action keeps, for actions with `A`, and what holds of its calls. -/
theorem actAll_spec {Q : HttpClientParser → Prop} {E : ResponseCall → Prop}
    {A : HttpClient.Action → Prop} {p : Nat}
    (hact : ∀ parser a, A a → Q parser →
      Q (act buffer p parser a).1 ∧ ∀ call ∈ (act buffer p parser a).2, E call)
    {actions : List HttpClient.Action} (hA : ∀ a ∈ actions, A a) (parser : HttpClientParser)
    (h : Q parser) : Q (parser.actAll buffer p actions).1 ∧
      ∀ call ∈ (parser.actAll buffer p actions).2, E call := by
  induction actions generalizing parser with
  | nil => exact ⟨h, fun call hcall => absurd hcall List.not_mem_nil⟩
  | cons a actions ih =>
      obtain ⟨ha, hactions⟩ := List.forall_mem_cons.mp hA
      obtain ⟨hone, hcalls⟩ := hact parser a ha h
      obtain ⟨hrest, hlater⟩ := ih hactions _ hone
      exact ⟨hrest, List.forall_mem_append.mpr ⟨hcalls, hlater⟩⟩

theorem actAll_keeps {Q : HttpClientParser → Prop} {p : Nat}
    (hact : ∀ parser a, Q parser → Q (act buffer p parser a).1) (actions : List HttpClient.Action)
    (parser : HttpClientParser) (h : Q parser) : Q (parser.actAll buffer p actions).1 := by
  have hspec := actAll_spec (A := fun _ => True) (E := fun _ => True) (p := p)
    (fun parser a _ hQ => ⟨hact parser a hQ, fun _ _ => trivial⟩)
    (fun a (_ : a ∈ actions) => trivial) parser h
  exact hspec.1

theorem actAll_cs (p : Nat) (parser : HttpClientParser) (actions : List HttpClient.Action) :
    (parser.actAll buffer p actions).1.cs = parser.cs := by
  apply actAll_keeps (Q := fun later => later.cs = parser.cs) _ actions parser rfl
  intro later a h
  cases a <;> exact h

/-- The marks of a run over `n` bytes that is at position `p`. -/
structure Marked (n p : Nat) (parser : HttpClientParser) : Prop where
  mark : parser.mark ≤ p ∧ parser.mark < n
  fieldStart : parser.fieldStart ≤ p ∧ parser.fieldStart < n
  fieldLen : parser.fieldLen ≤ n

theorem marked_act {n p : Nat} (hn : n < 2 ^ 64) (hp : p < n) (parser : HttpClientParser)
    (a : HttpClient.Action) (h : Marked n p parser) : Marked n p (act buffer p parser a).1 := by
  obtain ⟨hmark, hstart, hlen⟩ := h
  cases a with
  | mark | startValue => exact ⟨⟨le_rfl, hp⟩, hstart, hlen⟩
  | startField => exact ⟨hmark, ⟨le_rfl, hp⟩, hlen⟩
  | writeField =>
      refine ⟨hmark, hstart, ?_⟩
      show subSize p parser.fieldStart ≤ n
      rw [subSize_of_le (by omega) hstart.1]
      omega
  | writeContentLen | writeConnectionClose | writeValue | reasonPhrase | statusCode | httpVersion
  | chunkSize | transChunked | done => exact ⟨hmark, hstart, hlen⟩

theorem marked_follow {n p : Nat} (hn : n < 2 ^ 64) (hp : p < n) {parser : HttpClientParser}
    (t : HttpClient.Transition) (h : Marked n p parser) :
    Marked n (p + 1) ((scanner buffer).follow p parser t).1 := by
  have hcs : Marked n p { parser with cs := t.target } := ⟨h.mark, h.fieldStart, h.fieldLen⟩
  have hacts : Marked n p ((scanner buffer).follow p parser t).1 :=
    actAll_keeps (marked_act hn hp) t.actions _ hcs
  exact ⟨⟨Nat.le_succ_of_le hacts.mark.1, hacts.mark.2⟩,
    ⟨Nat.le_succ_of_le hacts.fieldStart.1, hacts.fieldStart.2⟩, hacts.fieldLen⟩

/-- The result is the position at which the machine stops. -/
theorem execute_nread (hpos : 0 < buffer.length) (hlen : buffer.length < 2 ^ 64)
    (parser : HttpClientParser) : ∀ nparse ∈ (parser.execute buffer).2.1, nparse =
      ((scanner buffer).exec { parser with mark := 0, fieldLen := 0, fieldStart := 0 } 0
        buffer).2.1 := by
  have hstart : Marked buffer.length 0 { parser with mark := 0, fieldLen := 0, fieldStart := 0 } :=
    ⟨⟨le_rfl, hpos⟩, ⟨le_rfl, hpos⟩, Nat.zero_le _⟩
  have hend := (scanner buffer).exec_invariant (Q := Marked buffer.length) (n := buffer.length)
    (fun p s c t hp _ h => marked_follow hlen hp t h)
    (fun p s h => ⟨h.mark, h.fieldStart, h.fieldLen⟩) buffer (Nat.zero_add _).le hstart
  intro nparse h
  unfold execute at h
  simp only [hend.mark.2, hend.fieldStart.2, hend.fieldLen, decide_true, Bool.and_self, if_true]
    at h
  rw [Option.mem_def, Option.ite_none_right_eq_some, Option.some.injEq] at h
  exact h.2.symm

theorem execute_le (hpos : 0 < buffer.length) (hlen : buffer.length < 2 ^ 64)
    (parser : HttpClientParser) :
    ∀ nparse ∈ (parser.execute buffer).2.1, nparse ≤ buffer.length := by
  intro nparse h
  have hle := (scanner buffer).exec_le
    { parser with mark := 0, fieldLen := 0, fieldStart := 0 } 0 buffer
  rw [execute_nread hpos hlen parser nparse h]
  rwa [Nat.zero_add] at hle

/-- `content_len` is an `int`. -/
theorem contentLen_range (parser : HttpClientParser)
    (h : -2 ^ 31 ≤ parser.contentLen ∧ parser.contentLen < 2 ^ 31) :
    -2 ^ 31 ≤ (parser.execute buffer).1.contentLen ∧
      (parser.execute buffer).1.contentLen < 2 ^ 31 := by
  let Q : HttpClientParser → Prop := fun q => -2 ^ 31 ≤ q.contentLen ∧ q.contentLen < 2 ^ 31
  have hact (p : Nat) (q : HttpClientParser) (a : HttpClient.Action) (hq : Q q) :
      Q (act buffer p q a).1 := by
    cases a with
    | writeContentLen | chunkSize => exact int32_range _
    | mark | startValue | startField | writeField | writeConnectionClose | writeValue
    | reasonPhrase | statusCode | httpVersion | transChunked | done => exact hq
  exact (scanner buffer).exec_invariant (Q := fun _ => Q) (n := buffer.length)
    (fun p q c t _ _ hq => actAll_keeps (Q := Q) (hact p) t.actions { q with cs := t.target } hq)
    (fun _ _ hq => hq) buffer (Nat.zero_add _).le h

/-! ## Size lines -/

/-- The states behind the digits of a size line. -/
def behindSize : List Nat := [3, 4, 5, 6, 7, 120]

/-- The machine on a size line, in one check over all bytes. -/
theorem next_size (c : UInt8) :
    (isXdigit c → (HttpClient.next 1 c).map (fun t => (t.target, t.actions)) = some (2, [.mark])) ∧
    (∀ t ∈ HttpClient.next 2 c, (t.target, t.actions) ∈
      [(2, []), (3, [.chunkSize]), (4, [.chunkSize]), (120, [.chunkSize, .done])]) ∧
    (∀ cs ∈ behindSize, ∀ t ∈ HttpClient.next cs c,
      t.target ∈ behindSize ∧ .chunkSize ∉ t.actions ∧ .writeContentLen ∉ t.actions) := by
  revert c
  apply forall_byte
  decide +kernel

/-- The size line at the front of the buffer was taken. -/
def Sized (buffer : List UInt8) (parser : HttpClientParser) : Prop :=
  parser.contentLen = int32 (strtol buffer 16) ∧ parser.chunksDone = decide (parser.contentLen ≤ 0)

/-- A run over a size line: among the digits, or behind them with the size taken. -/
def OnSize (buffer : List UInt8) (parser : HttpClientParser) : Prop :=
  parser.cs = 0 ∨ (parser.cs = 2 ∧ parser.mark = 0) ∨ (parser.cs ∈ behindSize ∧ Sized buffer parser)

theorem sized_act {p : Nat} (parser : HttpClientParser) (a : HttpClient.Action)
    (ha : a ≠ .chunkSize ∧ a ≠ .writeContentLen) (h : Sized buffer parser) :
    Sized buffer (act buffer p parser a).1 := by
  cases a with
  | chunkSize => exact absurd rfl ha.1
  | writeContentLen => exact absurd rfl ha.2
  | mark | startValue | startField | writeField | writeConnectionClose | writeValue
  | reasonPhrase | statusCode | httpVersion | transChunked | done => exact h

theorem onSize_follow {p : Nat} {parser : HttpClientParser} {c : UInt8}
    {t : HttpClient.Transition} (hnext : HttpClient.next parser.cs c = some t)
    (h : OnSize buffer parser) : OnSize buffer ((scanner buffer).follow p parser t).1 := by
  obtain ⟨-, hdigits, hbehind⟩ := next_size c
  obtain hcs | ⟨hcs, hmark⟩ | ⟨hcs, hcontent⟩ := h
  · rw [hcs] at hnext
    cases hnext
  · rw [hcs] at hnext
    have hstep := hdigits t hnext
    have hsize : Sized buffer (act buffer p { parser with cs := t.target } .chunkSize).1 := by
      refine ⟨?_, rfl⟩
      show int32 (strtol (buffer.drop parser.mark) 16) = _
      rw [hmark, List.drop_zero]
    show OnSize buffer
      (({ parser with cs := t.target } : HttpClientParser).actAll buffer p t.actions).1
    simp only [List.mem_cons, Prod.mk.injEq, List.not_mem_nil, or_false] at hstep
    obtain ⟨htarget, hactions⟩ | ⟨htarget, hactions⟩ | ⟨htarget, hactions⟩ | ⟨htarget, hactions⟩ :=
      hstep
    · rw [htarget, hactions]
      exact .inr (.inl ⟨rfl, hmark⟩)
    all_goals
      rw [htarget] at hsize ⊢
      rw [hactions]
    · exact .inr (.inr ⟨(by decide : 3 ∈ behindSize), hsize⟩)
    · exact .inr (.inr ⟨(by decide : 4 ∈ behindSize), hsize⟩)
    · exact .inr (.inr ⟨(by decide : 120 ∈ behindSize), hsize⟩)
  · obtain ⟨htarget, hquiet⟩ := hbehind _ hcs t hnext
    have hspec := actAll_spec (Q := Sized buffer) (E := fun _ => True) (p := p)
      (fun parser a ha h => ⟨sized_act parser a ha h, fun _ _ => trivial⟩)
      (fun a (ha : a ∈ t.actions) => ⟨fun h => hquiet.1 (h ▸ ha), fun h => hquiet.2 (h ▸ ha)⟩)
      { parser with cs := t.target } hcontent
    have hgo : ((scanner buffer).follow p parser t).1.cs = t.target := actAll_cs ..
    refine .inr (.inr ⟨?_, hspec.1⟩)
    rw [hgo]
    exact htarget

/-- The scan of a size line, behind its first digit. -/
theorem execute_digit {d : UInt8} (hd : isXdigit d) (rest : List UInt8)
    (parser : HttpClientParser) (hcs : parser.cs = 1) : ∃ second : HttpClientParser,
      second.cs = 2 ∧ second.mark = 0 ∧
        (parser.execute (d :: rest)).1 = ((scanner (d :: rest)).exec second 1 rest).1 := by
  let first : HttpClientParser := { parser with mark := 0, fieldLen := 0, fieldStart := 0 }
  obtain ⟨t, hnext, ht⟩ := Option.map_eq_some_iff.mp ((next_size d).1 hd)
  obtain ⟨htarget, hactions⟩ := Prod.mk.inj ht
  have hgo : (scanner (d :: rest)).next first d = some t := by
    show HttpClient.next parser.cs d = some t
    rw [hcs]
    exact hnext
  have hsecond : ((scanner (d :: rest)).follow 0 first t).1 =
      { first with cs := 2, mark := 0 } := by
    show (({ first with cs := t.target } : HttpClientParser).actAll (d :: rest) 0 t.actions).1 = _
    rw [htarget, hactions]
    rfl
  refine ⟨{ first with cs := 2, mark := 0 }, rfl, rfl, ?_⟩
  show ((scanner (d :: rest)).exec first 0 (d :: rest)).1 = _
  rw [Scanner.exec_goes hgo (by simp [scanner, hactions]), hsecond]

/-- What an accepted size line leaves behind. -/
theorem sized_execute {d : UInt8} (hd : isXdigit d) {rest : List UInt8}
    {parser : HttpClientParser} (hcs : parser.cs = 1)
    (hend : (parser.execute (d :: rest)).1.cs = 120) :
    Sized (d :: rest) (parser.execute (d :: rest)).1 := by
  obtain ⟨second, htwo, hmark, hrun⟩ := execute_digit hd rest parser hcs
  rw [hrun] at hend ⊢
  have hsize := (scanner (d :: rest)).exec_invariant (Q := fun _ => OnSize (d :: rest))
    (n := 1 + rest.length) (fun _ _ _ _ _ hnext h => onSize_follow hnext h)
    (fun _ _ _ => .inl rfl) rest le_rfl (.inr (.inl ⟨htwo, hmark⟩))
  rw [OnSize, hend] at hsize
  obtain hzero | ⟨htwo, -⟩ | ⟨-, hsize⟩ := hsize
  · cases hzero
  · cases htwo
  · exact hsize

/-- There is no `0x` in a size line. -/
theorem no_prefix_size {d : UInt8} (hd : isXdigit d) {rest : List UInt8}
    {parser : HttpClientParser} (hcs : parser.cs = 1)
    (hend : (parser.execute (d :: rest)).1.cs = 120) : ∀ x ∈ rest.head?, x ≠ 120 ∧ x ≠ 88 := by
  obtain ⟨second, htwo, -, hrun⟩ := execute_digit hd rest parser hcs
  intro x hx
  obtain ⟨bytes, rfl⟩ : ∃ bytes, rest = x :: bytes := List.head?_eq_some_iff.mp hx
  by_contra hletter
  have hnext : (scanner (d :: x :: bytes)).next second x = none := by
    show HttpClient.next second.cs x = none
    rw [htwo]
    rw [not_and_or, not_not, not_not] at hletter
    obtain rfl | rfl := hletter
    · rfl
    · rfl
  rw [hrun, Scanner.exec_none hnext] at hend
  cases hend

end HttpClientParser

/-! ## The machine alone -/

/-- The state of the machine behind `bytes`, and what it leaves of them. -/
def HttpClient.scan (cs : Nat) : List UInt8 → Nat × List UInt8
  | [] => (cs, [])
  | c :: bytes =>
      match HttpClient.next cs c with
      | none => (0, c :: bytes)
      | some t => if .done ∈ t.actions then (t.target, bytes) else HttpClient.scan t.target bytes

namespace HttpClientParser

theorem exec_scan (buffer : List UInt8) (parser : HttpClientParser) (p : Nat) (bytes : List UInt8) :
    let run := (scanner buffer).exec parser p bytes
    run.1.cs = (HttpClient.scan parser.cs bytes).1 ∧
      run.2.1 + (HttpClient.scan parser.cs bytes).2.length = p + bytes.length ∧
      (HttpClient.scan parser.cs bytes).2 <:+ bytes := by
  intro run
  unfold run
  induction bytes generalizing parser p with
  | nil => exact ⟨rfl, rfl, List.suffix_rfl⟩
  | cons c bytes ih =>
      unfold HttpClient.scan
      cases hnext : HttpClient.next parser.cs c with
      | none =>
          have hstop : (scanner buffer).next parser c = none := hnext
          rw [Scanner.exec_none hstop]
          exact ⟨rfl, rfl, List.suffix_rfl⟩
      | some t =>
          have hgo : (scanner buffer).next parser c = some t := hnext
          have hcs : ((scanner buffer).follow p parser t).1.cs = t.target := actAll_cs ..
          simp only [List.length_cons]
          by_cases hdone : .done ∈ t.actions
          · rw [Scanner.exec_ends hgo (decide_eq_true hdone), if_pos hdone]
            refine ⟨hcs, ?_, List.suffix_cons c bytes⟩
            show p + 1 + bytes.length = p + (bytes.length + 1)
            omega
          · rw [Scanner.exec_goes hgo (decide_eq_false hdone), if_neg hdone, ← hcs]
            obtain ⟨hend, hleft, hsuffix⟩ := ih ((scanner buffer).follow p parser t).1 (p + 1)
            exact ⟨hend, by rw [hleft]; omega, hsuffix.trans (List.suffix_cons c bytes)⟩

end HttpClientParser

/-! ## Lines -/

/-- The states before the first blank of a head, and on a size line. -/
def lineStates : List Nat := List.range' 1 15

/-- Those on a size line, behind its first digit. -/
def sizeStates : List Nat := List.range' 2 6

/-- Those in the protocol name of a head. -/
def nameStates : List Nat := List.range' 8 8

def lineActions : List HttpClient.Action :=
  [.mark, .startField, .writeField, .startValue, .writeValue, .chunkSize, .done]

/-- What a transition on a line does: in any of the states, in those of a name, in those of a
size line, and at the start. -/
structure LineStep (c : UInt8) (cs : Nat) (t : HttpClient.Transition) : Prop where
  feed : c = 10 → t.target = 120 ∧ .done ∈ t.actions
  line : c ≠ 32 → c ≠ 10 → t.target ∈ lineStates ∧ .done ∉ t.actions
  quiet : c ≠ 32 → ∀ a ∈ t.actions, a ∈ lineActions
  name : c ≠ 32 → cs ∈ nameStates → t.target ∈ nameStates
  size : cs ∈ sizeStates → c ≠ 32 ∧ (t.target ∈ sizeStates ∨ .done ∈ t.actions)
  digit : cs = 1 → isXdigit c = true ∨ t.target ∈ nameStates

set_option synthInstance.maxSize 1000 in
instance (c : UInt8) (cs : Nat) (t : HttpClient.Transition) : Decidable (LineStep c cs t) :=
  decidable_of_iff (_ ∧ _ ∧ _ ∧ _ ∧ _ ∧ _)
    ⟨fun h => ⟨h.1, h.2.1, h.2.2.1, h.2.2.2.1, h.2.2.2.2.1, h.2.2.2.2.2⟩,
      fun h => ⟨h.feed, h.line, h.quiet, h.name, h.size, h.digit⟩⟩

/-- The machine on a line, in one check over all bytes. -/
theorem next_line (c : UInt8) :
    ∀ cs ∈ lineStates, ∀ t ∈ HttpClient.next cs c, LineStep c cs t := by
  revert c
  apply forall_byte
  decide +kernel

namespace HttpClient

variable {bytes : List UInt8} {cs : Nat}

/-- A line ends at its line feed, or is refused, or goes on. -/
theorem scan_line (hbytes : 32 ∉ bytes) (hcs : cs ∈ lineStates) :
    let end_ := scan cs bytes
    end_.1 = 0 ∨ (end_.1 ∈ lineStates ∧ end_.2 = [] ∧ 10 ∉ bytes) ∨
      (end_.1 = 120 ∧ ∃ line, 10 ∉ line ∧ bytes = line ++ 10 :: end_.2) := by
  induction bytes generalizing cs with
  | nil => exact .inr (.inl ⟨hcs, rfl, List.not_mem_nil⟩)
  | cons c bytes ih =>
      rw [List.mem_cons, not_or] at hbytes
      unfold scan
      cases hnext : next cs c with
      | none => exact .inl rfl
      | some t =>
          have hstep := next_line c cs hcs t hnext
          by_cases hc : c = 10
          · obtain ⟨htarget, hdone⟩ := hstep.feed hc
            simp only [if_pos hdone]
            exact .inr (.inr ⟨htarget, [], List.not_mem_nil, by rw [hc]; rfl⟩)
          · obtain ⟨htarget, hgoes⟩ := hstep.line (fun h => hbytes.1 h.symm) hc
            have hfeed {line : List UInt8} (h : 10 ∉ line) : 10 ∉ c :: line := by
              rw [List.mem_cons, not_or]
              exact ⟨fun h => hc h.symm, h⟩
            simp only [if_neg hgoes]
            obtain hzero | ⟨hstate, hnil, hline⟩ | ⟨hend, line, hline, hbytes⟩ :=
              ih hbytes.2 htarget
            · exact .inl hzero
            · exact .inr (.inl ⟨hstate, hnil, hfeed hline⟩)
            · exact .inr (.inr ⟨hend, c :: line, hfeed hline, congrArg (c :: ·) hbytes⟩)

theorem line_of_name (h : cs ∈ nameStates) : cs ∈ lineStates := by
  revert cs
  decide

theorem line_of_size (h : cs ∈ sizeStates) : cs ∈ lineStates := by
  revert cs
  decide

theorem goes_of_name {c : UInt8} {t : Transition} (hc : c ≠ 32) (hcs : cs ∈ lineStates)
    (hnext : next cs c = some t) (htarget : t.target ∈ nameStates) : .done ∉ t.actions := by
  have hstep := next_line c cs hcs t hnext
  by_cases hfeed : c = 10
  · rw [(hstep.feed hfeed).1] at htarget
    exact absurd htarget (by decide)
  · exact (hstep.line hc hfeed).2

/-- Without a blank no head is complete. -/
theorem scan_name (hbytes : 32 ∉ bytes) (hcs : cs ∈ nameStates) : (scan cs bytes).1 ≠ 120 := by
  induction bytes generalizing cs with
  | nil =>
      rintro rfl
      exact absurd hcs (by decide)
  | cons c bytes ih =>
      rw [List.mem_cons, not_or] at hbytes
      have hc : c ≠ 32 := fun h => hbytes.1 h.symm
      unfold scan
      cases hnext : next cs c with
      | none => exact Nat.zero_ne_add_one 119
      | some t =>
          have htarget := (next_line c cs (line_of_name hcs) t hnext).name hc hcs
          simp only [if_neg (goes_of_name hc (line_of_name hcs) hnext htarget)]
          exact ih hbytes.2 htarget

/-- What is complete without a blank begins with a digit. -/
theorem scan_digit (hbytes : 32 ∉ bytes) (hend : (scan 1 bytes).1 = 120) :
    bytes.head?.any isXdigit := by
  cases bytes with
  | nil => cases hend
  | cons c bytes =>
      rw [List.mem_cons, not_or] at hbytes
      have hc : c ≠ 32 := fun h => hbytes.1 h.symm
      unfold scan at hend
      cases hnext : next 1 c with
      | none =>
          rw [hnext] at hend
          cases hend
      | some t =>
          obtain hdigit | htarget := (next_line c 1 (by decide) t hnext).digit rfl
          · exact hdigit
          · rw [hnext] at hend
            simp only [if_neg (goes_of_name hc (by decide) hnext htarget)] at hend
            exact absurd hend (scan_name hbytes.2 htarget)

/-- There is no blank on a size line. -/
theorem scan_size (hcs : cs ∈ sizeStates) (hend : scan cs bytes = (120, [])) : 32 ∉ bytes := by
  induction bytes generalizing cs with
  | nil => exact List.not_mem_nil
  | cons c bytes ih =>
      unfold scan at hend
      cases hnext : next cs c with
      | none =>
          rw [hnext] at hend
          cases hend
      | some t =>
          obtain ⟨hc, hstep⟩ := (next_line c cs (line_of_size hcs) t hnext).size hcs
          rw [hnext] at hend
          rw [List.mem_cons, not_or]
          refine ⟨fun h => hc h.symm, ?_⟩
          by_cases hdone : .done ∈ t.actions
          · simp only [if_pos hdone] at hend
            rw [(Prod.mk.inj hend).2]
            exact List.not_mem_nil
          · simp only [if_neg hdone] at hend
            exact ih (hstep.resolve_right hdone) hend

end HttpClient

/-- A field with a name and a value that are short enough for a string. -/
def ResponseCall.Quiet : ResponseCall → Prop
  | .httpField _ flen _ vlen => flen < 2 ^ 63 ∧ vlen < 2 ^ 63
  | .reasonPhrase _ _ | .statusCode _ _ | .httpVersion _ _ => False

namespace HttpClientParser

/-- The calls on a line are quiet. -/
theorem quiet_act {n p : Nat} (hn : n < 2 ^ 63) (hp : p < n) (parser : HttpClientParser)
    (a : HttpClient.Action) (ha : a ∈ lineActions) (h : Marked n p parser ∧ parser.bodyStart ≤ n) :
    (Marked n p (act buffer p parser a).1 ∧ (act buffer p parser a).1.bodyStart ≤ n) ∧
      ∀ call ∈ (act buffer p parser a).2, call.Quiet := by
  obtain ⟨hmarked, hbody⟩ := h
  have hkept : Marked n p (act buffer p parser a).1 := marked_act (by omega) hp parser a hmarked
  cases a with
  | mark | startValue | startField | writeField | chunkSize =>
      exact ⟨⟨hkept, hbody⟩, fun call hcall => absurd hcall List.not_mem_nil⟩
  | done => exact ⟨⟨hkept, hp⟩, fun call hcall => absurd hcall List.not_mem_nil⟩
  | writeValue =>
      refine ⟨⟨hkept, hbody⟩, List.forall_mem_singleton.mpr ⟨?_, ?_⟩⟩
      · have hlen := hmarked.fieldLen
        omega
      · have hlen : subSize p parser.mark = p - parser.mark :=
          subSize_of_le (by omega) hmarked.mark.1
        show subSize p parser.mark < 2 ^ 63
        omega
  | writeContentLen | writeConnectionClose | reasonPhrase | statusCode | httpVersion
  | transChunked => exact absurd ha (by decide)

/-- A run over a line from its start. -/
theorem execute_quiet (hpos : 0 < buffer.length) (hlen : buffer.length < 2 ^ 63)
    (hbytes : 32 ∉ buffer) (parser : HttpClientParser) (hcs : parser.cs = 1)
    (hbody : parser.bodyStart = 0) :
    (∀ call ∈ (parser.execute buffer).2.2, call.Quiet) ∧ (parser.execute buffer).2.1.isSome := by
  let first : HttpClientParser := { parser with mark := 0, fieldLen := 0, fieldStart := 0 }
  let Q (p : Nat) (q : HttpClientParser) : Prop :=
    (Marked buffer.length p q ∧ q.bodyStart ≤ buffer.length) ∧
      (q.cs = 0 ∨ q.cs = 120 ∨ q.cs ∈ lineStates)
  have hstart : Q 0 first := by
    refine ⟨⟨⟨⟨le_rfl, hpos⟩, ⟨le_rfl, hpos⟩, Nat.zero_le _⟩, ?_⟩, .inr (.inr ?_)⟩
    · show parser.bodyStart ≤ buffer.length
      omega
    · show parser.cs ∈ lineStates
      rw [hcs]
      decide
  have hspec := (scanner buffer).exec_spec (Q := Q) (E := ResponseCall.Quiet) (L := (· ≠ 32))
    (n := buffer.length) ?step
    (fun p q h => ⟨⟨⟨h.1.1.mark, h.1.1.fieldStart, h.1.1.fieldLen⟩, h.1.2⟩,
      .inl rfl⟩) (fun c (hc : c ∈ buffer) h => hbytes (h ▸ hc)) (Nat.zero_add _).le hstart
  case step =>
    rintro p q c t hp hc hnext ⟨hkept, hcs⟩
    obtain hcs | hcs | hcs := hcs
    · have hnone : HttpClient.next q.cs c = none := by
        rw [hcs]
        rfl
      exact absurd hnext (by rw [show (scanner buffer).next q c = none from hnone]; simp)
    · have hnone : HttpClient.next q.cs c = none := by
        rw [hcs]
        rfl
      exact absurd hnext (by rw [show (scanner buffer).next q c = none from hnone]; simp)
    · have hstep := next_line c q.cs hcs t hnext
      have htarget : t.target = 120 ∨ t.target ∈ lineStates := by
        by_cases hfeed : c = 10
        · exact .inl (hstep.feed hfeed).1
        · exact .inr (hstep.line hc hfeed).1
      have hq : Marked buffer.length p { q with cs := t.target } :=
        ⟨hkept.1.mark, hkept.1.fieldStart, hkept.1.fieldLen⟩
      obtain ⟨⟨hmarked, hbody⟩, hcalls⟩ := actAll_spec (quiet_act hlen hp) (hstep.quiet hc)
        { q with cs := t.target } ⟨hq, hkept.2⟩
      have hgo : ((scanner buffer).follow p q t).1.cs = t.target := actAll_cs ..
      refine ⟨⟨⟨⟨?_, ?_, hmarked.fieldLen⟩, hbody⟩, ?_⟩, hcalls⟩
      · exact ⟨Nat.le_succ_of_le hmarked.mark.1, hmarked.mark.2⟩
      · exact ⟨Nat.le_succ_of_le hmarked.fieldStart.1, hmarked.fieldStart.2⟩
      · rw [hgo]
        exact .inr htarget
  obtain ⟨⟨⟨-, hend⟩, -⟩, hcalls⟩ := hspec
  refine ⟨hcalls, ?_⟩
  have hassert : (parser.execute buffer).1.bodyStart ≤ buffer.length := hend
  show Option.isSome (if (parser.execute buffer).1.bodyStart ≤ buffer.length then some _ else none)
  rw [if_pos hassert]
  rfl

end HttpClientParser

/-! ## `strtol` on the digits of a size line -/

theorem xdigit_plain {d : UInt8} (hd : isXdigit d) : isSpace d = false ∧ d ≠ 45 ∧ d ≠ 43 := by
  have hlow : 48 ≤ d := by
    simp only [isXdigit, Bool.or_eq_true, Bool.and_eq_true, decide_eq_true_eq] at hd
    rcases hd with (hdigit | hupper) | hlower
    · exact hdigit.1
    · exact UInt8.le_trans (by decide) hupper.1
    · exact UInt8.le_trans (by decide) hlower.1
  have hne : ∀ c : UInt8, c < 48 → d ≠ c := by
    rintro c hc rfl
    exact UInt8.not_lt.mpr hlow hc
  have htop : ¬ d ≤ 13 := fun h => absurd (UInt8.le_trans hlow h) (by decide)
  refine ⟨?_, hne 45 (by decide), hne 43 (by decide)⟩
  rw [isSpace, decide_eq_false (hne 32 (by decide)), decide_eq_false htop, Bool.and_false,
    Bool.or_false]

theorem skipPrefix_eq {d : UInt8} {rest : List UInt8}
    (hplain : ∀ x ∈ rest.head?, x ≠ 120 ∧ x ≠ 88) : skipPrefix 16 (d :: rest) = d :: rest := by
  unfold skipPrefix
  split
  · rename_i x c bytes heq
    obtain ⟨-, rfl⟩ := List.cons.inj heq
    obtain ⟨hx, hX⟩ := hplain x rfl
    rw [if_neg (fun h => h.2.1.elim hx hX)]
  · rfl

theorem strtol_digits {d : UInt8} {rest : List UInt8} (hd : isXdigit d)
    (hplain : ∀ x ∈ rest.head?, x ≠ 120 ∧ x ≠ 88) :
    strtol (d :: rest) 16 = min (leadingValue 16 (d :: rest) : Int) (2 ^ 63 - 1) := by
  obtain ⟨hspace, hminus, hplus⟩ := xdigit_plain hd
  unfold strtol
  rw [List.dropWhile_cons_of_neg (by rw [hspace]; exact Bool.false_ne_true)]
  split
  · rename_i heq
    exact absurd (List.cons.inj heq).1 hminus
  · rename_i heq
    exact absurd (List.cons.inj heq).1 hplus
  · rw [skipPrefix_eq hplain]

/-! ## The callbacks -/

namespace HttpResponseParser

variable {self parser : HttpResponseParser}

/-- A callback touches neither the machine nor the body. -/
theorem callback_keeps {call : ResponseCall} (h : callback buffer self call = some parser) :
    parser.parser = self.parser ∧ parser.data.body = self.data.body := by
  cases call with
  | reasonPhrase pos len =>
      obtain ⟨reason, -, hdata⟩ := Option.bind_eq_some_iff.mp h
      cases hdata
      exact ⟨rfl, rfl⟩
  | statusCode pos len =>
      cases h
      exact ⟨rfl, rfl⟩
  | httpVersion pos len =>
      simp only [callback] at h
      split at h
      · cases h
        exact ⟨rfl, rfl⟩
      · cases h
        exact ⟨rfl, rfl⟩
  | httpField field flen value vlen =>
      simp only [callback] at h
      split at h
      · cases h
        exact ⟨rfl, rfl⟩
      · obtain ⟨key, -, hrest⟩ := Option.bind_eq_some_iff.mp h
        obtain ⟨val, -, hdata⟩ := Option.bind_eq_some_iff.mp hrest
        cases hdata
        exact ⟨rfl, rfl⟩

theorem callbacks_keep {calls : List ResponseCall}
    (h : calls.foldlM (callback buffer) self = some parser) :
    parser.parser = self.parser ∧ parser.data.body = self.data.body := by
  induction calls generalizing self with
  | nil =>
      cases h
      exact ⟨rfl, rfl⟩
  | cons call calls ih =>
      rw [List.foldlM_cons] at h
      obtain ⟨middle, hcall, hrest⟩ := Option.bind_eq_some_iff.mp h
      obtain ⟨hparser, hbody⟩ := ih hrest
      obtain ⟨hparser', hbody'⟩ := callback_keeps hcall
      exact ⟨hparser.trans hparser', hbody.trans hbody'⟩

theorem execute_ok {chunck : Bool} {nparse : Nat}
    (h : self.execute buffer chunck = .ok (parser, nparse)) :
    let run := (if chunck then self.parser.init else self.parser).execute buffer
    parser.parser = run.1 ∧ nparse ∈ run.2.1 ∧ parser.data.body = self.data.body := by
  intro run
  unfold execute at h
  simp only at h
  split at h
  · cases h
  · rename_i hcalls
    split at h
    · cases h
    · rename_i hnparse
      cases h
      obtain ⟨hparser, hbody⟩ := callbacks_keep hcalls
      exact ⟨hparser, hnparse, hbody⟩

theorem execute_le {chunck : Bool} {nparse : Nat} (hpos : 0 < buffer.length)
    (hlen : buffer.length < 2 ^ 64) (h : self.execute buffer chunck = .ok (parser, nparse)) :
    nparse ≤ buffer.length :=
  HttpClientParser.execute_le hpos hlen _ nparse (execute_ok h).2.1

theorem contentLen_range {chunck : Bool} {nparse : Nat}
    (hrange : -2 ^ 31 ≤ self.parser.contentLen ∧ self.parser.contentLen < 2 ^ 31)
    (h : self.execute buffer chunck = .ok (parser, nparse)) :
    -2 ^ 31 ≤ parser.parser.contentLen ∧ parser.parser.contentLen < 2 ^ 31 := by
  rw [(execute_ok h).1]
  apply HttpClientParser.contentLen_range
  cases chunck with
  | false => exact hrange
  | true =>
      show -2 ^ 31 ≤ (-1 : Int) ∧ (-1 : Int) < 2 ^ 31
      decide

/-- The length of an accepted size line: `strtol` stops at the largest `long`, and of that
`content_len` keeps an `int`. -/
theorem contentLen_size {nparse : Nat} (hdigit : buffer.head?.any isXdigit)
    (h : self.execute buffer true = .ok (parser, nparse)) (hend : parser.isFinished) :
    parser.parser.contentLen = int32 (min (leadingValue 16 buffer : Int) (2 ^ 63 - 1)) ∧
      parser.parser.chunksDone = decide (parser.parser.contentLen ≤ 0) := by
  cases buffer with
  | nil => cases hdigit
  | cons d rest =>
      have hd : isXdigit d = true := hdigit
      have hrun : parser.parser = (self.parser.init.execute (d :: rest)).1 := (execute_ok h).1
      have hcs : (self.parser.init.execute (d :: rest)).1.cs = 120 := by
        rw [← hrun]
        exact of_decide_eq_true hend
      have hplain := HttpClientParser.no_prefix_size hd rfl hcs
      obtain ⟨hcontent, hdone⟩ := HttpClientParser.sized_execute hd rfl hcs
      rw [hrun]
      refine ⟨?_, hdone⟩
      rw [hcontent, strtol_digits hd hplain]

theorem callback_quiet (buffer : List UInt8) {call : ResponseCall} (h : call.Quiet)
    (self : HttpResponseParser) :
    ∃ parser, callback buffer self call = some parser ∧ parser.error = self.error := by
  cases call with
  | reasonPhrase | statusCode | httpVersion => exact h.elim
  | httpField field flen value vlen =>
      by_cases hempty : flen = 0
      · exact ⟨self, by rw [callback, if_pos hempty], rfl⟩
      · rw [callback, if_neg hempty, stdString, if_pos h.1, stdString, if_pos h.2]
        exact ⟨_, rfl, rfl⟩

theorem callbacks_quiet (buffer : List UInt8) {calls : List ResponseCall}
    (h : ∀ call ∈ calls, call.Quiet) (self : HttpResponseParser) :
    ∃ parser, calls.foldlM (callback buffer) self = some parser ∧ parser.error = self.error := by
  induction calls generalizing self with
  | nil => exact ⟨self, rfl, rfl⟩
  | cons call calls ih =>
      obtain ⟨hcall, hcalls⟩ := List.forall_mem_cons.mp h
      obtain ⟨middle, hone, herror⟩ := callback_quiet buffer hcall self
      obtain ⟨parser, hrest, herror'⟩ := ih hcalls middle
      refine ⟨parser, ?_, herror'.trans herror⟩
      rw [List.foldlM_cons, hone]
      exact hrest

/-- `execute` on a line, or a piece of one, from the start. -/
theorem execute_line (hpos : 0 < buffer.length) (hlen : buffer.length < 2 ^ 63)
    (hbytes : 32 ∉ buffer) (self : HttpResponseParser) : ∃ parser nparse,
      self.execute buffer true = .ok (parser, nparse) ∧ nparse ≤ buffer.length ∧
      buffer.drop nparse = (HttpClient.scan 1 buffer).2 ∧
      parser.parser.cs = (HttpClient.scan 1 buffer).1 ∧ parser.error = self.error := by
  obtain ⟨hquiet, hsome⟩ := HttpClientParser.execute_quiet hpos hlen hbytes
    self.parser.init rfl rfl
  obtain ⟨nparse, hnparse⟩ := Option.isSome_iff_exists.mp hsome
  obtain ⟨parser, hcalls, herror⟩ := callbacks_quiet buffer hquiet
    { self with parser := (self.parser.init.execute buffer).1 }
  have hexec : self.execute buffer true = .ok (parser, nparse) := by
    simp only [execute, if_true, hcalls, hnparse]
  obtain ⟨hend, hleft, hsuffix⟩ := HttpClientParser.exec_scan buffer
    { self.parser.init with mark := 0, fieldLen := 0, fieldStart := 0 } 0 buffer
  refine ⟨parser, nparse, hexec, execute_le hpos (by omega) hexec, ?_, ?_, herror⟩
  · have hstop := HttpClientParser.execute_nread hpos (by omega) self.parser.init nparse hnparse
    rw [← hstop] at hleft
    have hlength : nparse = buffer.length - (HttpClient.scan 1 buffer).2.length := by
      have hsum : nparse + (HttpClient.scan 1 buffer).2.length = 0 + buffer.length := hleft
      omega
    rw [hlength]
    exact (List.suffix_iff_eq_drop.mp hsuffix).symm
  · rw [(execute_ok hexec).1]
    exact hend

end HttpResponseParser

end Lyslg.Http
