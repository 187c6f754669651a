import Lyslg.Http.DumpRoundTrip
import Lyslg.Http.ParamSegments
import Lyslg.Http.ResponseScan
/-!
# The machine over the text of a response

`Fills` goes over a stretch of a head and takes a response along.  Three header names have
states of their own, and their values may leave others behind: a line begins in one of
`lineStart`.
-/

namespace Lyslg.Http.HttpClientParser

open Support Support.Machine Support.Memory

/-! ## Single bytes -/

/-- The transition on a byte. -/
def Goes (cs : Nat) (c : UInt8) (target : Nat) (actions : List HttpClient.Action) : Prop :=
  (HttpClient.next cs c).map (fun t => (t.target, t.actions)) = some (target, actions)

instance (cs : Nat) (c : UInt8) (target : Nat) (actions : List HttpClient.Action) :
    Decidable (Goes cs c target actions) :=
  inferInstanceAs (Decidable (_ = _))

/-- A transition without actions. -/
def quietStep (cs : Nat) (c : UInt8) : Option Nat :=
  (HttpClient.next cs c).bind fun t => if t.actions = [] then some t.target else none

section

variable (buffer : List UInt8) {a : HttpClientParser} {c : UInt8} {target : Nat}
  {actions : List HttpClient.Action}

theorem Goes.walks (h : Goes a.cs c target actions) (hgoes : .done ∉ actions) (p : Nat) :
    (scanner buffer).Walks p a [c] ({ a with cs := target }.actAll buffer p actions).2
      ({ a with cs := target }.actAll buffer p actions).1 := by
  obtain ⟨t, hnext, ht⟩ := Option.map_eq_some_iff.mp h
  obtain ⟨htarget, hactions⟩ := Prod.mk.inj ht
  refine .one (t := t) hnext ?_ ?_
  · rw [← hactions] at hgoes
    exact decide_eq_false hgoes
  · show { a with cs := t.target }.actAll buffer p t.actions = _
    rw [htarget, hactions]

theorem walks_quietStep (h : quietStep a.cs c = some target) (p : Nat) :
    (scanner buffer).Walks p a [c] [] { a with cs := target } := by
  obtain ⟨t, hnext, ht⟩ := Option.bind_eq_some_iff.mp h
  rw [Option.ite_none_right_eq_some, Option.some.injEq] at ht
  obtain ⟨hactions, rfl⟩ := ht
  have hgoes : Goes a.cs c t.target [] := by
    rw [Goes, hnext, ← hactions]
    rfl
  exact hgoes.walks buffer (by simp) p

/-- The bytes one after the other, with what is known of the state behind each. -/
theorem walks_quiet {I : List UInt8 → Nat → Prop} {bytes : List UInt8}
    (hstep : ∀ before cs, ∀ c ∈ bytes, I before cs →
      ∃ cs', quietStep cs c = some cs' ∧ I (before ++ [c]) cs')
    (before : List UInt8) (h : I before a.cs) (p : Nat) :
    ∃ cs, I (before ++ bytes) cs ∧ (scanner buffer).Walks p a bytes [] { a with cs := cs } := by
  induction bytes generalizing a before p with
  | nil => exact ⟨a.cs, by rwa [List.append_nil], .nil p a⟩
  | cons c bytes ih =>
      obtain ⟨cs, hone, hnow⟩ := hstep before a.cs c List.mem_cons_self h
      obtain ⟨cs', hend, hrest⟩ := ih (a := { a with cs := cs })
        (fun before cs c hc => hstep before cs c (List.mem_cons_of_mem _ hc)) (before ++ [c]) hnow
        (p + 1)
      refine ⟨cs', ?_, (walks_quietStep buffer hone p).append hrest⟩
      rwa [List.append_assoc] at hend

theorem walks_within {S : Nat → Prop} {bytes : List UInt8}
    (hstep : ∀ cs, ∀ c ∈ bytes, S cs → ∃ cs', quietStep cs c = some cs' ∧ S cs') (h : S a.cs)
    (p : Nat) : ∃ cs, S cs ∧ (scanner buffer).Walks p a bytes [] { a with cs := cs } :=
  walks_quiet buffer (I := fun _ => S) (fun _ => hstep) [] h p

end

/-! ### The states of a header line -/

/-- The states before a header line: those behind a LF. -/
def lineStart : List Nat := [20, 36, 43, 62, 113]

def isTokenChar (c : UInt8) : Bool :=
  HttpClient.tokenChar.any fun range => range.1 ≤ c.toNat ∧ c.toNat ≤ range.2

/-- The states in a header name. -/
def nameStates : List Nat :=
  [21, 117] ++ List.range' 25 10 ++ List.range' 44 17 ++ List.range' 73 7 ++ List.range' 90 5 ++
    List.range' 101 11

/-- `transfer-encoding` -/
def encodingName : List UInt8 :=
  [116, 114, 97, 110, 115, 102, 101, 114, 45, 101, 110, 99, 111, 100, 105, 110, 103]

/-- The states from 44 to 60 come one after the other over the letters of `encodingName`. -/
def spells (cs : Nat) (c : UInt8) (cs' : Nat) : Bool :=
  !(44 ≤ cs' && cs' ≤ 60) || (cs' = cs + 1 && 44 ≤ cs && encodingName[cs - 43]? = some (toLower c))

/-- The first of them comes with the first letter. -/
def begins (c : UInt8) (cs' : Nat) : Bool :=
  !(44 ≤ cs' && cs' ≤ 60) || (cs' = 44 && toLower c = 116)

/-- What begins a name. -/
def startActions : List (List HttpClient.Action) :=
  [[.startField], [.writeConnectionClose, .startField], [.startValue, .startField]]

/-- The states behind the colon. -/
def colonStates : List Nat := [22, 35, 61, 112]

/-- The states in a value; `encoding` that of `Transfer-Encoding`. -/
def valueStates (encoding : Bool) : List Nat :=
  [23, 96, 97, 98, 99, 100, 119] ++ if encoding then [81, 82, 83, 84, 85, 86, 87] else []

def isLineChar (c : UInt8) : Bool := c ≠ 10 && c ≠ 13

/-- The states behind the CR of a value. -/
def crStates (encoding : Bool) : List Nat := [24, 88] ++ if encoding then [71] else []

/-- The states behind the CR of a line without a value. -/
def emptyStates : List Nat := [24, 80, 95, 118]

/-- The states from which a blank line ends the head. -/
def headEnd : List Nat := [20, 43]

/-- The machine on a letter. -/
structure LetterSteps (c : UInt8) : Prop where
  name : isTokenChar c → ∀ cs ∈ nameStates,
    ∃ cs' ∈ quietStep cs c, cs' ∈ nameStates ∧ spells cs c cs'
  nameStart : isTokenChar c → ∀ cs ∈ lineStart,
    ∃ t ∈ HttpClient.next cs c, t.actions ∈ startActions ∧ t.target ∈ nameStates ∧
      begins c t.target
  value : isLineChar c → ∀ encoding, ∀ cs ∈ valueStates encoding,
    ∃ cs' ∈ quietStep cs c, cs' ∈ valueStates encoding
  valueStart : isLineChar c → isSpace c = false → ∀ cs ∈ colonStates,
    ∃ cs' ∈ valueStates (cs = 61), Goes cs c cs' [.startValue]

theorem letterSteps (c : UInt8) : LetterSteps c := by
  constructor <;> revert c <;> apply forall_byte <;> decide +kernel

/-- The machine on the colon, the blank and the ends of lines. -/
structure MarkSteps : Prop where
  colon : ∀ cs ∈ nameStates, ∃ cs' ∈ colonStates, Goes cs 58 cs' [.writeField] ∧
    (cs' = 61 → cs = 60)
  blank : ∀ cs ∈ colonStates, Goes cs 32 cs [.startValue]
  cr : ∀ encoding, ∀ cs ∈ valueStates encoding, ∃ cs' ∈ crStates encoding,
    Goes cs 13 cs' [.writeValue] ∨ Goes cs 13 cs' [.writeContentLen, .writeValue]
  lf : ∀ encoding, ∀ cs ∈ crStates encoding, ∃ cs' ∈ headEnd,
    Goes cs 10 cs' [] ∨ (encoding ∧ Goes cs 10 cs' [.transChunked])
  emptyCr : ∀ cs ∈ colonStates, ∃ cs' ∈ emptyStates, Goes cs 13 cs' [.startValue, .writeValue]
  emptyLf : ∀ cs ∈ emptyStates, ∃ cs' ∈ lineStart, Goes cs 10 cs' []
  blankLine : ∀ cs ∈ headEnd, Goes cs 13 3 [] ∨ Goes cs 13 3 [.writeConnectionClose]
  finish : Goes 3 10 120 [.done]
  nameless : ∀ cs ∈ lineStart, HttpClient.next cs 58 = none

theorem markSteps : MarkSteps := by
  constructor <;> decide +kernel

theorem lineStart_of_headEnd : ∀ cs ∈ headEnd, cs ∈ lineStart := by
  decide

/-! ## Header lines -/

section

variable (buffer : List UInt8) {a : HttpClientParser} {name value : List UInt8}

/-- What the letters of a name say of the state behind them. -/
def InName (name : List UInt8) (cs : Nat) : Prop :=
  cs ∈ nameStates ∧ (44 ≤ cs → cs ≤ 60 → name.map toLower = encodingName.take (cs - 43))

theorem InName.snoc {cs cs' : Nat} {c : UInt8} (h : InName name cs) (hcs : cs' ∈ nameStates)
    (hspells : spells cs c cs') : InName (name ++ [c]) cs' := by
  refine ⟨hcs, fun hlow hhigh => ?_⟩
  simp only [spells, hlow, hhigh, decide_true, Bool.and_self, Bool.not_true, Bool.false_or,
    Bool.and_eq_true, decide_eq_true_eq] at hspells
  obtain ⟨⟨hnext, hbefore⟩, hletter⟩ := hspells
  have hindex : cs' - 43 = cs - 43 + 1 := by omega
  rw [List.map_append, h.2 hbefore (by omega), hindex, List.take_add_one, hletter]
  rfl

/-- The machine over a name. -/
theorem walks_name (hname : ∀ c ∈ name, isTokenChar c) (hne : name ≠ []) (hcs : a.cs ∈ lineStart)
    (p : Nat) :
    ∃ b, (scanner buffer).Walks p a name [] b ∧ InName name b.cs ∧ b.fieldStart = p ∧
      b.chunked = a.chunked := by
  obtain ⟨c, rest, rfl⟩ := List.exists_cons_of_ne_nil hne
  obtain ⟨hc, hrest⟩ := List.forall_mem_cons.mp hname
  obtain ⟨t, hnext, hactions, htarget, hbegins⟩ := (letterSteps c).nameStart hc a.cs hcs
  have hgoes : Goes a.cs c t.target t.actions := by
    rw [Goes, Option.mem_def.mp hnext]
    rfl
  obtain ⟨s, hfirst, hs, hstart, hchunked⟩ : ∃ s : HttpClientParser,
      (scanner buffer).Walks p a [c] [] s ∧ s.cs = t.target ∧ s.fieldStart = p ∧
        s.chunked = a.chunked := by
    simp only [startActions, List.mem_cons, List.not_mem_nil, or_false] at hactions
    obtain hactions | hactions | hactions := hactions
    all_goals
      rw [hactions] at hgoes
      exact ⟨_, hgoes.walks buffer (by decide) p, rfl, rfl, rfl⟩
  have hletter : InName [c] s.cs := by
    rw [hs]
    refine ⟨htarget, fun hlow hhigh => ?_⟩
    simp only [begins, hlow, hhigh, decide_true, Bool.and_self, Bool.not_true, Bool.false_or,
      Bool.and_eq_true, decide_eq_true_eq] at hbegins
    rw [hbegins.1, List.map_singleton, hbegins.2]
    rfl
  obtain ⟨cs, hname, hloop⟩ := walks_quiet buffer (I := InName)
    (fun before cs c hc h => by
      obtain ⟨cs', hstep, hcs', hspells⟩ := (letterSteps c).name (hrest c hc) cs h.1
      exact ⟨cs', hstep, h.snoc hcs' hspells⟩) [c] hletter (p + 1)
  exact ⟨{ s with cs := cs }, hfirst.append hloop, hname, hstart, hchunked⟩

/-- The machine over a name, the colon and the blank. -/
theorem walks_key (hname : ∀ c ∈ name, isTokenChar c) (hne : name ≠ []) (hcs : a.cs ∈ lineStart)
    (p : Nat) :
    ∃ b, (scanner buffer).Walks p a (name ++ chars ": ") [] b ∧ b.cs ∈ colonStates ∧
      b.fieldStart = p ∧ b.fieldLen = HttpParser.len p (p + name.length) ∧
      b.chunked = a.chunked ∧ (b.cs = 61 → name.map toLower = encodingName) := by
  obtain ⟨s, hwalk, hin, hstart, hchunked⟩ := walks_name buffer hname hne hcs p
  obtain ⟨cs, hcolon, hgoes, hencoding⟩ := markSteps.colon s.cs hin.1
  have hsecond := hgoes.walks buffer (by decide) (p + name.length)
  have hblank := Goes.walks buffer
    (a := { s with cs := cs, fieldLen := HttpParser.len s.fieldStart (p + name.length) })
    (markSteps.blank cs hcolon) (by decide) (p + name.length + 1)
  rw [chars_separator]
  refine ⟨_, hwalk.append (hsecond.append hblank), hcolon, hstart, ?_, hchunked, fun h => ?_⟩
  · show HttpParser.len s.fieldStart (p + name.length) = _
    rw [hstart]
  · have hsixty : s.cs = 60 := hencoding h
    have hletters := hin.2 (by omega) (by omega)
    rw [hsixty] at hletters
    exact hletters

/-- What a value says of the state behind its CR. -/
def BehindCr (value : List UInt8) (encoding : Bool) (cs : Nat) : Prop :=
  (value = [] ∧ cs ∈ emptyStates) ∨ (value ≠ [] ∧ cs ∈ crStates encoding)

/-- A value with its CR; `v` is where it begins. -/
theorem walks_value (hvalue : ∀ c ∈ value, isLineChar c)
    (hstart : ∀ c ∈ value.head?, isSpace c = false)
    (hcs : a.cs ∈ colonStates) (v : Nat) :
    ∃ b, (scanner buffer).Walks v a (value ++ [13])
        [.httpField a.fieldStart a.fieldLen v (HttpParser.len v (v + value.length))] b ∧
      BehindCr value (a.cs = 61) b.cs ∧ b.chunked = a.chunked := by
  cases value with
  | nil =>
      obtain ⟨cs, hempty, hgoes⟩ := markSteps.emptyCr a.cs hcs
      exact ⟨_, hgoes.walks buffer (by decide) v, .inl ⟨rfl, hempty⟩, rfl⟩
  | cons c value =>
      obtain ⟨hc, hvalue⟩ := List.forall_mem_cons.mp hvalue
      obtain ⟨cs, hfirst, hgoes⟩ := (letterSteps c).valueStart hc (hstart c rfl) a.cs hcs
      have hone := hgoes.walks buffer (by decide) v
      obtain ⟨cs', hlast, hloop⟩ := walks_within buffer
        (a := { a with cs := cs, mark := v }) (S := fun cs => cs ∈ valueStates (a.cs = 61))
        (fun cs c hc h => (letterSteps c).value (hvalue c hc) _ cs h) hfirst (v + 1)
      obtain ⟨cs'', hcr, hend⟩ := markSteps.cr _ cs' hlast
      have hlength : v + (c :: value).length = v + 1 + value.length := by
        rw [List.length_cons]
        omega
      have hbehind : BehindCr (c :: value) (a.cs = 61) cs'' := .inr ⟨List.cons_ne_nil c value, hcr⟩
      rw [hlength]
      obtain hend | hend := hend
      · have hwalk := hend.walks (a := { a with cs := cs', mark := v }) buffer
          (by decide) (v + 1 + value.length)
        exact ⟨_, hone.append (hloop.append hwalk), hbehind, rfl⟩
      · have hwalk := hend.walks (a := { a with cs := cs', mark := v }) buffer
          (by decide) (v + 1 + value.length)
        exact ⟨_, hone.append (hloop.append hwalk), hbehind, rfl⟩

/-- The LF of a line. -/
theorem walks_lf {encoding : Bool} (hcs : BehindCr value encoding a.cs) (p : Nat) :
    ∃ b, (scanner buffer).Walks p a [10] [] b ∧ b.cs ∈ lineStart ∧
      (value ≠ [] → b.cs ∈ headEnd) ∧ (encoding = false → b.chunked = a.chunked) := by
  obtain ⟨hempty, hcs⟩ | ⟨_, hcs⟩ := hcs
  · obtain ⟨cs, hstart, hgoes⟩ := markSteps.emptyLf a.cs hcs
    exact ⟨_, hgoes.walks buffer (by decide) p, hstart, absurd hempty, fun _ => rfl⟩
  · obtain ⟨cs, hend, hgoes | ⟨hencoding, hgoes⟩⟩ := markSteps.lf encoding a.cs hcs
    · exact ⟨_, hgoes.walks buffer (by decide) p, lineStart_of_headEnd cs hend,
        fun _ => hend, fun _ => rfl⟩
    · refine ⟨_, hgoes.walks buffer (by decide) p, lineStart_of_headEnd cs hend,
        fun _ => hend, fun h => ?_⟩
      rw [hencoding] at h
      cases h

/-- A header line that the machine accepts. -/
structure Line (header : List UInt8 × List UInt8) : Prop where
  name : ∀ c ∈ header.1, isTokenChar c
  value : ∀ c ∈ header.2, isLineChar c
  start : ∀ c ∈ header.2.head?, isSpace c = false

theorem walks_header (h : Line (name, value)) (hne : name ≠ []) (hcs : a.cs ∈ lineStart) (p : Nat) :
    let v := p + name.length + 2
    ∃ b, (scanner buffer).Walks p a (dumpHeader (name, value))
        [.httpField p (HttpParser.len p (p + name.length)) v (HttpParser.len v (v + value.length))]
        b ∧
      b.cs ∈ lineStart ∧ (value ≠ [] → b.cs ∈ headEnd) ∧
      (name.map toLower ≠ encodingName → b.chunked = a.chunked) := by
  intro v
  obtain ⟨s, hkey, hcolon, hstart, hlen, hchunked, hencoding⟩ :=
    walks_key buffer h.name hne hcs p
  have hv : p + (name ++ chars ": ").length = v := by
    rw [List.length_append, chars_separator, ← Nat.add_assoc]
    rfl
  obtain ⟨s', hvalue, hcr, hsame⟩ := walks_value buffer h.value h.start hcolon
    (p + (name ++ chars ": ").length)
  rw [hstart, hlen] at hvalue
  obtain ⟨b, hlf, hline, hend, hkept⟩ := walks_lf buffer hcr
    (p + (name ++ chars ": ").length + (value ++ [13]).length)
  have hall := hkey.append (hvalue.append hlf)
  rw [hv] at hall
  refine ⟨b, ?_, hline, hend, fun hother => ?_⟩
  · have htext : dumpHeader (name, value) = name ++ chars ": " ++ (value ++ [13] ++ [10]) := by
      simp only [dumpHeader, chars_newline, List.append_assoc, List.cons_append, List.nil_append]
    rw [htext]
    exact hall
  · have hnot : decide (s.cs = 61) = false := decide_eq_false fun h => hother (hencoding h)
    rw [hkept hnot, hsame, hchunked]

end

end Lyslg.Http.HttpClientParser
