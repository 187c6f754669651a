import Lyslg.Http.HeadCalls
/-!
# The socket part of the grammar

A text that begins with `<` or `@` may begin a `SocketRequest`, which has no method.  The machine
never fails in the data of one, so a buffer that ends there is no error.
-/

namespace Lyslg.Http

open Http11 Support Support.Machine Support.Memory

/-! ## Where the data begin -/

def isXmlName (c : UInt8) : Bool := isAlnum c || c = 45 || c = 46

/-- `"/" | space | ">"` -/
def isXmlDelim (c : UInt8) : Bool := (9 ≤ c && c ≤ 13) || c = 32 || c = 47 || c = 62

/-- A name, and an end of it if there is more: what stands behind the `<` of `SocketXMLData`. -/
def isXmlStart (text : List UInt8) : Bool :=
  text.takeWhile isXmlName ≠ [] && (text.dropWhile isXmlName).head?.all isXmlDelim

/-- A transition, without what it does. -/
def nextState (relaxed : Bool) (cs : Nat) (c : UInt8) : Option Nat :=
  (next relaxed cs c).map Transition.target

/-- The text behind the `@` of `SocketJSONStart` is a `relative_part`: a space behind it begins
the data. -/
def isRelativePart (relaxed : Bool) (text : List UInt8) : Bool :=
  (text ++ [32]).foldlM (nextState relaxed) 198 = some 199

/-- The head begins a `SocketRequest`, which has no method. -/
def BeginsSocket (relaxed : Bool) (token more : List UInt8) : Prop :=
  (∃ text, token = 60 :: text ∧ isXmlStart text) ∨
    ∃ text, token = 64 :: text ∧ isRelativePart relaxed text ∧ more.head? = some 123

theorem takes_one (relaxed : Bool) (c : UInt8) (byte target : Nat) (actions : List Action) :
    (one byte target actions).takes relaxed c = decide (c.toNat = byte) := by
  simp only [Transition.takes, one, on, List.any_cons, List.any_nil, Bool.or_false, Bool.not_false,
    Bool.true_or, Bool.and_true, ← Bool.decide_and, decide_eq_decide]
  omega

/-! ## The machine over a message of the socket part -/

/-- What the table says of the ends, and of the socket part: its callbacks are for a path only. -/
structure SocketRow (cs : Nat) (t : Transition) : Prop where
  done : .done ∈ t.actions ↔ 348 ≤ t.target
  actions : stage cs = .socket →
    ∀ a ∈ t.actions, a ∈ [Action.mark, .requestPath, .xml, .json, .done]

instance (cs : Nat) (t : Transition) : Decidable (SocketRow cs t) :=
  decidable_of_iff
    ((.done ∈ t.actions ↔ 348 ≤ t.target) ∧
      (stage cs = .socket → ∀ a ∈ t.actions, a ∈ [Action.mark, .requestPath, .xml, .json, .done]))
    ⟨fun ⟨done, actions⟩ => ⟨done, actions⟩, fun ⟨done, actions⟩ => ⟨done, actions⟩⟩

theorem transitions_socket : ∀ row ∈ transitions, ∀ t ∈ row.2, SocketRow row.1 t := by
  decide +kernel

theorem next_socket {relaxed : Bool} {cs : Nat} {c : UInt8} {t : Transition}
    (h : next relaxed cs c = some t) : SocketRow cs t := by
  obtain ⟨⟨ts, hrow, ht⟩, _⟩ := next_mem h
  exact transitions_socket (cs, ts) hrow t ht

/-- The state that the machine stops in. -/
def haltState (relaxed : Bool) (cs : Nat) : List UInt8 → Nat
  | [] => cs
  | c :: bytes =>
      match nextState relaxed cs c with
      | none => 0
      | some target => if 348 ≤ target then target else haltState relaxed target bytes

theorem haltState_none {relaxed : Bool} {cs : Nat} {c : UInt8} (h : nextState relaxed cs c = none)
    (bytes : List UInt8) : haltState relaxed cs (c :: bytes) = 0 := by
  rw [haltState, h]

theorem haltState_some {relaxed : Bool} {cs target : Nat} {c : UInt8}
    (h : nextState relaxed cs c = some target) (hgoes : target < 348) (bytes : List UInt8) :
    haltState relaxed cs (c :: bytes) = haltState relaxed target bytes := by
  rw [haltState, h]
  exact if_neg (by omega)

theorem haltState_end {relaxed : Bool} {cs target : Nat} {c : UInt8}
    (h : nextState relaxed cs c = some target) (hend : 348 ≤ target) (bytes : List UInt8) :
    haltState relaxed cs (c :: bytes) = target := by
  rw [haltState, h]
  exact if_pos hend

theorem exec_cs (a : HttpParser) (p : Nat) (bytes : List UInt8) :
    (HttpParser.scanner.exec a p bytes).1.cs = haltState a.uriRelaxed a.cs bytes := by
  induction bytes generalizing a p with
  | nil => rfl
  | cons c bytes ih =>
      cases hnext : next a.uriRelaxed a.cs c with
      | none =>
          rw [Scanner.exec_none (m := HttpParser.scanner) hnext,
            haltState_none (by rw [nextState, hnext]; rfl)]
          rfl
      | some t =>
          have hstate : nextState a.uriRelaxed a.cs c = some t.target := by
            rw [nextState, hnext]
            rfl
          by_cases hdone : .done ∈ t.actions
          · rw [Scanner.exec_ends (m := HttpParser.scanner) hnext (decide_eq_true hdone),
              haltState_end hstate ((next_socket hnext).done.mp hdone)]
            exact HttpParser.follow_cs p a t
          · have htarget : t.target < 348 := next_final hnext hdone
            rw [Scanner.exec_goes (m := HttpParser.scanner) hnext (decide_eq_false hdone),
              haltState_some hstate htarget, ih]
            show haltState (a.follow p t).1.uriRelaxed (a.follow p t).1.cs bytes = _
            rw [HttpParser.follow_cs, HttpParser.follow_uriRelaxed]

/-- The actions of the socket part. -/
theorem actAll_socket (head : List UInt8) {p : Nat} (hp : p < 2 ^ 63) {actions : List Action}
    (h : ∀ a ∈ actions, a ∈ [Action.mark, .requestPath, .xml, .json, .done]) {a : HttpParser}
    (hmark : a.mark ≤ p) :
    (a.actAll p actions).1.mark ≤ p ∧
      ∀ c ∈ (a.actAll p actions).2, c.throws = false ∧ c.refusal head = none := by
  induction actions generalizing a with
  | nil => exact ⟨hmark, fun c hc => absurd hc List.not_mem_nil⟩
  | cons action actions ih =>
      obtain ⟨haction, hactions⟩ := List.forall_mem_cons.mp h
      have hact : (a.act p action).1.mark ≤ p ∧
          ∀ c ∈ (a.act p action).2, c.throws = false ∧ c.refusal head = none := by
        cases action with
        | mark => exact ⟨Nat.le_refl p, fun c hc => absurd hc List.not_mem_nil⟩
        | xml | json | done => exact ⟨hmark, fun c hc => absurd hc List.not_mem_nil⟩
        | requestPath =>
            refine ⟨hmark, fun c hc => ?_⟩
            rw [List.mem_singleton.mp hc, Call.throws, HttpParser.len_eq hmark (by omega)]
            exact ⟨decide_eq_false (by omega), rfl⟩
        | _ => simp at haction
      obtain ⟨hrest, hcalls⟩ := ih hactions hact.1
      exact ⟨hrest, List.forall_mem_append.mpr ⟨hact.2, hcalls⟩⟩

/-- No callback of the socket part throws or refuses. -/
theorem exec_socket_calls (head : List UInt8) {a : HttpParser} (hstage : stage a.cs = .socket)
    {p : Nat} (hmark : a.mark ≤ p) {bytes : List UInt8} (hsize : p + bytes.length < 2 ^ 63) :
    ∀ c ∈ (HttpParser.scanner.exec a p bytes).2.2, c.throws = false ∧ c.refusal head = none := by
  refine (HttpParser.scanner.exec_spec (L := fun _ => True) (n := p + bytes.length)
    (Q := fun p s => s.mark ≤ p ∧ (s.cs = 0 ∨ stage s.cs = .socket))
    (fun q s c t hq _ hnext hs => ?_)
    (fun q s hs => ⟨hs.1, .inl rfl⟩) (fun _ _ => trivial) (Nat.le_refl _) ⟨hmark, .inr hstage⟩).2
  obtain ⟨hmark, hstage⟩ := hs
  have hnext : next s.uriRelaxed s.cs c = some t := hnext
  have hsocket : stage s.cs = .socket := by
    refine hstage.resolve_left fun hzero => ?_
    rw [hzero, next_zero] at hnext
    cases hnext
  obtain ⟨hkept, hcalls⟩ := actAll_socket head (p := q) (by omega)
    ((next_socket hnext).actions hsocket) (a := { s with cs := t.target }) hmark
  refine ⟨⟨Nat.le_succ_of_le hkept, .inr ?_⟩, hcalls⟩
  show stage (s.follow q t).1.cs = .socket
  rw [HttpParser.follow_cs]
  exact (next_sound hnext).socket hsocket

/-! ### Where it stops -/

/-- The states of the data, which take every byte. -/
def endless : List Nat := [196, 197, 200, 201]

theorem nextState_endless (relaxed : Bool) {cs : Nat} (hcs : cs ∈ endless) (c : UInt8) :
    ∃ target, nextState relaxed cs c = some target ∧ (target ∈ endless ∨ target = 349) := by
  have hall : ∀ relaxed : Bool, ∀ cs ∈ endless,
      (nextState relaxed cs c).any fun target => target ∈ endless ∨ target = 349 := by
    revert c
    apply forall_byte
    decide +kernel
  obtain ⟨target, hnext, htarget⟩ := (Option.any_eq_true _ _).mp (hall relaxed cs hcs)
  exact ⟨target, hnext, of_decide_eq_true htarget⟩

theorem endless_range : ∀ cs ∈ endless, cs ≠ 0 ∧ cs < 348 := by decide

theorem haltState_endless (relaxed : Bool) {cs : Nat} (hcs : cs ∈ endless) (bytes : List UInt8) :
    haltState relaxed cs bytes ≠ 0 := by
  induction bytes generalizing cs with
  | nil => exact (endless_range cs hcs).1
  | cons c bytes ih =>
      obtain ⟨target, hnext, htarget | rfl⟩ := nextState_endless relaxed hcs c
      · rw [haltState_some hnext (endless_range target htarget).2]
        exact ih htarget
      · rw [haltState_end hnext (by decide)]
        decide

theorem nextState_xml (relaxed : Bool) (c : UInt8) :
    nextState relaxed 194 c = (if isXmlName c then some 195 else none) ∧
      nextState relaxed 195 c =
        if isXmlName c then some 195 else if isXmlDelim c then some 196 else none := by
  revert relaxed c
  have hall : ∀ c : UInt8, ∀ relaxed : Bool,
      nextState relaxed 194 c = (if isXmlName c then some 195 else none) ∧
        nextState relaxed 195 c =
          if isXmlName c then some 195 else if isXmlDelim c then some 196 else none := by
    apply forall_byte
    decide +kernel
  exact fun relaxed c => hall c relaxed

section

variable {relaxed : Bool} {text more : List UInt8}

theorem haltState_xmlName :
    haltState relaxed 195 (text ++ 32 :: more) ≠ 0 ↔
      (text.dropWhile isXmlName).head?.all isXmlDelim = true := by
  induction text with
  | nil =>
      have hnext := (nextState_xml relaxed 32).2
      rw [if_neg (by decide), if_pos (by decide)] at hnext
      rw [List.nil_append, haltState_some hnext (by decide)]
      exact iff_of_true (haltState_endless relaxed (by decide) more) rfl
  | cons c text ih =>
      have hnext := (nextState_xml relaxed c).2
      by_cases hname : isXmlName c = true
      · rw [if_pos hname] at hnext
        rw [List.cons_append, haltState_some hnext (by decide), List.dropWhile_cons_of_pos hname]
        exact ih
      · rw [if_neg hname] at hnext
        rw [List.cons_append, List.dropWhile_cons_of_neg hname, List.head?_cons, Option.all_some]
        by_cases hdelim : isXmlDelim c = true
        · rw [if_pos hdelim] at hnext
          rw [haltState_some hnext (by decide)]
          exact iff_of_true (haltState_endless relaxed (by decide) _) hdelim
        · rw [if_neg hdelim] at hnext
          rw [haltState_none hnext]
          exact iff_of_false (fun h => h rfl) hdelim

/-- Behind `<`, the machine stops in the error state unless the data begin there. -/
theorem haltState_xml :
    haltState relaxed 194 (text ++ 32 :: more) ≠ 0 ↔ isXmlStart text = true := by
  cases text with
  | nil =>
      have hnext := (nextState_xml relaxed 32).1
      rw [if_neg (by decide)] at hnext
      rw [List.nil_append, haltState_none hnext]
      exact iff_of_false (fun h => h rfl) (by decide)
  | cons c text =>
      have hnext := (nextState_xml relaxed c).1
      by_cases hname : isXmlName c = true
      · rw [if_pos hname] at hnext
        rw [List.cons_append, haltState_some hnext (by decide), haltState_xmlName]
        simp [isXmlStart, hname]
      · rw [if_neg hname] at hnext
        rw [List.cons_append, haltState_none hnext]
        simp [isXmlStart, hname]

/-- The states of a `relative_part` behind `@`. -/
def inRelativePart (cs : Nat) : Bool := cs = 198 || (202 ≤ cs && cs < 348)

/-- What the table says of them: a space, and nothing else, leads to the data. -/
theorem transitions_relativePart : ∀ row ∈ transitions, inRelativePart row.1 → ∀ t ∈ row.2,
    (t.bytes = [(32, 32)] ∧ t.target = 199) ∨
      ((∀ range ∈ t.bytes, 32 < range.1 ∨ range.2 < 32) ∧ inRelativePart t.target) := by
  decide +kernel

theorem nextState_relativePart {cs target : Nat} {c : UInt8} (hcs : inRelativePart cs)
    (h : nextState relaxed cs c = some target) :
    (c = 32 ∧ target = 199) ∨ (c ≠ 32 ∧ inRelativePart target) := by
  obtain ⟨t, hnext, rfl⟩ := Option.map_eq_some_iff.mp h
  obtain ⟨⟨ts, hrow, ht⟩, htakes⟩ := next_mem hnext
  have htakes := (Bool.and_eq_true _ _).mp htakes
  obtain ⟨range, hrange, hin⟩ := List.any_eq_true.mp htakes.1
  simp only [Bool.and_eq_true, decide_eq_true_eq] at hin
  rcases transitions_relativePart (cs, ts) hrow hcs t ht with ⟨hbytes, htarget⟩ | ⟨hbytes, htarget⟩
  · rw [hbytes] at hrange
    rw [List.mem_singleton.mp hrange] at hin
    exact .inl ⟨UInt8.toNat_inj.mp (Nat.le_antisymm hin.2 hin.1), htarget⟩
  · refine .inr ⟨?_, htarget⟩
    rintro rfl
    have hout := hbytes range hrange
    have hlow : range.1 ≤ 32 := hin.1
    have hhigh : 32 ≤ range.2 := hin.2
    omega

/-- The data begin behind a `relative_part`. -/
theorem haltState_relativePart {cs : Nat} (hcs : inRelativePart cs) (hspace : 32 ∉ text) :
    haltState relaxed cs (text ++ 32 :: more) =
      if (text ++ [32]).foldlM (nextState relaxed) cs = some 199 then haltState relaxed 199 more
      else 0 := by
  induction text generalizing cs with
  | nil =>
      rw [List.nil_append, List.nil_append, List.foldlM_cons]
      cases hnext : nextState relaxed cs 32 with
      | none =>
          rw [haltState_none hnext]
          rfl
      | some target =>
          obtain ⟨_, rfl⟩ | ⟨h, _⟩ := nextState_relativePart hcs hnext
          · rw [haltState_some hnext (by decide)]
            rfl
          · exact absurd rfl h
  | cons c text ih =>
      rw [List.mem_cons, not_or] at hspace
      obtain ⟨hc, hspace⟩ := hspace
      rw [List.cons_append, List.cons_append, List.foldlM_cons]
      cases hnext : nextState relaxed cs c with
      | none =>
          rw [haltState_none hnext]
          rfl
      | some target =>
          obtain ⟨rfl, _⟩ | ⟨_, htarget⟩ := nextState_relativePart hcs hnext
          · exact absurd rfl hc
          · have hgoes : target < 348 := by
              simp only [inRelativePart, Bool.or_eq_true, Bool.and_eq_true, decide_eq_true_eq]
                at htarget
              omega
            rw [haltState_some hnext hgoes]
            exact ih htarget hspace

theorem haltState_json (hne : more ≠ []) (hspace : 32 ∉ text) :
    haltState relaxed 198 (text ++ 32 :: more) ≠ 0 ↔
      isRelativePart relaxed text = true ∧ more.head? = some 123 := by
  have hbrace : nextState relaxed 199 123 = some 200 := by cases relaxed <;> decide
  have hother : ∀ c : UInt8, c ≠ 123 → nextState relaxed 199 c = none := by
    have hrow : transitions.lookup 199 = some [one 123 200 [.mark]] := by decide
    intro c hc
    have htakes : c.toNat ≠ 123 := UInt8.toNat_inj.not.mpr hc
    simp [nextState, next, hrow, takes_one, htakes]
  rw [haltState_relativePart (by decide) hspace, isRelativePart, decide_eq_true_eq]
  obtain ⟨c, rest, rfl⟩ := List.exists_cons_of_ne_nil hne
  by_cases hpart : (text ++ [32]).foldlM (nextState relaxed) 198 = some 199
  · rw [if_pos hpart, and_iff_right hpart, List.head?_cons, Option.some.injEq]
    by_cases hc : c = 123
    · rw [hc, haltState_some hbrace (by decide)]
      exact iff_of_true (haltState_endless relaxed (by decide) rest) rfl
    · rw [haltState_none (hother c hc)]
      exact iff_of_false (fun h => h rfl) hc
  · rw [if_neg hpart]
    exact iff_of_false (fun h => h rfl) fun h => hpart h.1

end

end Lyslg.Http
