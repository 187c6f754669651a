import Lyslg.Log.Tokens
import Lyslg.Support.Lines
/-!
# Percent signs in a pattern

In a pattern `%%` stands for a percent sign, but the outer loop of `init` only goes past the first
of the two.  The last percent sign of a run starts a directive then.
-/

namespace Lyslg.Log

open Http Numerals Support

/-- The text with its percent signs doubled. -/
def doublePercent (s : List UInt8) : List UInt8 :=
  s.flatMap fun c => if c = 37 then [37, 37] else [c]

/-- The pattern that doubles the percent signs is valid and writes the text. -/
def WritesText (convert : Conversions) (s : List UInt8) : Prop :=
  (LogFormatter.mk (doublePercent s)).isError = false ∧
    ∀ level event, (LogFormatter.mk (doublePercent s)).format convert level event = some s

/-- If something is written at all, it does not end like the text. -/
def EndsOtherwise (text : List UInt8) (out : Option (List UInt8)) : Prop :=
  ∀ o, out = some o → ∃ a b z z' w, text = a ++ z :: w ∧ o = b ++ z' :: w ∧ z ≠ z'

section Double

variable {s t name after : List UInt8} {c : UInt8}

theorem doublePercent_percent (s : List UInt8) :
    doublePercent (37 :: s) = 37 :: 37 :: doublePercent s := rfl

theorem doublePercent_cons (hc : c ≠ 37) (s : List UInt8) :
    doublePercent (c :: s) = c :: doublePercent s := by
  rw [doublePercent, List.flatMap_cons, if_neg hc]
  rfl

theorem doublePercent_eq_self (h : 37 ∉ s) : doublePercent s = s := by
  induction s with
  | nil => rfl
  | cons c s ih =>
      obtain ⟨hc, hs⟩ := List.ne_and_not_mem_of_not_mem_cons h
      rw [doublePercent_cons (Ne.symm hc), ih hs]

theorem head?_doublePercent (s : List UInt8) : (doublePercent s).head? = s.head? := by
  cases s with
  | nil => rfl
  | cons c s =>
      by_cases hc : c = 37
      · rw [hc]
        rfl
      · rw [doublePercent_cons hc]
        rfl

/-- A doubled text that starts with another character comes from one that does. -/
theorem doublePercent_cons_inv (hc : c ≠ 37) (h : doublePercent s = c :: after) :
    ∃ t, s = c :: t ∧ doublePercent t = after := by
  cases s with
  | nil => cases h
  | cons c' s =>
      have hhead := head?_doublePercent (c' :: s)
      rw [h] at hhead
      obtain rfl : c = c' := Option.some.inj hhead
      rw [doublePercent_cons hc] at h
      exact ⟨s, rfl, (List.cons.inj h).2⟩

theorem doublePercent_append_inv (hname : 37 ∉ name) (h : doublePercent s = name ++ after) :
    ∃ t, s = name ++ t ∧ doublePercent t = after := by
  induction name generalizing s with
  | nil => exact ⟨s, rfl, h⟩
  | cons c name ih =>
      obtain ⟨hc, hname⟩ := List.ne_and_not_mem_of_not_mem_cons hname
      obtain ⟨t, rfl, ht⟩ := doublePercent_cons_inv (Ne.symm hc) h
      obtain ⟨u, rfl, hu⟩ := ih hname ht
      exact ⟨u, rfl, hu⟩

theorem doublePercent_append (s t : List UInt8) :
    doublePercent (s ++ t) = doublePercent s ++ doublePercent t := List.flatMap_append

theorem mem_doublePercent : c ∈ doublePercent s ↔ c ∈ s := by
  rw [doublePercent, List.mem_flatMap]
  constructor
  · rintro ⟨c', hc', hmem⟩
    by_cases hpercent : c' = 37
    · rw [if_pos hpercent] at hmem
      have hc : c = 37 := by simpa using hmem
      rw [hc, ← hpercent]
      exact hc'
    · rw [if_neg hpercent, List.mem_singleton] at hmem
      rw [hmem]
      exact hc'
  · intro hc
    refine ⟨c, hc, ?_⟩
    by_cases hpercent : c = 37
    · rw [if_pos hpercent, hpercent]
      exact List.mem_cons_self
    · rw [if_neg hpercent]
      exact List.mem_singleton_self c

/-- The first of a character other than the percent sign is where it was. -/
theorem doublePercent_split (hc : c ≠ 37) {fmt : List UInt8} (hfmt : c ∉ fmt)
    (h : doublePercent s = fmt ++ c :: after) :
    ∃ g t, s = g ++ c :: t ∧ fmt = doublePercent g ∧ c ∉ g ∧ doublePercent t = after := by
  have hmem : c ∈ s := by
    rw [← mem_doublePercent, h]
    exact List.mem_append_right _ List.mem_cons_self
  obtain ⟨g, t, rfl, hg⟩ := List.eq_append_cons_of_mem hmem
  rw [doublePercent_append, doublePercent_cons hc] at h
  obtain ⟨hfmt', hafter⟩ := Lines.eq_of_first (mt mem_doublePercent.mp hg) hfmt h
  exact ⟨g, t, rfl, hfmt'.symm, hg, hafter⟩

theorem cStr_doublePercent (s : List UInt8) : cStr (doublePercent s) = doublePercent (cStr s) := by
  induction s with
  | nil => rfl
  | cons c s ih =>
      by_cases hzero : c = 0
      · rw [hzero]
        rfl
      · have hcons : cStr (c :: s) = c :: cStr s :=
          List.takeWhile_cons_of_pos (decide_eq_true hzero)
        by_cases hc : c = 37
        · rw [hcons, hc, doublePercent_percent, doublePercent_percent, ← ih]
          rfl
        · rw [hcons, doublePercent_cons hc, doublePercent_cons hc, ← ih]
          exact List.takeWhile_cons_of_pos (decide_eq_true hzero)

/-- Doubled percent signs are all that `strftime` finds. -/
theorem strftimeText_doublePercent (convert : Conversions) (time : Int) {fuel : Nat}
    (hfuel : (doublePercent s).length ≤ fuel) :
    strftimeText convert time fuel (doublePercent s) = s := by
  induction s generalizing fuel with
  | nil =>
      cases fuel with
      | zero => rfl
      | succ fuel => rfl
  | cons c s ih =>
      by_cases hc : c = 37
      · rw [hc, doublePercent_percent, List.length_cons, List.length_cons] at hfuel
        obtain ⟨fuel, rfl⟩ := Nat.exists_eq_add_of_le' (by omega : 1 ≤ fuel)
        rw [hc, doublePercent_percent, strftimeText, if_neg (not_not_intro rfl),
          List.head?_cons, if_pos rfl]
        exact congrArg (37 :: ·) (ih (by omega))
      · rw [doublePercent_cons hc, List.length_cons] at hfuel
        obtain ⟨fuel, rfl⟩ := Nat.exists_eq_add_of_le' (by omega : 1 ≤ fuel)
        rw [doublePercent_cons hc, strftimeText, if_pos hc, ih (by omega)]

end Double

/-! ## What the directives write -/

section Write

variable {convert : Conversions} {d : Directive} {g o text : List UInt8}
  {after : List Piece}

/-- An event with nothing to write but numbers. -/
def plainEvent : LogEvent where
  file := []
  line := 0
  elapse := 0
  threadId := 0
  fiberId := 0
  time := 0
  content := []
  loggerName := []
  threadName := []

theorem intText_zero : intText 0 = [48] := by decide

theorem chars_debug : chars "DEBUG" = [68, 69, 66, 85, 71] := by decide

/-- How an item other than the date ends for the plain event. -/
theorem getLast?_plainEvent (hd : d ≠ .dateTime) {fmt : List UInt8}
    (h : (FormatItem.directive d fmt).format convert .debug plainEvent = some o) :
    ∀ c ∈ o.getLast?, c ∈ [71, 48, 10, 9] := by
  cases d with
  | dateTime => exact absurd rfl hd
  | _ =>
      obtain rfl := Option.some.inj h
      simp [plainEvent, intText_zero, LogLevel.toString, chars_debug, cStr]

/-- A date with doubled percent signs writes part of its format, or nothing that is specified. -/
theorem format_dateTime (h : (FormatItem.directive .dateTime (doublePercent g)).format convert
    .debug plainEvent = some o) : ∀ c ∈ o, c ∈ g := by
  obtain ⟨buf, hbuf, rfl⟩ := Option.map_eq_some_iff.mp h
  rw [cStr_doublePercent, strftime, strftimeText_doublePercent convert _ (Nat.le_refl _)] at hbuf
  split_ifs at hbuf with hfits
  obtain rfl := Option.some.inj hbuf
  intro c hc
  exact (List.takeWhile_sublist _).subset ((List.takeWhile_sublist _).subset hc)

/-- A directive without a format does not write its letter last. -/
theorem getLast?_bare (h : (FormatItem.directive d []).format convert .debug plainEvent = some o) :
    ∀ c ∈ o.getLast?, c ≠ d.key := by
  by_cases hd : d = .dateTime
  · rw [hd] at h
    have hnone : o = [] := List.eq_nil_iff_forall_not_mem.mpr fun c hc =>
      List.not_mem_nil (format_dateTime (g := []) h c hc)
    rw [hnone]
    exact fun c hc => by cases hc
  · rintro c hc rfl
    have hlast := getLast?_plainEvent hd h _ hc
    cases d with
    | _ => exact absurd hlast (by decide)

/-- One with a format does not write a closing brace last. -/
theorem getLast?_braced (hg : 125 ∉ g)
    (h : (FormatItem.directive d (doublePercent g)).format convert .debug plainEvent = some o) :
    ∀ c ∈ o.getLast?, c ≠ 125 := by
  by_cases hd : d = .dateTime
  · rw [hd] at h
    rintro c hc rfl
    exact hg (format_dateTime h 125 (List.mem_of_getLast? hc))
  · rintro c hc rfl
    exact absurd (getLast?_plainEvent hd h _ hc) (by decide)

/-- What the entries of `vec` write for the plain event. -/
def written (convert : Conversions) (pieces : List Piece) : Option (List UInt8) :=
  formatAll convert .debug plainEvent (pieces.map Piece.item)

theorem formatAll_flush (convert : Conversions) (level : LogLevel) (event : LogEvent)
    (nstr : List UInt8) :
    formatAll convert level event ((flush nstr).map Piece.item) = some nstr := by
  rw [flush]
  by_cases hnil : nstr = []
  · rw [if_pos hnil, hnil]
    rfl
  · rw [if_neg hnil]
    exact congrArg some (List.append_nil nstr)

theorem written_flush (nstr : List UInt8) : written convert (flush nstr) = some nstr :=
  formatAll_flush convert _ _ nstr

theorem written_append (pieces after : List Piece) :
    written convert (pieces ++ after) =
      (written convert pieces).bind fun out => (written convert after).map (out ++ ·) := by
  induction pieces with
  | nil =>
      change written convert after =
        (some []).bind fun out => (written convert after).map (out ++ ·)
      cases written convert after with
      | none => rfl
      | some out => rfl
  | cons piece pieces ih =>
      change (piece.item.format convert .debug plainEvent).bind (fun out =>
          (written convert (pieces ++ after)).map (out ++ ·)) =
        ((piece.item.format convert .debug plainEvent).bind fun out =>
          (written convert pieces).map (out ++ ·)).bind fun out =>
            (written convert after).map (out ++ ·)
      rw [ih]
      cases piece.item.format convert .debug plainEvent with
      | none => rfl
      | some first =>
          cases written convert pieces with
          | none => rfl
          | some out =>
              cases written convert after with
              | none => rfl
              | some rest => exact congrArg some (List.append_assoc first out rest).symm

theorem written_append_inv {pieces after : List Piece}
    (h : written convert (pieces ++ after) = some o) :
    ∃ out rest, written convert pieces = some out ∧ written convert after = some rest ∧
      o = out ++ rest := by
  rw [written_append] at h
  obtain ⟨out, hout, hmap⟩ := Option.bind_eq_some_iff.mp h
  obtain ⟨rest, hrest, rfl⟩ := Option.map_eq_some_iff.mp hmap
  exact ⟨out, rest, hout, hrest, rfl⟩

/-- What is in front does not matter. -/
theorem EndsOtherwise.extend (h : EndsOtherwise text (written convert after)) (front : List UInt8)
    (pieces : List Piece) : EndsOtherwise (front ++ text) (written convert (pieces ++ after)) := by
  intro o ho
  obtain ⟨out, rest, _, hrest, rfl⟩ := written_append_inv ho
  obtain ⟨a, b, z, z', w, rfl, rfl, hne⟩ := h rest hrest
  exact ⟨front ++ a, out ++ b, z, z', w, by simp, by simp, hne⟩

/-- A text does not end otherwise than it does. -/
theorem EndsOtherwise.ne (h : EndsOtherwise text (some text)) : False := by
  obtain ⟨a, b, z, z', w, htext, hout, hne⟩ := h text rfl
  rw [htext] at hout
  have hlen : a.length = b.length := by
    have h := congrArg List.length hout
    simp only [List.length_append, List.length_cons] at h
    omega
  obtain ⟨_, hrest⟩ := List.append_inj hout hlen
  exact hne (List.cons.inj hrest).1

/-- The last directive: the text behind its `%` ends with `z` and then `w`, but what it writes does
not end with `z`. -/
theorem endsOtherwise_directive {fmt nstr w front : List UInt8} {z : UInt8} (hz : z ≠ 37)
    (hwrites : ∀ o, (FormatItem.directive d fmt).format convert .debug plainEvent = some o →
      ∀ c ∈ o.getLast?, c ≠ z) :
    EndsOtherwise (front ++ z :: w)
      (written convert (flush (nstr ++ [37]) ++ ⟨[d.key], fmt, true⟩ :: flush w)) := by
  intro out hout
  obtain ⟨texts, rest, htexts, hrest, rfl⟩ := written_append_inv hout
  rw [written_flush] at htexts
  obtain rfl := Option.some.inj htexts
  have hlast : written convert ([⟨[d.key], fmt, true⟩] ++ flush w) = some rest := hrest
  obtain ⟨item, after, hitem, hafter, rfl⟩ := written_append_inv hlast
  rw [written_flush] at hafter
  obtain rfl := Option.some.inj hafter
  have hformat : (FormatItem.directive d fmt).format convert .debug plainEvent = some item := by
    obtain ⟨o, ho, hnil⟩ := Option.bind_eq_some_iff.mp hitem
    have hsame : (Piece.mk [d.key] fmt true).item = .directive d fmt :=
      piece_item (.directive d (some fmt))
    rw [hsame] at ho
    have hitem : o ++ [] = item := Option.some.inj hnil
    rw [ho, ← hitem, List.append_nil]
  rcases List.eq_nil_or_concat' item with rfl | ⟨item, z', rfl⟩
  · exact ⟨front, nstr, z, 37, w, rfl, by simp, hz⟩
  · refine ⟨front, nstr ++ [37] ++ item, z, z', w, rfl, by simp, ?_⟩
    exact (hwrites _ hformat z' (by simp)).symm

end Write

/-! ## The whole pattern -/

section Pattern

variable {convert : Conversions} {s done nstr : List UInt8} {fuel : Nat}

/-- Every directive of the entries is known. -/
def AllKnown (pieces : List Piece) : Prop :=
  ∀ piece ∈ pieces, piece.directive = true → piece.str ∈ formatItems

theorem AllKnown.behind {pieces after : List Piece} {piece : Piece}
    (h : AllKnown (pieces ++ piece :: after)) : AllKnown after := fun p hp =>
  h p (List.mem_append_right _ (List.mem_cons_of_mem _ hp))

theorem AllKnown.known {pieces after : List Piece} {piece : Piece}
    (h : AllKnown (pieces ++ piece :: after)) (hdirective : piece.directive = true) :
    piece.str ∈ formatItems :=
  h piece (List.mem_append_right _ List.mem_cons_self) hdirective

/-- A known name is the letter of a directive. -/
theorem key_of_known {name : List UInt8} (h : name ∈ formatItems) :
    ∃ d : Directive, name = [d.key] := by
  cases hfind : findItem name with
  | none => exact absurd h (findItem_eq_none.mp hfind)
  | some d => exact ⟨d, findItem_inv hfind⟩

theorem initLoop_plain (done nstr : List UInt8) (h : 37 ∉ s) (hfuel : s.length ≤ fuel) :
    initLoop (done ++ s) fuel done.length nstr = (flush (nstr ++ s), false) := by
  obtain ⟨extra, rfl⟩ := Nat.exists_eq_add_of_le hfuel
  have hloop := initLoop_literal h done [] nstr extra
  rw [List.append_nil] at hloop
  rw [hloop, initLoop_end]

/-- A directive with the text behind it: the last one, or one with others to come. -/
theorem endsOtherwise_round {d : Directive} {fmt t before : List UInt8} {z : UInt8}
    (front nstr : List UInt8) (hz : z ≠ 37)
    (hwrites : ∀ o, (FormatItem.directive d fmt).format convert .debug plainEvent = some o →
      ∀ c ∈ o.getLast?, c ≠ z)
    (hfuel : (doublePercent t).length ≤ fuel)
    (ht : 37 ∈ t → EndsOtherwise t
      (written convert (initLoop (before ++ doublePercent t) fuel before.length []).1)) :
    EndsOtherwise (front ++ z :: t) (written convert (flush (nstr ++ [37]) ++
      ⟨[d.key], fmt, true⟩ :: (initLoop (before ++ doublePercent t) fuel before.length []).1)) := by
  by_cases hpercent : 37 ∈ t
  · have h := (ht hpercent).extend (front ++ [z]) (flush (nstr ++ [37]) ++ [⟨[d.key], fmt, true⟩])
    rwa [List.append_assoc, List.append_assoc] at h
  · rw [doublePercent_eq_self hpercent] at hfuel ⊢
    rw [initLoop_plain before [] hpercent hfuel, List.nil_append]
    exact endsOtherwise_directive hz hwrites

/-- The second percent sign of a pair, if it starts a directive.  What is known of shorter texts is
the hypothesis of the induction below. -/
theorem endsOtherwise_pair {convert : Conversions} {t : List UInt8} (hhead : t.head? ≠ some 37)
    (hfuel : (doublePercent t).length ≤ fuel)
    (hvalid : (initLoop (done ++ 37 :: doublePercent t) (fuel + 1) done.length (nstr ++ [37])).2 =
      false)
    (hknown : AllKnown
      (initLoop (done ++ 37 :: doublePercent t) (fuel + 1) done.length (nstr ++ [37])).1)
    (ih : ∀ before u, u.length ≤ t.length → 37 ∈ u → (doublePercent u).length ≤ fuel →
      (initLoop (before ++ doublePercent u) fuel before.length []).2 = false →
      AllKnown (initLoop (before ++ doublePercent u) fuel before.length []).1 →
      EndsOtherwise u
        (written convert (initLoop (before ++ doublePercent u) fuel before.length []).1)) :
    EndsOtherwise (37 :: t) (written convert
      (initLoop (done ++ 37 :: doublePercent t) (fuel + 1) done.length (nstr ++ [37])).1) := by
  rw [← head?_doublePercent] at hhead
  cases cut (doublePercent t) with
  | bare name after hsplit hname hends =>
      obtain ⟨u, rfl, rfl⟩ :=
        doublePercent_append_inv (fun hmem => (isNameChar_ne (hname 37 hmem)).1 rfl) hsplit
      rw [hsplit] at hhead hfuel hvalid hknown ⊢
      rw [initLoop_closed hhead (scan_bare done hname hends)] at hvalid hknown ⊢
      obtain ⟨d, rfl⟩ := key_of_known (AllKnown.known hknown rfl)
      have hpattern : done ++ 37 :: ([d.key] ++ doublePercent u) =
          (done ++ [37, d.key]) ++ doublePercent u := by simp
      have hbefore : done.length + 1 + [d.key].length = (done ++ [37, d.key]).length := by simp
      rw [hpattern, hbefore] at hvalid hknown ⊢
      have hrest : (doublePercent u).length ≤ fuel := by
        rw [List.length_append] at hfuel
        omega
      refine endsOtherwise_round [37] nstr (isNameChar_ne d.isNameChar_key).1
        (fun o ho => getLast?_bare ho) hrest fun hpercent => ?_
      exact ih _ u (by simp) hpercent hrest hvalid (AllKnown.behind hknown)
  | braced name fmt after hsplit hname hfmt =>
      obtain ⟨u, rfl, hbrace⟩ :=
        doublePercent_append_inv (fun hmem => (isNameChar_ne (hname 37 hmem)).1 rfl) hsplit
      obtain ⟨u, rfl, hformat⟩ := doublePercent_cons_inv (by decide) hbrace
      obtain ⟨g, u, rfl, rfl, hg, rfl⟩ := doublePercent_split (by decide) hfmt hformat
      rw [hsplit] at hhead hfuel hvalid hknown ⊢
      rw [initLoop_closed hhead (scan_braced done hname hfmt _)] at hvalid hknown ⊢
      obtain ⟨d, rfl⟩ := key_of_known (AllKnown.known hknown rfl)
      have hpattern :
          done ++ 37 :: ([d.key] ++ 123 :: (doublePercent g ++ 125 :: doublePercent u)) =
            (done ++ 37 :: d.key :: 123 :: (doublePercent g ++ [125])) ++ doublePercent u := by simp
      have hbefore : done.length + 1 + [d.key].length + 1 + (doublePercent g).length + 1 =
          (done ++ 37 :: d.key :: 123 :: (doublePercent g ++ [125])).length := by
        simp only [List.length_append, List.length_cons, List.length_nil]
        omega
      rw [hpattern, hbefore] at hvalid hknown ⊢
      have hrest : (doublePercent u).length ≤ fuel := by
        simp only [List.length_append, List.length_cons] at hfuel
        omega
      have hround := endsOtherwise_round (d := d) (37 :: d.key :: 123 :: g) nstr
        (by decide : (125 : UInt8) ≠ 37) (fun o ho => getLast?_braced hg ho) hrest
        fun hpercent => ih (done ++ 37 :: d.key :: 123 :: (doublePercent g ++ [125])) u
          (by simp only [List.length_append, List.length_cons]; omega) hpercent hrest hvalid
          (AllKnown.behind hknown)
      rw [List.cons_append, List.cons_append, List.cons_append] at hround
      exact hround
  | opened name fmt hsplit hname hfmt =>
      have hscan := scan_open done hname hfmt
      rw [← hsplit] at hscan
      rw [initLoop_opened hhead hscan] at hvalid
      cases hvalid

/-- By induction over the text: behind the last directive there is no percent sign, and what this
directive writes does not end as it does in the text. -/
theorem initLoop_doublePercent (convert : Conversions) (done nstr : List UInt8) (hpercent : 37 ∈ s)
    (hfuel : (doublePercent s).length ≤ fuel)
    (hvalid : (initLoop (done ++ doublePercent s) fuel done.length nstr).2 = false)
    (hknown : AllKnown (initLoop (done ++ doublePercent s) fuel done.length nstr).1) :
    EndsOtherwise s (written convert
      (initLoop (done ++ doublePercent s) fuel done.length nstr).1) := by
  induction hlen : s.length using Nat.strongRecOn generalizing s done nstr fuel with
  | ind len ih =>
      cases s with
      | nil => cases hpercent
      | cons c s =>
          rw [List.length_cons] at hlen
          by_cases hc : c = 37
          · subst hc
            rw [doublePercent_percent, List.length_cons, List.length_cons] at hfuel
            obtain ⟨fuel, rfl⟩ := Nat.exists_eq_add_of_le' (by omega : 2 ≤ fuel)
            have hhead : (37 :: doublePercent s).head? = some 37 := rfl
            have hfirst := initLoop_percent hhead done nstr (fuel + 1)
            have hpattern : done ++ 37 :: 37 :: doublePercent s =
                (done ++ [37]) ++ 37 :: doublePercent s := by simp
            have hdone : done.length + 1 = (done ++ [37]).length := by simp
            rw [doublePercent_percent, hfirst, hpattern, hdone] at hvalid hknown ⊢
            by_cases hnext : s.head? = some 37
            · -- another percent sign: both of the pair are in the text
              have hsecond := initLoop_percent ((head?_doublePercent s).trans hnext) (done ++ [37])
                (nstr ++ [37]) fuel
              have hpattern' : (done ++ [37]) ++ 37 :: doublePercent s =
                  (done ++ [37] ++ [37]) ++ doublePercent s := by simp
              have hdone' : (done ++ [37]).length + 1 = (done ++ [37] ++ [37]).length := by simp
              rw [hsecond, hpattern', hdone'] at hvalid hknown ⊢
              have hrest := ih s.length (by omega) _ _ (List.mem_of_mem_head? hnext) (by omega)
                hvalid hknown rfl
              exact hrest.extend [37] []
            · apply endsOtherwise_pair hnext (by omega) hvalid hknown
              intro before u hle hin hfits hvalid' hknown'
              exact ih u.length (by omega) before [] hin hfits hvalid' hknown' rfl
          · have hin : 37 ∈ s := (List.mem_cons.mp hpercent).resolve_left (Ne.symm hc)
            rw [doublePercent_cons hc, List.length_cons] at hfuel
            obtain ⟨fuel, rfl⟩ := Nat.exists_eq_add_of_le' (by omega : 1 ≤ fuel)
            have hpattern : done ++ c :: doublePercent s = (done ++ [c]) ++ doublePercent s := by
              simp
            have hdone : done.length + 1 = (done ++ [c]).length := by simp
            rw [doublePercent_cons hc, initLoop_text hc, hpattern, hdone] at hvalid hknown ⊢
            have hrest := ih s.length (by omega) _ _ hin (by omega) hvalid hknown rfl
            exact hrest.extend [c] []

end Pattern

/-- The text comes out exactly if it has no percent sign. -/
theorem writesText_iff (convert : Conversions) (s : List UInt8) :
    WritesText convert s ↔ 37 ∉ s := by
  constructor
  · rintro ⟨hvalid, hwrites⟩ hpercent
    rw [LogFormatter.isError, Bool.or_eq_false_iff, List.any_eq_false] at hvalid
    have hknown : AllKnown (LogFormatter.mk (doublePercent s)).pieces := by
      intro piece hpiece hdirective
      have hnot := hvalid.2 piece hpiece
      rw [hdirective, Bool.true_and, decide_eq_true_eq, not_not] at hnot
      exact hnot
    have hends : EndsOtherwise s (written convert (LogFormatter.mk (doublePercent s)).pieces) :=
      initLoop_doublePercent convert [] [] hpercent (Nat.le_refl _) hvalid.1 hknown
    have hout : written convert (LogFormatter.mk (doublePercent s)).pieces = some s :=
      hwrites .debug plainEvent
    rw [hout] at hends
    exact hends.ne
  · intro hpercent
    have hplain := initLoop_plain [] [] hpercent (Nat.le_refl _)
    rw [List.nil_append] at hplain
    rw [WritesText, doublePercent_eq_self hpercent]
    have hpieces : (LogFormatter.mk s).pieces = flush s := congrArg Prod.fst hplain
    constructor
    · rw [LogFormatter.isError, hpieces, Bool.or_eq_false_iff, List.any_eq_false]
      refine ⟨congrArg Prod.snd hplain, ?_⟩
      intro piece hpiece
      rw [flush] at hpiece
      split_ifs at hpiece with hnil
      · cases hpiece
      · rw [List.mem_singleton.mp hpiece]
        exact Bool.false_ne_true
    · intro level event
      rw [LogFormatter.format, LogFormatter.items, hpieces]
      exact formatAll_flush convert level event s

/-- A single percent sign: the pattern `%%` is in error. -/
theorem writesText_percent : ¬ WritesText (fun _ _ => ([], 1)) [37] := by
  intro h
  exact absurd h.1 (by decide)

end Lyslg.Log
