import Lyslg.Log.Format
/-!
# How `init` cuts a pattern

The inner loop of `init` in terms of the text behind a `%`: a name of letters and closing braces,
and a format in braces or none.  Then one round of the outer loop for each thing that may come next.
-/

namespace Lyslg.Log

open Http

/-- The characters the inner loop goes over while no brace is open. -/
def isNameChar (c : UInt8) : Bool := isAlpha c || c = 125

/-- A name ends in front of the text. -/
def EndsName (after : List UInt8) : Prop :=
  ∀ c ∈ after.head?, isNameChar c = false ∧ c ≠ 123

variable {pattern done name fmt after rest nstr str : List UInt8} {c : UInt8}
  {i n fmtBegin fuel : Nat}

/-! ## The inner loop -/

theorem isNameChar_ne (h : isNameChar c = true) : c ≠ 37 ∧ c ≠ 123 := by
  constructor
  · rintro rfl
    exact absurd h (by decide)
  · rintro rfl
    exact absurd h (by decide)

/-- No brace is open and the name goes on. -/
theorem scan_nameChar (pattern : List UInt8) (i n : Nat) (rest : List UInt8)
    (hc : isNameChar c = true) (str : List UInt8) :
    ∃ str', scanDirective pattern i (c :: rest) n none str =
        scanDirective pattern i rest (n + 1) none str' ∧
      str' = if n + 1 = pattern.length ∧ str = [] then pattern.drop (i + 1) else str := by
  have hstop : ¬ (!isAlpha c && c ≠ 123 && c ≠ 125) = true := by
    rw [isNameChar, Bool.or_eq_true, decide_eq_true_eq] at hc
    rcases hc with halpha | rfl
    · simp [halpha]
    · decide
  refine ⟨_, ?_, rfl⟩
  rw [scanDirective]
  simp only [hstop, if_neg (isNameChar_ne hc).2]
  rfl

/-- The name ends at another character. -/
theorem scan_stop (hc : isNameChar c = false ∧ c ≠ 123) :
    scanDirective pattern i (c :: rest) n none str =
      ⟨n, false, substr pattern (i + 1) (n - i - 1), []⟩ := by
  have hstop : (!isAlpha c && c ≠ 123 && c ≠ 125) = true := by
    rw [isNameChar, Bool.or_eq_false_iff, decide_eq_false_iff_not] at hc
    simp [hc.1.1, hc.1.2, hc.2]
  rw [scanDirective]
  simp only [hstop, if_true]

/-- The name ends at a brace. -/
theorem scan_brace : scanDirective pattern i (123 :: rest) n none str =
    scanDirective pattern i rest (n + 1) (some n) (substr pattern (i + 1) (n - i - 1)) := by
  rw [scanDirective]
  rfl

theorem scan_name (hname : ∀ c ∈ name, isNameChar c = true) (after str : List UInt8)
    (hlt : n + name.length < pattern.length) :
    scanDirective pattern i (name ++ after) n none str =
      scanDirective pattern i after (n + name.length) none str := by
  induction name generalizing n with
  | nil => rfl
  | cons c name ih =>
      obtain ⟨hc, hname⟩ := List.forall_mem_cons.mp hname
      rw [List.length_cons] at hlt
      obtain ⟨str', hscan, hstr⟩ := scan_nameChar pattern i n (name ++ after) hc str
      rw [if_neg (by omega)] at hstr
      rw [List.cons_append, hscan, hstr, ih hname (by omega), List.length_cons, Nat.add_assoc,
        Nat.add_comm 1]

/-- A name up to the end of the pattern. -/
theorem scan_name_end (hname : ∀ c ∈ name, isNameChar c = true)
    (hlen : i + 1 + name.length = pattern.length) :
    scanDirective pattern i name (i + 1) none [] =
      ⟨pattern.length, false, pattern.drop (i + 1), []⟩ := by
  rcases List.eq_nil_or_concat' name with rfl | ⟨front, c, rfl⟩
  · rw [List.length_nil, Nat.add_zero] at hlen
    rw [scanDirective, hlen, List.drop_length]
    rfl
  · have hfront : ∀ c ∈ front, isNameChar c = true := fun c hc =>
      hname c (List.mem_append_left _ hc)
    have hc : isNameChar c = true := hname c (List.mem_append_right _ (List.mem_singleton_self c))
    rw [List.length_append, List.length_singleton] at hlen
    obtain ⟨str', hscan, hstr⟩ := scan_nameChar pattern i (i + 1 + front.length) [] hc []
    rw [if_pos ⟨by omega, rfl⟩] at hstr
    rw [scan_name hfront [c] [] (by omega), hscan, hstr, scanDirective, ← hlen]
    rfl

/-- The format ends at its closing brace. -/
theorem scan_format (hfmt : 125 ∉ fmt) (after str : List UInt8)
    (hlt : n + fmt.length < pattern.length) :
    scanDirective pattern i (fmt ++ 125 :: after) n (some fmtBegin) str =
      ⟨n + fmt.length + 1, false, str,
        substr pattern (fmtBegin + 1) (n + fmt.length - fmtBegin - 1)⟩ := by
  induction fmt generalizing n with
  | nil =>
      rw [List.nil_append, scanDirective, if_pos rfl]
      rfl
  | cons c fmt ih =>
      obtain ⟨hc, hfmt⟩ := List.ne_and_not_mem_of_not_mem_cons hfmt
      rw [List.length_cons] at hlt
      have hnext : n + 1 + fmt.length = n + (fmt.length + 1) := by omega
      rw [List.cons_append, scanDirective, if_neg (Ne.symm hc), if_neg (by omega),
        ih hfmt (by omega), List.length_cons, hnext]

/-- A format that does not end. -/
theorem scan_format_open (hfmt : 125 ∉ fmt) (n : Nat) (str : List UInt8) :
    (scanDirective pattern i fmt n (some fmtBegin) str).opened = true := by
  induction fmt generalizing n str with
  | nil => rfl
  | cons c fmt ih =>
      obtain ⟨hc, hfmt⟩ := List.ne_and_not_mem_of_not_mem_cons hfmt
      rw [scanDirective, if_neg (Ne.symm hc)]
      exact ih hfmt _ _

/-! ## A directive -/

theorem substr_append (a b c : List UInt8) : substr (a ++ (b ++ c)) a.length b.length = b := by
  rw [substr, List.drop_left, List.take_left]

theorem substr_behind (done name after : List UInt8) (c : UInt8) :
    substr (done ++ c :: (name ++ after)) (done.length + 1)
      (done.length + 1 + name.length - done.length - 1) = name := by
  have hcount : done.length + 1 + name.length - done.length - 1 = name.length := by omega
  have h := substr_append (done ++ [c]) name after
  rw [List.length_append, List.length_singleton, List.append_assoc, List.singleton_append] at h
  rw [hcount, h]

theorem scan_bare (done : List UInt8) (hname : ∀ c ∈ name, isNameChar c = true)
    (hafter : EndsName after) :
    scanDirective (done ++ 37 :: (name ++ after)) done.length (name ++ after) (done.length + 1)
      none [] = ⟨done.length + 1 + name.length, false, name, []⟩ := by
  have hlen : (done ++ 37 :: (name ++ after)).length =
      done.length + 1 + name.length + after.length := by
    rw [List.length_append, List.length_cons, List.length_append]
    omega
  cases after with
  | nil =>
      have hdrop : (done ++ 37 :: (name ++ [])).drop (done.length + 1) = name := by
        rw [List.append_nil, ← List.drop_drop, List.drop_left]
        rfl
      rw [List.length_nil, Nat.add_zero] at hlen
      have hscan := scan_name_end hname hlen.symm
      rw [hdrop, hlen] at hscan
      rw [List.append_nil] at hscan ⊢
      exact hscan
  | cons c after =>
      rw [List.length_cons] at hlen
      rw [scan_name hname (c :: after) [] (by omega), scan_stop (hafter c rfl), substr_behind]

theorem scan_braced (done : List UInt8) (hname : ∀ c ∈ name, isNameChar c = true)
    (hfmt : 125 ∉ fmt) (after : List UInt8) :
    scanDirective (done ++ 37 :: (name ++ 123 :: (fmt ++ 125 :: after))) done.length
      (name ++ 123 :: (fmt ++ 125 :: after)) (done.length + 1) none [] =
      ⟨done.length + 1 + name.length + 1 + fmt.length + 1, false, name, fmt⟩ := by
  have hlen : (done ++ 37 :: (name ++ 123 :: (fmt ++ 125 :: after))).length =
      done.length + 1 + name.length + 1 + fmt.length + 1 + after.length := by
    simp only [List.length_append, List.length_cons]
    omega
  have hfront : (done ++ 37 :: name).length = done.length + 1 + name.length := by
    rw [List.length_append, List.length_cons]
    omega
  have hformat := substr_behind (done ++ 37 :: name) fmt (125 :: after) 123
  rw [hfront, List.append_assoc, List.cons_append] at hformat
  rw [scan_name hname _ [] (by omega), scan_brace, scan_format hfmt after _ (by omega),
    substr_behind, hformat]

theorem scan_open (done : List UInt8) (hname : ∀ c ∈ name, isNameChar c = true)
    (hfmt : 125 ∉ fmt) :
    (scanDirective (done ++ 37 :: (name ++ 123 :: fmt)) done.length (name ++ 123 :: fmt)
      (done.length + 1) none []).opened = true := by
  have hlen : (done ++ 37 :: (name ++ 123 :: fmt)).length =
      done.length + 1 + name.length + 1 + fmt.length := by
    simp only [List.length_append, List.length_cons]
    omega
  rw [scan_name hname _ [] (by omega), scan_brace]
  exact scan_format_open hfmt _ _

/-- What is behind a `%`: a name with or without a format, or a format that does not end. -/
inductive Cut (rest : List UInt8) : Prop where
  | bare (name after : List UInt8) : rest = name ++ after → (∀ c ∈ name, isNameChar c = true) →
      EndsName after → Cut rest
  | braced (name fmt after : List UInt8) : rest = name ++ 123 :: (fmt ++ 125 :: after) →
      (∀ c ∈ name, isNameChar c = true) → 125 ∉ fmt → Cut rest
  | opened (name fmt : List UInt8) : rest = name ++ 123 :: fmt →
      (∀ c ∈ name, isNameChar c = true) → 125 ∉ fmt → Cut rest

theorem cut (rest : List UInt8) : Cut rest := by
  have hname : ∀ c ∈ rest.takeWhile isNameChar, isNameChar c = true := fun c hc =>
    List.mem_takeWhile_imp hc
  have hsplit := List.takeWhile_append_dropWhile (p := isNameChar) (l := rest)
  have hhead := List.head?_dropWhile_not isNameChar rest
  cases htail : rest.dropWhile isNameChar with
  | nil =>
      rw [htail] at hsplit
      exact .bare _ [] hsplit.symm hname fun c hc => by cases hc
  | cons c tail =>
      rw [htail] at hsplit hhead
      by_cases hbrace : c = 123
      · rw [hbrace] at hsplit
        by_cases hclosed : 125 ∈ tail
        · obtain ⟨fmt, after, rfl, hfmt⟩ := List.eq_append_cons_of_mem hclosed
          exact .braced _ fmt after hsplit.symm hname hfmt
        · exact .opened _ tail hsplit.symm hname hclosed
      · refine .bare _ (c :: tail) hsplit.symm hname ?_
        intro c' hc'
        rw [List.head?_cons, Option.mem_some_iff] at hc'
        rw [← hc']
        exact ⟨by simpa using hhead, hbrace⟩

/-! ## One round of the outer loop -/

theorem initLoop_end (pattern nstr : List UInt8) (fuel : Nat) :
    initLoop pattern fuel pattern.length nstr = (flush nstr, false) := by
  cases fuel with
  | zero => rfl
  | succ fuel => rw [initLoop, List.getElem?_eq_none (Nat.le_refl _)]

theorem getElem?_behind (done rest : List UInt8) (c : UInt8) :
    (done ++ c :: rest)[done.length]? = some c ∧
      (done ++ c :: rest)[done.length + 1]? = rest.head? := by
  constructor
  · rw [List.getElem?_append_right (Nat.le_refl _), Nat.sub_self]
    rfl
  · rw [List.getElem?_append_right (by omega), Nat.add_sub_cancel_left, List.head?_eq_getElem?]
    rfl

theorem drop_behind (done rest : List UInt8) (c : UInt8) :
    (done ++ c :: rest).drop (done.length + 1) = rest := by
  rw [← List.drop_drop, List.drop_left]
  rfl

theorem initLoop_text (hc : c ≠ 37) (done rest nstr : List UInt8) (fuel : Nat) :
    initLoop (done ++ c :: rest) (fuel + 1) done.length nstr =
      initLoop (done ++ c :: rest) fuel (done.length + 1) (nstr ++ [c]) := by
  rw [initLoop, (getElem?_behind done rest c).1]
  exact if_pos hc

theorem initLoop_percent (hrest : rest.head? = some 37) (done nstr : List UInt8) (fuel : Nat) :
    initLoop (done ++ 37 :: rest) (fuel + 1) done.length nstr =
      initLoop (done ++ 37 :: rest) fuel (done.length + 1) (nstr ++ [37]) := by
  rw [initLoop, (getElem?_behind done rest 37).1, (getElem?_behind done rest 37).2, hrest]
  rfl

theorem initLoop_closed (hrest : rest.head? ≠ some 37)
    (hscan : scanDirective (done ++ 37 :: rest) done.length rest (done.length + 1) none [] =
      ⟨n, false, str, fmt⟩) (nstr : List UInt8) (fuel : Nat) :
    initLoop (done ++ 37 :: rest) (fuel + 1) done.length nstr =
      (flush nstr ++ ⟨str, fmt, true⟩ :: (initLoop (done ++ 37 :: rest) fuel n []).1,
        (initLoop (done ++ 37 :: rest) fuel n []).2) := by
  rw [initLoop, (getElem?_behind done rest 37).1, (getElem?_behind done rest 37).2, drop_behind,
    hscan]
  simp only [if_neg hrest]
  rfl

theorem initLoop_opened (hrest : rest.head? ≠ some 37)
    (hscan : (scanDirective (done ++ 37 :: rest) done.length rest (done.length + 1) none []).opened
      = true) (nstr : List UInt8) (fuel : Nat) :
    (initLoop (done ++ 37 :: rest) (fuel + 1) done.length nstr).2 = true := by
  rw [initLoop, (getElem?_behind done rest 37).1, (getElem?_behind done rest 37).2, drop_behind]
  simp only [if_neg hrest, hscan]
  rfl

end Lyslg.Log
