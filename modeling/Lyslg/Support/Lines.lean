import Mathlib.Data.List.Basic
/-!
# Lines with a terminator of two symbols

A text is read line by line up to a blank one, and `lines` cuts a text that may hold terminators
itself.  What was written line by line is read back: the cut lines before the first blank one, and
behind it what followed that.
-/

namespace Lyslg.Support.Lines

variable {α : Type*}

/-- The first of a symbol is in one place. -/
theorem eq_of_first {c : α} {l m rest rest' : List α} (hl : c ∉ l) (hm : c ∉ m)
    (h : l ++ c :: rest = m ++ c :: rest') : l = m ∧ rest = rest' := by
  induction l generalizing m with
  | nil =>
      cases m with
      | nil => exact ⟨rfl, (List.cons.inj h).2⟩
      | cons d m => exact absurd ((List.cons.inj h).1 ▸ List.mem_cons_self) hm
  | cons d l ih =>
      obtain ⟨hd, hl⟩ := List.ne_and_not_mem_of_not_mem_cons hl
      cases m with
      | nil => exact absurd (List.cons.inj h).1.symm hd
      | cons e m =>
          obtain ⟨rfl, hrest⟩ := List.cons.inj h
          obtain ⟨rfl, rfl⟩ := ih hl (List.ne_and_not_mem_of_not_mem_cons hm).2 hrest
          exact ⟨rfl, rfl⟩

/-! ## Printing -/

/-- Lines with their terminators. -/
def printed (a b : α) (ls : List (List α)) : List α := ls.flatMap (· ++ [a, b])

/-- What is behind the first blank line of `ls`, or behind one that follows them. -/
def behind (a b : α) : List (List α) → List α → List α
  | [], rest => rest
  | [] :: ls, rest => printed a b ls ++ a :: b :: rest
  | (_ :: _) :: ls, rest => behind a b ls rest

variable {a b : α}

@[simp] theorem printed_nil : printed a b [] = [] := rfl

theorem printed_append (ls ms : List (List α)) :
    printed a b (ls ++ ms) = printed a b ls ++ printed a b ms := List.flatMap_append

theorem printed_cons (l : List α) (ls : List (List α)) :
    printed a b (l :: ls) = l ++ a :: b :: printed a b ls := by
  rw [printed, List.flatMap_cons, List.append_assoc]
  rfl

theorem length_le_printed (ls : List (List α)) : ls.length ≤ (printed a b ls).length := by
  induction ls with
  | nil => exact Nat.zero_le _
  | cons l ls ih =>
      rw [printed_cons, List.length_append, List.length_cons, List.length_cons, List.length_cons]
      omega

/-- Only behind the last blank line there is what follows the lines. -/
theorem behind_eq_iff (ls : List (List α)) (rest : List α) :
    behind a b ls rest = rest ↔ [] ∉ ls := by
  induction ls with
  | nil => exact iff_of_true rfl List.not_mem_nil
  | cons l ls ih =>
      cases l with
      | nil =>
          refine iff_of_false (fun h => ?_) (fun h => h List.mem_cons_self)
          have hlength := congrArg List.length h
          rw [behind, List.length_append, List.length_cons, List.length_cons] at hlength
          omega
      | cons c line =>
          rw [behind, ih, List.mem_cons, not_or]
          exact (and_iff_right (List.cons_ne_nil c line).symm).symm

section Reading

variable [DecidableEq α]

/-- The first line, and what is behind its terminator `a`, `b`. -/
def readLine (a b : α) : List α → Option (List α × List α)
  | [] => none
  | [_] => none
  | c :: d :: rest =>
      if c = a ∧ d = b then some ([], rest)
      else (readLine a b (d :: rest)).map fun line => (c :: line.1, line.2)

/-- The lines before the first blank one, and what is behind that. -/
def readBlock (a b : α) : Nat → List α → Option (List (List α) × List α)
  | 0, _ => none
  | fuel + 1, text =>
      match readLine a b text with
      | none => none
      | some ([], rest) => some ([], rest)
      | some (c :: line, rest) =>
          (readBlock a b fuel rest).map fun block => ((c :: line) :: block.1, block.2)

/-- A text with a first line of its own: the lines of the block behind it, and what follows. -/
def readText (a b : α) (text : List α) : Option (List (List α) × List α) :=
  (readLine a b text).bind fun first => readBlock a b text.length first.2

/-- A text cut at its terminators. -/
def lines (a b : α) : List α → List (List α)
  | [] => [[]]
  | [c] => [[c]]
  | c :: d :: rest =>
      if c = a ∧ d = b then [] :: lines a b rest
      else (lines a b (d :: rest)).modifyHead (c :: ·)

/-- A text that is read as one line, whatever follows it. -/
def IsLine (a b : α) (l : List α) : Prop :=
  ∀ rest, readLine a b (l ++ a :: b :: rest) = some (l, rest)

/-! ## Cutting -/

theorem isLine_nil : IsLine a b [] := fun _ => if_pos ⟨rfl, rfl⟩

theorem IsLine.cons {c : α} {l : List α} (h : IsLine a b l)
    (hhead : ∀ rest, ∃ d more, l ++ a :: b :: rest = d :: more ∧ ¬ (c = a ∧ d = b)) :
    IsLine a b (c :: l) := by
  intro rest
  obtain ⟨d, more, heq, hne⟩ := hhead rest
  have hline := h rest
  rw [heq] at hline
  rw [List.cons_append, heq, readLine, if_neg hne, hline]
  rfl

/-- The first line of a text begins as the text does, or is blank. -/
theorem lines_head (d : α) (rest : List α) :
    ∃ l ls, lines a b (d :: rest) = l :: ls ∧ (l = [] ∨ ∃ more, l = d :: more) := by
  induction rest generalizing d with
  | nil => exact ⟨[d], [], rfl, .inr ⟨[], rfl⟩⟩
  | cons e rest ih =>
      rw [lines]
      split_ifs with hend
      · exact ⟨[], _, rfl, .inl rfl⟩
      · obtain ⟨l, ls, heq, _⟩ := ih e
        rw [heq]
        exact ⟨d :: l, ls, rfl, .inr ⟨l, rfl⟩⟩

theorem exists_lines_cons (t : List α) : ∃ l ls, lines a b t = l :: ls := by
  cases t with
  | nil => exact ⟨[], [], rfl⟩
  | cons d rest =>
      obtain ⟨l, ls, heq, _⟩ := lines_head (a := a) (b := b) d rest
      exact ⟨l, ls, heq⟩

theorem lines_isLine (hab : a ≠ b) (t : List α) : ∀ l ∈ lines a b t, IsLine a b l := by
  induction t using lines.induct a b with
  | case1 =>
      intro l hl
      rw [List.mem_singleton.mp hl]
      exact isLine_nil
  | case2 c =>
      intro l hl
      rw [List.mem_singleton.mp hl]
      exact isLine_nil.cons fun rest => ⟨a, b :: rest, rfl, fun h => hab h.2⟩
  | case3 c d rest hend ih =>
      rw [lines, if_pos hend]
      exact List.forall_mem_cons.mpr ⟨isLine_nil, ih⟩
  | case4 c d rest hend ih =>
      obtain ⟨l, ls, heq, hl⟩ := lines_head (a := a) (b := b) d rest
      rw [heq] at ih
      rw [lines, if_neg hend, heq]
      obtain ⟨hfirst, hothers⟩ := List.forall_mem_cons.mp ih
      refine List.forall_mem_cons.mpr ⟨hfirst.cons fun rest' => ?_, hothers⟩
      rcases hl with rfl | ⟨more, rfl⟩
      · exact ⟨a, b :: rest', rfl, fun h => hab h.2⟩
      · exact ⟨d, more ++ a :: b :: rest', rfl, hend⟩

/-- Cutting loses nothing. -/
theorem printed_lines (t : List α) : printed a b (lines a b t) = t ++ [a, b] := by
  induction t using lines.induct a b with
  | case1 => rfl
  | case2 c => rfl
  | case3 c d rest hend ih =>
      rw [lines, if_pos hend, hend.1, hend.2]
      exact congrArg ([a, b] ++ ·) ih
  | case4 c d rest hend ih =>
      obtain ⟨l, ls, heq⟩ := exists_lines_cons (a := a) (b := b) (d :: rest)
      rw [heq] at ih
      rw [lines, if_neg hend, heq]
      exact congrArg (c :: ·) ih

/-- A text that is a line is not cut. -/
theorem IsLine.lines_eq (hab : a ≠ b) {l : List α} (h : IsLine a b l) : lines a b l = [l] := by
  obtain ⟨first, ls, heq⟩ := exists_lines_cons (a := a) (b := b) l
  have hfirst := lines_isLine hab l first (by rw [heq]; exact List.mem_cons_self)
  have hjoin := printed_lines (a := a) (b := b) l
  rw [heq] at hjoin
  have hread := h []
  have hsame : l ++ [a, b] = first ++ a :: b :: printed a b ls := by
    rw [← hjoin, printed, List.flatMap_cons, List.append_assoc]
    rfl
  rw [hsame, hfirst] at hread
  obtain ⟨rfl, hrest⟩ := Prod.mk.inj (Option.some.inj hread)
  cases ls with
  | nil => exact heq
  | cons second ls =>
      rw [printed, List.flatMap_cons] at hrest
      have hlength := congrArg List.length hrest
      simp only [List.length_append, List.length_cons, List.length_nil] at hlength
      omega

/-- Every printed segment may be cut. -/
theorem printed_flatMap_lines (segments : List (List α)) :
    printed a b (segments.flatMap (lines a b)) = printed a b segments := by
  induction segments with
  | nil => rfl
  | cons segment segments ih =>
      rw [List.flatMap_cons, printed_append, ih, printed_lines, printed_cons, List.append_assoc]
      rfl

theorem isLine_of_not_mem {l : List α} (h : a ∉ l) : IsLine a b l := by
  induction l with
  | nil => exact isLine_nil
  | cons c l ih =>
      obtain ⟨hc, hl⟩ := List.ne_and_not_mem_of_not_mem_cons h
      refine (ih hl).cons fun rest => ?_
      cases l with
      | nil => exact ⟨a, b :: rest, rfl, fun h => hc h.1.symm⟩
      | cons d more => exact ⟨d, more ++ a :: b :: rest, rfl, fun h => hc h.1.symm⟩

/-! ## Reading -/

theorem readBlock_printed {fuel : Nat} {ls : List (List α)} (hls : ∀ l ∈ ls, IsLine a b l)
    (hfuel : ls.length < fuel) (rest : List α) :
    readBlock a b fuel (printed a b ls ++ a :: b :: rest) =
      some (ls.takeWhile (· ≠ []), behind a b ls rest) := by
  induction ls generalizing fuel with
  | nil =>
      obtain ⟨fuel, rfl⟩ : ∃ n, fuel = n + 1 := ⟨fuel - 1, by simp at hfuel; omega⟩
      have hread : readLine a b (a :: b :: rest) = some ([], rest) := isLine_nil rest
      simp only [printed, List.flatMap_nil, List.nil_append, readBlock, hread]
      rfl
  | cons l ls ih =>
      obtain ⟨fuel, rfl⟩ : ∃ n, fuel = n + 1 := ⟨fuel - 1, by simp at hfuel; omega⟩
      obtain ⟨hl, hmore⟩ := List.forall_mem_cons.mp hls
      have hread := hl (printed a b ls ++ a :: b :: rest)
      rw [printed_cons, List.append_assoc, List.cons_append, List.cons_append]
      cases l with
      | nil =>
          simp only [readBlock, hread]
          rfl
      | cons c line =>
          have hblock := ih hmore (Nat.lt_of_succ_lt_succ hfuel)
          simp only [readBlock, hread, hblock]
          rfl

/-- Segments are read as the lines they are cut into. -/
theorem readText_printed (hab : a ≠ b) (start : List α) (segments : List (List α)) (rest : List α) :
    let ls := (lines a b start).tail ++ segments.flatMap (lines a b)
    readText a b (printed a b (start :: segments) ++ a :: b :: rest) =
      some (ls.takeWhile (· ≠ []), behind a b ls rest) := by
  intro ls
  obtain ⟨first, more, heq⟩ := exists_lines_cons (a := a) (b := b) start
  have hfirst := lines_isLine hab start first (by rw [heq]; exact List.mem_cons_self)
  have hls : ∀ l ∈ ls, IsLine a b l := by
    intro l hl
    rcases List.mem_append.mp hl with hl | hl
    · exact lines_isLine hab start l (List.mem_of_mem_tail hl)
    · obtain ⟨segment, _, hl⟩ := List.mem_flatMap.mp hl
      exact lines_isLine hab segment l hl
  have htext : printed a b (start :: segments) = first ++ a :: b :: printed a b ls := by
    have hall : (start :: segments).flatMap (lines a b) = first :: ls := by
      rw [List.flatMap_cons, heq]
      simp only [ls, heq, List.tail_cons, List.cons_append]
    rw [← printed_flatMap_lines, hall, printed_cons]
  rw [htext, List.append_assoc, List.cons_append, List.cons_append, readText, hfirst,
    Option.bind_some]
  refine readBlock_printed hls ?_ rest
  have hlength := length_le_printed (a := a) (b := b) ls
  simp only [List.length_append, List.length_cons]
  omega

end Reading

end Lyslg.Support.Lines
