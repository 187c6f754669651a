import Lyslg.Util.Numerals
/-!
# The text form of IPv6 addresses

Eight groups of hexadecimal digits with a colon between them, where `::` may stand once for one or
more groups of zeros.  A text denotes one list of values, which a decoder computes.
-/

namespace Lyslg.Address

open Http StringUtil Numerals

/-- One to four hexadecimal digits. -/
def isGroup (text : List UInt8) : Bool :=
  decide (0 < text.length) && decide (text.length ≤ 4) && text.all fun c => (hexValue c).isSome

def joined (texts : List (List UInt8)) : List UInt8 := [58].intercalate texts

/-- The text denotes the values of eight groups. -/
inductive TextOf : List UInt8 → List Nat → Prop
  | full (texts : List (List UInt8)) (hgroups : ∀ t ∈ texts, isGroup t)
      (hlength : texts.length = 8) : TextOf (joined texts) (texts.map (numeralValue 16))
  | compressed (left right : List (List UInt8)) (n : Nat) (hleft : ∀ t ∈ left, isGroup t)
      (hright : ∀ t ∈ right, isGroup t) (hpos : 0 < n)
      (hlength : left.length + n + right.length = 8) :
      TextOf (joined left ++ 58 :: 58 :: joined right)
        (left.map (numeralValue 16) ++ List.replicate n 0 ++ right.map (numeralValue 16))

/-! ## The decoder -/

/-- The text in front of the first `::` and behind it. -/
def cut : List UInt8 → Option (List UInt8 × List UInt8)
  | a :: b :: rest =>
      if a = 58 ∧ b = 58 then some ([], rest)
      else (cut (b :: rest)).map fun halves => (a :: halves.1, halves.2)
  | _ => none

def pieces (text : List UInt8) : List (List UInt8) :=
  if text.isEmpty then [] else text.splitOn 58

/-- The values that a text denotes, if it is a text of eight groups. -/
def decode (text : List UInt8) : Option (List Nat) :=
  match cut text with
  | none =>
      if (pieces text).all isGroup && (pieces text).length == 8 then
        some ((pieces text).map (numeralValue 16))
      else none
  | some (left, right) =>
      let front := pieces left
      let back := pieces right
      if front.all isGroup && back.all isGroup && decide (front.length + back.length < 8) then
        some (front.map (numeralValue 16) ++ List.replicate (8 - (front.length + back.length)) 0 ++
          back.map (numeralValue 16))
      else none

section Decoding

variable {text t rest : List UInt8} {texts left right : List (List UInt8)}

/-! ## Groups and colons -/

theorem hexValue_colon : hexValue 58 = none := rfl

theorem isGroup_iff : isGroup text = true ↔
    0 < text.length ∧ text.length ≤ 4 ∧ ∀ c ∈ text, (hexValue c).isSome := by
  rw [isGroup, Bool.and_eq_true, Bool.and_eq_true, decide_eq_true_iff, decide_eq_true_iff,
    List.all_eq_true, and_assoc]

theorem isGroup_ne_nil (h : isGroup text) : text ≠ [] := by
  exact List.length_pos_iff.mp (isGroup_iff.mp h).1

theorem colon_not_mem (h : isGroup text) : 58 ∉ text := by
  intro hmem
  have hsome := (isGroup_iff.mp h).2.2 58 hmem
  rw [hexValue_colon] at hsome
  cases hsome

theorem joined_cons (t : List UInt8) (texts : List (List UInt8)) :
    joined (t :: texts) = t ++ texts.flatMap fun t => 58 :: t := by
  induction texts generalizing t with
  | nil => rw [joined, List.intercalate_singleton, List.flatMap_nil, List.append_nil]
  | cons t' texts ih =>
      rw [joined, List.intercalate_cons_cons, ← joined, ih t', List.flatMap_cons, List.append_assoc]
      rfl

theorem joined_cons_cons (t t' : List UInt8) (texts : List (List UInt8)) :
    joined (t :: t' :: texts) = t ++ 58 :: joined (t' :: texts) := by
  rw [joined, List.intercalate_cons_cons, List.append_assoc]
  rfl

/-- No text of groups starts with a colon. -/
theorem head_joined (h : ∀ t ∈ texts, isGroup t) (hne : texts ≠ []) :
    ∃ c rest, c ≠ 58 ∧ joined texts = c :: rest := by
  cases texts with
  | nil => exact absurd rfl hne
  | cons t texts =>
      have hgroup := h t List.mem_cons_self
      cases t with
      | nil => exact absurd rfl (isGroup_ne_nil hgroup)
      | cons c t =>
          refine ⟨c, t ++ texts.flatMap fun t => 58 :: t, ?_, joined_cons _ _⟩
          exact fun hc => colon_not_mem hgroup (by rw [hc]; exact List.mem_cons_self)

theorem pieces_joined (h : ∀ t ∈ texts, isGroup t) : pieces (joined texts) = texts := by
  by_cases hne : texts = []
  · rw [hne]
    rfl
  · obtain ⟨c, rest, _, hjoined⟩ := head_joined h hne
    have hempty : (joined texts).isEmpty = false := by rw [hjoined]; rfl
    rw [pieces, hempty]
    exact List.splitOn_intercalate 58 (fun t ht => colon_not_mem (h t ht)) hne

/-! ## Where a text is cut -/

theorem cut_cons {c : UInt8} (h : c ≠ 58 ∨ rest.head? ≠ some 58) :
    cut (c :: rest) = (cut rest).map fun halves => (c :: halves.1, halves.2) := by
  cases rest with
  | nil => rfl
  | cons b rest =>
      have hnot : ¬ (c = 58 ∧ b = 58) := fun hboth =>
        h.elim (fun hc => hc hboth.1) fun hb => hb (by rw [hboth.2]; rfl)
      rw [cut, if_neg hnot]

theorem cut_append (h : 58 ∉ t) (rest : List UInt8) :
    cut (t ++ rest) = (cut rest).map fun halves => (t ++ halves.1, halves.2) := by
  induction t with
  | nil => exact Option.map_id'.symm
  | cons c t ih =>
      have hc : c ≠ 58 := fun hc => h (by rw [hc]; exact List.mem_cons_self)
      rw [List.cons_append, cut_cons (Or.inl hc), ih fun hmem => h (List.mem_cons_of_mem _ hmem),
        Option.map_map]
      rfl

/-- The groups hold no `::`, and end with no colon. -/
theorem cut_joined (h : ∀ t ∈ texts, isGroup t) (rest : List UInt8) :
    cut (joined texts ++ rest) =
      (cut rest).map fun halves => (joined texts ++ halves.1, halves.2) := by
  induction texts with
  | nil => exact Option.map_id'.symm
  | cons t texts ih =>
      have hfree := colon_not_mem (h t List.mem_cons_self)
      cases texts with
      | nil =>
          rw [joined, List.intercalate_singleton]
          exact cut_append hfree rest
      | cons t' texts =>
          have hgroups : ∀ u ∈ t' :: texts, isGroup u := fun u hu => h u (List.mem_cons_of_mem _ hu)
          obtain ⟨c, behind, hc, hjoined⟩ := head_joined hgroups (List.cons_ne_nil _ _)
          have hhead : (joined (t' :: texts) ++ rest).head? ≠ some 58 := by
            rw [hjoined]
            exact fun heq => hc (Option.some.inj heq)
          rw [joined_cons_cons, List.append_assoc, List.cons_append, cut_append hfree,
            cut_cons (Or.inr hhead), ih hgroups, Option.map_map, Option.map_map]
          refine congrArg (fun f => (cut rest).map f) (funext fun halves => ?_)
          simp only [Function.comp_apply, List.append_assoc, List.cons_append]

theorem cut_full (h : ∀ t ∈ texts, isGroup t) : cut (joined texts) = none := by
  have hcut := cut_joined h []
  rwa [List.append_nil] at hcut

theorem cut_compressed (h : ∀ t ∈ texts, isGroup t) (rest : List UInt8) :
    cut (joined texts ++ 58 :: 58 :: rest) = some (joined texts, rest) := by
  have hrest : cut (58 :: 58 :: rest) = some ([], rest) := rfl
  rw [cut_joined h, hrest, Option.map_some, List.append_nil]

/-! ## What the decoder computes -/

theorem all_isGroup (h : ∀ t ∈ texts, isGroup t) : texts.all isGroup = true := by
  exact List.all_eq_true.mpr h

theorem decode_full (h : ∀ t ∈ texts, isGroup t) : decode (joined texts) =
    if texts.length = 8 then some (texts.map (numeralValue 16)) else none := by
  rw [decode, cut_full h]
  simp only [pieces_joined h, all_isGroup h, Bool.true_and, beq_iff_eq]

theorem decode_compressed (hleft : ∀ t ∈ left, isGroup t) (hright : ∀ t ∈ right, isGroup t) :
    decode (joined left ++ 58 :: 58 :: joined right) =
      if left.length + right.length < 8 then
        some (left.map (numeralValue 16) ++ List.replicate (8 - (left.length + right.length)) 0 ++
          right.map (numeralValue 16))
      else none := by
  rw [decode, cut_compressed hleft]
  simp only [pieces_joined hleft, pieces_joined hright, all_isGroup hleft, all_isGroup hright,
    Bool.true_and, decide_eq_true_eq]

/-- A text that denotes some values is decoded to them, so it denotes no others. -/
theorem decode_of_textOf {values : List Nat} (h : TextOf text values) :
    decode text = some values := by
  cases h with
  | full texts hgroups hlength => rw [decode_full hgroups, if_pos hlength]
  | compressed left right n hleft hright hpos hlength =>
      have hcount : 8 - (left.length + right.length) = n := by omega
      rw [decode_compressed hleft hright, if_pos (by omega), hcount]

theorem mem_joined {c : UInt8} (h : c ∈ joined texts) : c = 58 ∨ ∃ t ∈ texts, c ∈ t := by
  cases texts with
  | nil => cases h
  | cons t texts =>
      rw [joined_cons, List.mem_append, List.mem_flatMap] at h
      rcases h with h | ⟨u, hu, h⟩
      · exact Or.inr ⟨t, List.mem_cons_self, h⟩
      · rcases List.mem_cons.mp h with h | h
        · exact Or.inl h
        · exact Or.inr ⟨u, List.mem_cons_of_mem _ hu, h⟩

theorem bracket_not_mem_joined (h : ∀ t ∈ texts, isGroup t) : 93 ∉ joined texts := by
  intro hmem
  rcases mem_joined hmem with hcolon | ⟨t, ht, hmem⟩
  · cases hcolon
  · have hsome := (isGroup_iff.mp (h t ht)).2.2 93 hmem
    cases hsome

/-- The text ends in front of a bracket. -/
theorem bracket_not_mem {values : List Nat} (h : TextOf text values) : 93 ∉ text := by
  cases h with
  | full texts hgroups hlength => exact bracket_not_mem_joined hgroups
  | compressed left right n hleft hright hpos hlength =>
      rw [List.mem_append, List.mem_cons, List.mem_cons]
      rintro (hmem | hmem | hmem | hmem)
      · exact bracket_not_mem_joined hleft hmem
      · cases hmem
      · cases hmem
      · exact bracket_not_mem_joined hright hmem

theorem not_textOf {values : List Nat} (h : decode text = none) : ¬ TextOf text values := by
  intro htext
  rw [decode_of_textOf htext] at h
  cases h

end Decoding

end Lyslg.Address
