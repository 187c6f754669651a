import Lyslg.Util.Base64
import Mathlib.Data.List.GetD
/-!
# Base64 is exact

`Denotes s bytes` says which texts are groups of the alphabet, and for which bytes they stand.
The decoder accepts these and no other, and what the encoder writes stands for its input.
-/

namespace Lyslg.Base64

open Http Support

/-! ## What a text stands for -/

/-- The six bits of a character of the alphabet. -/
def sextet (c : UInt8) : Nat := base64.idxOf c

def firstByte (a b : UInt8) : UInt8 := UInt8.ofNat (sextet a * 4 + sextet b / 16)

def secondByte (b c : UInt8) : UInt8 := UInt8.ofNat (sextet b % 16 * 16 + sextet c / 4)

def thirdByte (c d : UInt8) : UInt8 := UInt8.ofNat (sextet c % 4 * 64 + sextet d)

/-- A group of four characters that ends in `padding` times `=`, and its bytes. -/
inductive IsGroup : List UInt8 → Nat → List UInt8 → Prop
  | full {a b c d : UInt8} (ha : a ∈ base64) (hb : b ∈ base64) (hc : c ∈ base64)
      (hd : d ∈ base64) :
      IsGroup [a, b, c, d] 0 [firstByte a b, secondByte b c, thirdByte c d]
  | one {a b c : UInt8} (ha : a ∈ base64) (hb : b ∈ base64) (hc : c ∈ base64) :
      IsGroup [a, b, c, 61] 1 [firstByte a b, secondByte b c]
  | two {a b : UInt8} (ha : a ∈ base64) (hb : b ∈ base64) :
      IsGroup [a, b, 61, 61] 2 [firstByte a b]

/-- A sequence of groups, of which the last may end in `=` or `==`, and its bytes. -/
inductive Denotes : List UInt8 → List UInt8 → Prop
  | nil : Denotes [] []
  | last {group bytes : List UInt8} {padding : Nat} (hgroup : IsGroup group padding bytes) :
      Denotes group bytes
  | group {group rest bytes more : List UInt8} (hgroup : IsGroup group 0 bytes)
      (hrest : Denotes rest more) : Denotes (group ++ rest) (bytes ++ more)

/-! ## The alphabet -/

/-- The codes of the alphabet. -/
theorem base64_eq : base64 =
    (List.range' 65 26 ++ List.range' 97 26 ++ List.range' 48 10 ++ [43, 47]).map UInt8.ofNat := by
  decide

theorem length_base64 : base64.length = 64 := by
  rw [base64_eq]
  rfl

theorem sextet_lt {c : UInt8} (h : c ∈ base64) : sextet c < 64 := by
  rw [← length_base64]
  exact List.idxOf_lt_length_iff.mpr h

theorem ne_equals {c : UInt8} (h : c ∈ base64) : c ≠ 61 := by
  have hnot : (61 : UInt8) ∉ base64 := by
    rw [base64_eq]
    decide
  rintro rfl
  exact hnot h

theorem base64Char_mem {i : Nat} (h : i < 64) : base64Char i ∈ base64 := by
  have hlt : i < base64.length := by rwa [length_base64]
  rw [base64Char, List.getD_eq_getElem _ _ hlt]
  exact List.getElem_mem hlt

theorem charVal_base64Char {i : Nat} (h : i < 64) : charVal (base64Char i) = some i := by
  have hall : ∀ entry ∈ base64.zipIdx, charVal entry.1 = some entry.2 := by decide
  have hlt : i < base64.length := by rwa [length_base64]
  rw [base64Char, List.getD_eq_getElem _ _ hlt]
  exact hall (base64[i], i) (List.mk_mem_zipIdx_iff_getElem?.mpr (List.getElem?_eq_getElem hlt))

theorem base64Char_sextet {c : UInt8} (h : c ∈ base64) : base64Char (sextet c) = c := by
  have hlt : sextet c < base64.length := List.idxOf_lt_length_iff.mpr h
  rw [base64Char, List.getD_eq_getElem _ _ hlt]
  exact List.getElem_idxOf hlt

theorem sextet_base64Char {i : Nat} (h : i < 64) : sextet (base64Char i) = i := by
  have hmem := base64Char_mem h
  have hval := charVal_base64Char (sextet_lt hmem)
  rw [base64Char_sextet hmem, charVal_base64Char h] at hval
  exact (Option.some.inj hval).symm

theorem mem_base64_of_charVal {c : UInt8} {i : Nat} (h : charVal c = some i) : c ∈ base64 := by
  rw [base64_eq, List.mem_map]
  refine ⟨c.toNat, ?_, UInt8.ofNat_toNat⟩
  simp only [List.mem_append, List.mem_range'_1, List.mem_cons, List.not_mem_nil, or_false]
  unfold charVal at h
  simp only [UInt8.le_iff_toNat_le, ← UInt8.toNat_inj, UInt8.reduceToNat] at h
  split_ifs at h <;> omega

theorem charVal_eq (c : UInt8) :
    charVal c = if c ∈ base64 then some (sextet c) else none := by
  by_cases hc : c ∈ base64
  · have hval := charVal_base64Char (sextet_lt hc)
    rw [base64Char_sextet hc] at hval
    rw [if_pos hc, hval]
  · rw [if_neg hc]
    exact Option.eq_none_iff_forall_not_mem.mpr fun i hi => hc (mem_base64_of_charVal hi)

/-! ## Bits -/

theorem or_packed {v w k : Nat} (h : w < 2 ^ k) : v <<< k ||| w = v * 2 ^ k + w := by
  rw [← Nat.shiftLeft_add_eq_or_of_lt h, Nat.shiftLeft_eq]

theorem mask_eq (v : Nat) : v &&& 0xff = v % 256 := Nat.and_two_pow_sub_one_eq_mod v 8

theorem shift_mask (v k : Nat) : v >>> k &&& 0xff = v / 2 ^ k % 256 := by
  rw [mask_eq, Nat.shiftRight_eq_div_pow]

theorem first_eq {a b : UInt8} {v : Nat} (ha : a ∈ base64) (hb : b ∈ base64)
    (h : v / 4096 = sextet a * 64 + sextet b) :
    UInt8.ofNat (v >>> 16 &&& 0xff) = firstByte a b := by
  have halt := sextet_lt ha
  have hblt := sextet_lt hb
  rw [shift_mask, firstByte, (by omega : v / 2 ^ 16 % 256 = sextet a * 4 + sextet b / 16)]

theorem second_eq {b c : UInt8} {v : Nat} (hb : b ∈ base64) (hc : c ∈ base64)
    (h : v / 64 % 4096 = sextet b * 64 + sextet c) :
    UInt8.ofNat (v >>> 8 &&& 0xff) = secondByte b c := by
  have hblt := sextet_lt hb
  have hclt := sextet_lt hc
  rw [shift_mask, secondByte, (by omega : v / 2 ^ 8 % 256 = sextet b % 16 * 16 + sextet c / 4)]

theorem third_eq {c d : UInt8} {v : Nat} (hc : c ∈ base64) (hd : d ∈ base64)
    (h : v % 4096 = sextet c * 64 + sextet d) :
    UInt8.ofNat (v &&& 0xff) = thirdByte c d := by
  have hclt := sextet_lt hc
  have hdlt := sextet_lt hd
  rw [mask_eq, thirdByte, (by omega : v % 256 = sextet c % 4 * 64 + sextet d)]

/-! ## Reading a group -/

section Group

variable {c : UInt8} {rest : List UInt8} {i packed padding : Nat}

theorem readGroup_char (hi : i < 4) (hc : c ∈ base64) :
    readGroup (c :: rest) ⟨i, 0, packed⟩ =
      readGroup rest ⟨i + 1, 0, packed * 64 + sextet c⟩ := by
  have hor : packed <<< 6 ||| sextet c = packed * 64 + sextet c := or_packed (sextet_lt hc)
  rw [readGroup, if_pos hi, if_neg (ne_equals hc), if_neg (Nat.lt_irrefl 0), charVal_eq, if_pos hc,
    ← hor]

theorem readGroup_equals (hi : i < 4) :
    readGroup (61 :: rest) ⟨i, padding, packed⟩ =
      readGroup rest ⟨i + 1, padding + 1, packed * 64⟩ := by
  have hshift : packed <<< 6 = packed * 64 := Nat.shiftLeft_eq packed 6
  rw [readGroup, if_pos hi, if_pos rfl, ← hshift]

theorem readGroup_invalid (hi : i < 4) (hne : c ≠ 61) (hc : c ∉ base64) :
    readGroup (c :: rest) ⟨i, padding, packed⟩ = none := by
  rw [readGroup, if_pos hi, if_neg hne, charVal_eq, if_neg hc]
  exact ite_self none

theorem readGroup_after (hi : i < 4) (hne : c ≠ 61) :
    readGroup (c :: rest) ⟨i, padding + 1, packed⟩ = none := by
  rw [readGroup, if_pos hi, if_neg hne, if_pos (Nat.succ_pos padding)]

theorem readGroup_full :
    readGroup rest ⟨4, padding, packed⟩ = some (⟨4, padding, packed⟩, rest) := by
  cases rest with
  | nil => rfl
  | cons c rest => rw [readGroup, if_neg (Nat.lt_irrefl 4)]

end Group

/-! ## Groups -/

section Group

variable {group bytes rest behind out free : List UInt8} {padding packed i v : Nat}

theorem length_group (h : IsGroup group padding bytes) : group.length = 4 := by
  cases h <;> rfl

theorem length_bytes (h : IsGroup group padding bytes) : bytes.length + padding = 3 := by
  cases h <;> rfl

/-- The value that the characters of a group are packed into. -/
def packedOf (group : List UInt8) : Nat :=
  group.foldl (fun v c => v * 64 + if c = 61 then 0 else sextet c) 0

theorem packed_char {c : UInt8} (v : Nat) (hc : c ∈ base64) :
    v * 64 + (if c = 61 then 0 else sextet c) = v * 64 + sextet c := by
  rw [if_neg (ne_equals hc)]

/-- A group is read as a whole. -/
theorem readGroup_group (rest : List UInt8) (h : IsGroup group padding bytes) :
    readGroup (group ++ rest) ⟨0, 0, 0⟩ = some (⟨4, padding, packedOf group⟩, rest) := by
  cases h with
  | full ha hb hc hd =>
      simp only [List.cons_append, List.nil_append, packedOf, List.foldl_cons, List.foldl_nil]
      rw [readGroup_char (by decide) ha, readGroup_char (by decide) hb,
        readGroup_char (by decide) hc, readGroup_char (by decide) hd, readGroup_full,
        packed_char _ ha, packed_char _ hb, packed_char _ hc, packed_char _ hd]
  | one ha hb hc =>
      simp only [List.cons_append, List.nil_append, packedOf, List.foldl_cons, List.foldl_nil]
      rw [readGroup_char (by decide) ha, readGroup_char (by decide) hb,
        readGroup_char (by decide) hc, readGroup_equals (by decide), readGroup_full,
        packed_char _ ha, packed_char _ hb, packed_char _ hc, if_pos trivial]
      rfl
  | two ha hb =>
      simp only [List.cons_append, List.nil_append, packedOf, List.foldl_cons, List.foldl_nil]
      rw [readGroup_char (by decide) ha, readGroup_char (by decide) hb,
        readGroup_equals (by decide), readGroup_equals (by decide), readGroup_full,
        packed_char _ ha, packed_char _ hb, if_pos trivial]
      rfl

/-- Behind the first `=` every character that is read is counted. -/
theorem readGroup_counted {g : Group} (hpos : 0 < padding)
    (h : readGroup rest ⟨i, padding, packed⟩ = some (g, behind)) :
    g.padding + i = padding + g.i := by
  induction rest generalizing i padding packed with
  | nil =>
      cases h
      rfl
  | cons c rest ih =>
      by_cases hi : i < 4
      · by_cases hc : c = 61
        · rw [hc, readGroup_equals hi] at h
          have hcount := ih (Nat.succ_pos padding) h
          omega
        · obtain ⟨p, rfl⟩ := Nat.exists_eq_add_of_lt hpos
          rw [readGroup_after hi hc] at h
          cases h
      · rw [readGroup, if_neg hi] at h
        cases h
        rfl

theorem readGroup_one {c : UInt8} {g : Group} (hi : i < 4)
    (h : readGroup (c :: rest) ⟨i, 0, packed⟩ = some (g, behind)) (hc : c ≠ 61) :
    c ∈ base64 ∧ readGroup rest ⟨i + 1, 0, packed * 64 + sextet c⟩ = some (g, behind) := by
  by_cases hmem : c ∈ base64
  · rw [readGroup_char hi hmem] at h
    exact ⟨hmem, h⟩
  · rw [readGroup_invalid hi hc hmem] at h
    cases h

theorem readGroup_length_eq {g g' : Group} (h : readGroup rest g = some (g', behind)) :
    g'.i + behind.length = g.i + rest.length := by
  induction rest generalizing g with
  | nil =>
      cases h
      rfl
  | cons c rest ih =>
      rw [readGroup] at h
      rw [List.length_cons, Nat.add_comm rest.length, ← Nat.add_assoc]
      split at h
      · split at h
        · exact ih h
        · split at h
          · cases h
          · split at h
            · cases h
            · exact ih h
      · cases h
        rw [List.length_cons, Nat.add_comm rest.length, ← Nat.add_assoc]

/-- Only a group is read to its end with a padding that the decoder takes. -/
theorem group_of_readGroup (h : readGroup rest ⟨0, 0, 0⟩ = some (⟨4, padding, packed⟩, behind))
    (hpadding : padding ≤ 2) :
    ∃ group bytes, rest = group ++ behind ∧ IsGroup group padding bytes := by
  have hlength : 4 + behind.length = 0 + rest.length := readGroup_length_eq h
  rcases rest with _ | ⟨a, _ | ⟨b, _ | ⟨c, _ | ⟨d, rest⟩⟩⟩⟩
  iterate 4
    simp only [List.length_nil, List.length_cons] at hlength
    omega
  by_cases ha : a = 61
  · rw [ha, readGroup_equals (by decide)] at h
    have hcount : padding + 1 = 1 + 4 := readGroup_counted (by decide) h
    omega
  obtain ⟨ha, h⟩ := readGroup_one (by decide) h ha
  by_cases hb : b = 61
  · rw [hb, readGroup_equals (by decide)] at h
    have hcount : padding + 2 = 1 + 4 := readGroup_counted (by decide) h
    omega
  obtain ⟨hb, h⟩ := readGroup_one (by decide) h hb
  by_cases hc : c = 61
  · rw [hc, readGroup_equals (by decide)] at h
    by_cases hd : d = 61
    · rw [hd, readGroup_equals (by decide), readGroup_full] at h
      cases h
      exact ⟨[a, b, 61, 61], _, by rw [hc, hd]; rfl, IsGroup.two ha hb⟩
    · rw [readGroup_after (by decide) hd] at h
      cases h
  obtain ⟨hc, h⟩ := readGroup_one (by decide) h hc
  by_cases hd : d = 61
  · rw [hd, readGroup_equals (by decide), readGroup_full] at h
    cases h
    exact ⟨[a, b, c, 61], _, by rw [hd]; rfl, IsGroup.one ha hb hc⟩
  obtain ⟨hd, h⟩ := readGroup_one (by decide) h hd
  rw [readGroup_full] at h
  cases h
  exact ⟨[a, b, c, d], _, rfl, IsGroup.full ha hb hc hd⟩

/-! ## Writing a group -/

theorem putByte_behind (h : 0 < free.length) : putByte (.behind out free) v =
    some (.behind (out ++ [UInt8.ofNat (v &&& 0xff)]) (free.drop 1)) := by
  exact Cursor.put_behind h

variable {o : Cursor UInt8}

theorem putGroup_two : putGroup o ⟨i, 2, v⟩ = putByte o (v >>> 16) := by
  simp [putGroup]

theorem putGroup_one : putGroup o ⟨i, 1, v⟩ =
    (putByte o (v >>> 16)).bind fun o => putByte o (v >>> 8) := by
  simp [putGroup]

theorem putGroup_zero : putGroup o ⟨i, 0, v⟩ =
    (putByte o (v >>> 16)).bind fun o => (putByte o (v >>> 8)).bind fun o => putByte o v := by
  simp [putGroup]

/-- The bytes of a group are written behind the output, where there is room for them. -/
theorem putGroup_eq (h : IsGroup group padding bytes) (hroom : bytes.length ≤ free.length) :
    putGroup (.behind out free) ⟨4, padding, packedOf group⟩ =
      some (.behind (out ++ bytes) (free.drop bytes.length)) := by
  cases h with
  | @full a b c d ha hb hc hd =>
      have hroom : 3 ≤ free.length := hroom
      have hdlt := sextet_lt hd
      have hclt := sextet_lt hc
      have hblt := sextet_lt hb
      have hpacked : packedOf [a, b, c, d] =
          sextet a * 262144 + sextet b * 4096 + sextet c * 64 + sextet d := by
        simp only [packedOf, List.foldl_cons, List.foldl_nil, packed_char _ ha, packed_char _ hb,
          packed_char _ hc, packed_char _ hd]
        omega
      have hjoin : out ++ [firstByte a b] ++ [secondByte b c] ++ [thirdByte c d] =
          out ++ [firstByte a b, secondByte b c, thirdByte c d] := by
        simp only [List.append_assoc, List.cons_append, List.nil_append]
      rw [putGroup_zero, putByte_behind (by omega), Option.bind_some,
        putByte_behind (by rw [List.length_drop]; omega), Option.bind_some,
        putByte_behind (by rw [List.length_drop, List.length_drop]; omega), hpacked,
        first_eq ha hb (by omega), second_eq hb hc (by omega), third_eq hc hd (by omega),
        List.drop_drop, List.drop_drop, hjoin]
      rfl
  | @one a b c ha hb hc =>
      have hroom : 2 ≤ free.length := hroom
      have hclt := sextet_lt hc
      have hblt := sextet_lt hb
      have hpacked : packedOf [a, b, c, 61] =
          sextet a * 262144 + sextet b * 4096 + sextet c * 64 := by
        simp only [packedOf, List.foldl_cons, List.foldl_nil, packed_char _ ha, packed_char _ hb,
          packed_char _ hc, if_true]
        omega
      have hjoin : out ++ [firstByte a b] ++ [secondByte b c] =
          out ++ [firstByte a b, secondByte b c] := by
        simp only [List.append_assoc, List.cons_append, List.nil_append]
      rw [putGroup_one, putByte_behind (by omega), Option.bind_some,
        putByte_behind (by rw [List.length_drop]; omega), hpacked,
        first_eq ha hb (by omega), second_eq hb hc (by omega), List.drop_drop, hjoin]
      rfl
  | @two a b ha hb =>
      have hroom : 1 ≤ free.length := hroom
      have hblt := sextet_lt hb
      have hpacked : packedOf [a, b, 61, 61] = sextet a * 262144 + sextet b * 4096 := by
        simp only [packedOf, List.foldl_cons, List.foldl_nil, packed_char _ ha, packed_char _ hb,
          if_true]
        omega
      rw [putGroup_two, putByte_behind (by omega), hpacked, first_eq ha hb (by omega)]
      rfl

end Group

/-! ## The decoder -/

section Decoder

variable {group bytes more rest src out free : List UInt8} {padding : Nat} {o : Cursor UInt8}

theorem decodeLoop_cons {c : UInt8} : decodeLoop (c :: rest) o =
    match readGroup (c :: rest) ⟨0, 0, 0⟩ with
    | none => some []
    | some (g, behind) =>
        if g.i ≠ 4 then some []
        else if 0 < g.padding ∧ behind ≠ [] then some []
        else if 2 < g.padding then some []
        else (putGroup o g).bind (decodeLoop behind) := by
  rw [decodeLoop]
  split <;> rename_i heq <;> rw [heq]
  rfl

/-- A text that does not start with a group, or with one that has to be the last, is refused. -/
theorem decodeLoop_refused (hne : rest ≠ [])
    (h : ∀ group behind bytes padding, rest = group ++ behind → IsGroup group padding bytes →
      0 < padding ∧ behind ≠ []) : decodeLoop rest o = some [] := by
  cases rest with
  | nil => exact absurd rfl hne
  | cons c rest =>
      rw [decodeLoop_cons]
      cases hread : readGroup (c :: rest) ⟨0, 0, 0⟩ with
      | none => rfl
      | some read =>
          obtain ⟨⟨i, padding, packed⟩, behind⟩ := read
          by_cases hi : i = 4
          · subst hi
            by_cases hpadding : 2 < padding
            · simp only [hpadding, if_true, ite_self]
            · obtain ⟨group, bytes, hsplit, hgroup⟩ :=
                group_of_readGroup hread (Nat.le_of_not_lt hpadding)
              have hlast := h group behind bytes padding hsplit hgroup
              simp only [hlast, ne_eq, not_true_eq_false, not_false_eq_true, and_self, if_true,
                if_false]
          · exact if_pos hi

/-- A group is decoded, and the loop goes on behind it. -/
theorem decodeLoop_group (out : List UInt8) (hgroup : IsGroup group padding bytes)
    (hlast : padding = 0 ∨ rest = [])
    (hroom : bytes.length ≤ free.length) :
    decodeLoop (group ++ rest) (.behind out free) =
      decodeLoop rest (.behind (out ++ bytes) (free.drop bytes.length)) := by
  have hread := readGroup_group rest hgroup
  have hlength := length_group hgroup
  have hpadding : ¬ 2 < padding := by
    cases hgroup <;> decide
  have hend : ¬ (0 < padding ∧ rest ≠ []) := by
    rintro ⟨hpos, hmore⟩
    exact hlast.elim (Nat.ne_of_gt hpos) hmore
  obtain ⟨c, tail, hcons⟩ : ∃ c tail, group ++ rest = c :: tail := by
    cases group with
    | nil => cases hlength
    | cons c tail => exact ⟨c, tail ++ rest, rfl⟩
  rw [hcons] at hread ⊢
  rw [decodeLoop_cons, hread]
  simp only [ne_eq, not_true_eq_false, if_false, hend, hpadding]
  rw [putGroup_eq hgroup hroom, Option.bind_some]

theorem decodeLoop_denotes (out : List UInt8) (h : Denotes src bytes)
    (hroom : bytes.length ≤ free.length) :
    decodeLoop src (.behind out free) = some (out ++ bytes) := by
  induction h generalizing out free with
  | nil => rw [decodeLoop, Cursor.written_behind, List.append_nil]
  | last hgroup =>
      have hstep : decodeLoop (_ ++ []) _ = _ := decodeLoop_group out hgroup (Or.inr rfl) hroom
      rw [List.append_nil] at hstep
      rw [hstep, decodeLoop, Cursor.written_behind]
  | group hgroup hrest ih =>
      rw [List.length_append] at hroom
      rw [decodeLoop_group out hgroup (Or.inl rfl) (by omega),
        ih _ (by rw [List.length_drop]; omega), List.append_assoc]

/-- A text that does not stand for bytes gives the empty string, and no write is out of place
before that is found out. -/
theorem decodeLoop_not_denotes (out : List UInt8) (h : ∀ bytes, ¬ Denotes src bytes)
    (hroom : src.length * 3 / 4 ≤ free.length) :
    decodeLoop src (.behind out free) = some [] := by
  induction hn : src.length using Nat.strong_induction_on generalizing src out free with
  | _ n ih =>
      by_cases hstart : ∃ group behind bytes padding, src = group ++ behind ∧
          IsGroup group padding bytes ∧ (padding = 0 ∨ behind = [])
      · obtain ⟨group, behind, bytes, padding, rfl, hgroup, hlast⟩ := hstart
        have hlength := length_group hgroup
        have hbytes := length_bytes hgroup
        rw [List.length_append] at hn hroom
        rcases hlast with rfl | rfl
        · rw [decodeLoop_group out hgroup (Or.inl rfl) (by omega)]
          refine ih behind.length (by omega) _ (fun more hmore => ?_) ?_ rfl
          · exact h _ (Denotes.group hgroup hmore)
          · rw [List.length_drop]
            omega
        · rw [List.append_nil] at h
          exact absurd (Denotes.last hgroup) (h bytes)
      · refine decodeLoop_refused (fun hnil => h [] (hnil ▸ Denotes.nil)) ?_
        intro group behind bytes padding hsplit hgroup
        by_contra hlast
        have hcase : padding = 0 ∨ behind = [] := by
          by_cases hzero : padding = 0
          · exact Or.inl hzero
          · exact Or.inr (by_contra fun hbehind => hlast ⟨Nat.pos_of_ne_zero hzero, hbehind⟩)
        exact hstart ⟨group, behind, bytes, padding, hsplit, hgroup, hcase⟩

theorem count_group (h : IsGroup group padding bytes) : group.count 61 = padding := by
  have hcount (c : UInt8) (l : List UInt8) (hc : c ∈ base64) : (c :: l).count 61 = l.count 61 :=
    List.count_cons_of_ne (ne_equals hc)
  cases h with
  | full ha hb hc hd => rw [hcount _ _ ha, hcount _ _ hb, hcount _ _ hc, hcount _ _ hd]; rfl
  | one ha hb hc => rw [hcount _ _ ha, hcount _ _ hb, hcount _ _ hc]; rfl
  | two ha hb => rw [hcount _ _ ha, hcount _ _ hb]; rfl

theorem Denotes.length_eq (h : Denotes src bytes) :
    4 * (bytes.length + src.count 61) = 3 * src.length := by
  induction h with
  | nil => rfl
  | last hgroup =>
      have hlength := length_group hgroup
      have hbytes := length_bytes hgroup
      have hcount := count_group hgroup
      omega
  | group hgroup hrest ih =>
      have hlength := length_group hgroup
      have hbytes := length_bytes hgroup
      have hcount := count_group hgroup
      rw [List.length_append, List.length_append, List.count_append]
      omega

theorem Denotes.ne_nil (h : Denotes src bytes) (hne : src ≠ []) : bytes ≠ [] := by
  cases h with
  | nil => exact absurd rfl hne
  | last hgroup => cases hgroup <;> exact List.cons_ne_nil _ _
  | group hgroup hrest => cases hgroup; exact List.cons_ne_nil _ _

end Decoder

/-! ## The encoder -/

section Encoder

variable {rest : List UInt8} {i v : Nat}

theorem packBytes_byte {b : UInt8} (hi : i < 3) :
    packBytes (b :: rest) i v = packBytes rest (i + 1) (v * 256 + b.toNat) := by
  have hor : v <<< 8 ||| b.toNat = v * 256 + b.toNat := or_packed b.toNat_lt
  rw [packBytes, if_pos hi, hor]

theorem packBytes_full : packBytes rest 3 v = (3, v, rest) := by
  cases rest with
  | nil => rfl
  | cons b rest => rw [packBytes, if_neg (Nat.lt_irrefl 3)]

theorem first_base64Char {i j : Nat} {a : UInt8} (hi : i < 64) (hj : j < 64)
    (h : i * 4 + j / 16 = a.toNat) : firstByte (base64Char i) (base64Char j) = a := by
  rw [firstByte, sextet_base64Char hi, sextet_base64Char hj, h, UInt8.ofNat_toNat]

theorem second_base64Char {i j : Nat} {b : UInt8} (hi : i < 64) (hj : j < 64)
    (h : i % 16 * 16 + j / 4 = b.toNat) : secondByte (base64Char i) (base64Char j) = b := by
  rw [secondByte, sextet_base64Char hi, sextet_base64Char hj, h, UInt8.ofNat_toNat]

theorem third_base64Char {i j : Nat} {c : UInt8} (hi : i < 64) (hj : j < 64)
    (h : i % 4 * 64 + j = c.toNat) : thirdByte (base64Char i) (base64Char j) = c := by
  rw [thirdByte, sextet_base64Char hi, sextet_base64Char hj, h, UInt8.ofNat_toNat]

theorem sextet_mask (v k : Nat) : v >>> k &&& 0x3f = v / 2 ^ k % 64 := by
  have h := Nat.and_two_pow_sub_one_eq_mod (v >>> k) 6
  rw [Nat.shiftRight_eq_div_pow] at h ⊢
  exact h

/-- The characters of a packed value. -/
theorem groupText_eq {padding : Nat} : groupText padding v =
    [base64Char (v / 262144), base64Char (v / 4096 % 64)] ++
      (if padding ≠ 2 then [base64Char (v / 64 % 64)] else []) ++
      (if padding = 0 then [base64Char (v % 64)] else []) ++ List.replicate padding 61 := by
  have hlast : v &&& 0x3f = v % 64 := Nat.and_two_pow_sub_one_eq_mod v 6
  rw [groupText, sextet_mask, sextet_mask, hlast, Nat.shiftRight_eq_div_pow]
  rfl

/-- The text of three bytes is a group that stands for them. -/
theorem groupText_full (a b c : UInt8) :
    IsGroup (groupText 0 (a.toNat * 65536 + b.toNat * 256 + c.toNat)) 0 [a, b, c] := by
  have ha := a.toNat_lt
  have hb := b.toNat_lt
  have hc := c.toNat_lt
  rw [groupText_eq]
  generalize hv : a.toNat * 65536 + b.toNat * 256 + c.toNat = v
  have hgroup : IsGroup _ 0 _ := IsGroup.full (base64Char_mem (by omega : v / 262144 < 64))
    (base64Char_mem (by omega : v / 4096 % 64 < 64)) (base64Char_mem (by omega : v / 64 % 64 < 64))
    (base64Char_mem (by omega : v % 64 < 64))
  rw [first_base64Char (by omega) (by omega) (by omega : v / 262144 * 4 + _ = a.toNat),
    second_base64Char (by omega) (by omega) (by omega : v / 4096 % 64 % 16 * 16 + _ = b.toNat),
    third_base64Char (by omega) (by omega)
      (by omega : v / 64 % 64 % 4 * 64 + _ = c.toNat)] at hgroup
  exact hgroup

theorem groupText_two (a b : UInt8) :
    IsGroup (groupText 1 (a.toNat * 65536 + b.toNat * 256)) 1 [a, b] := by
  have ha := a.toNat_lt
  have hb := b.toNat_lt
  rw [groupText_eq]
  generalize hv : a.toNat * 65536 + b.toNat * 256 = v
  have hgroup : IsGroup _ 1 _ := IsGroup.one (base64Char_mem (by omega : v / 262144 < 64))
    (base64Char_mem (by omega : v / 4096 % 64 < 64)) (base64Char_mem (by omega : v / 64 % 64 < 64))
  rw [first_base64Char (by omega) (by omega) (by omega : v / 262144 * 4 + _ = a.toNat),
    second_base64Char (by omega) (by omega) (by omega : v / 4096 % 64 % 16 * 16 + _ = b.toNat)]
    at hgroup
  exact hgroup

theorem groupText_one (a : UInt8) : IsGroup (groupText 2 (a.toNat * 65536)) 2 [a] := by
  have ha := a.toNat_lt
  rw [groupText_eq]
  generalize hv : a.toNat * 65536 = v
  have hgroup : IsGroup _ 2 _ := IsGroup.two (base64Char_mem (by omega : v / 262144 < 64))
    (base64Char_mem (by omega : v / 4096 % 64 < 64))
  rw [first_base64Char (by omega) (by omega) (by omega : v / 262144 * 4 + _ = a.toNat)] at hgroup
  exact hgroup

theorem encodeLoop_cons {b : UInt8} {ret : List UInt8} {i packed : Nat} {behind : List UInt8}
    (h : packBytes (b :: rest) 0 0 = (i, packed, behind)) : encodeLoop (b :: rest) ret =
      encodeLoop behind (ret ++ groupText (if i = 2 then 1 else if i = 1 then 2 else 0)
        (packZeros i packed)) := by
  rw [encodeLoop, h]

/-- What is appended to `ret` stands for the bytes behind `ptr`. -/
theorem encodeLoop_denotes (rest ret : List UInt8) :
    ∃ text, encodeLoop rest ret = ret ++ text ∧ Denotes text rest := by
  have hshift (v : Nat) : v <<< 8 = v * 256 := Nat.shiftLeft_eq v 8
  induction hn : rest.length using Nat.strong_induction_on generalizing rest ret with
  | _ n ih =>
      match rest with
      | [] => exact ⟨[], by rw [encodeLoop, List.append_nil], Denotes.nil⟩
      | [a] =>
          have hpack : packBytes [a] 0 0 = (1, a.toNat, []) := by
            rw [packBytes_byte (by decide), Nat.zero_mul, Nat.zero_add a.toNat, packBytes]
          have hzeros : packZeros 1 a.toNat = a.toNat * 65536 := by
            rw [packZeros, Function.iterate_succ_apply, Function.iterate_one, hshift, hshift,
              Nat.mul_assoc]
          refine ⟨_, ?_, Denotes.last (groupText_one a)⟩
          rw [encodeLoop_cons hpack, hzeros, encodeLoop]
          rfl
      | [a, b] =>
          have hpack : packBytes [a, b] 0 0 = (2, a.toNat * 256 + b.toNat, []) := by
            rw [packBytes_byte (by decide), packBytes_byte (by decide), Nat.zero_mul,
              Nat.zero_add a.toNat, packBytes]
          have hzeros : packZeros 2 (a.toNat * 256 + b.toNat) =
              a.toNat * 65536 + b.toNat * 256 := by
            rw [packZeros, Function.iterate_one, hshift]
            omega
          refine ⟨_, ?_, Denotes.last (groupText_two a b)⟩
          rw [encodeLoop_cons hpack, hzeros, encodeLoop]
          rfl
      | a :: b :: c :: rest =>
          have hpack : packBytes (a :: b :: c :: rest) 0 0 =
              (3, a.toNat * 65536 + b.toNat * 256 + c.toNat, rest) := by
            rw [packBytes_byte (by decide), packBytes_byte (by decide), packBytes_byte (by decide),
              packBytes_full, Nat.zero_mul, Nat.zero_add, Nat.add_mul, Nat.mul_assoc]
          obtain ⟨text, htext, hdenotes⟩ := ih rest.length (by
            rw [← hn]
            exact Nat.lt_add_of_pos_right (by decide : 0 < 3)) rest
            (ret ++ groupText 0 (a.toNat * 65536 + b.toNat * 256 + c.toNat)) rfl
          refine ⟨_, ?_, Denotes.group (groupText_full a b c) hdenotes⟩
          rw [encodeLoop_cons hpack, ← List.append_assoc]
          exact htext

end Encoder

theorem base64encode_denotes (x : List UInt8) : Denotes (base64encode x) x := by
  obtain ⟨text, htext, hdenotes⟩ := encodeLoop_denotes x []
  rw [base64encode, htext]
  exact hdenotes

theorem base64decode_denotes {src bytes : List UInt8} (h : Denotes src bytes) :
    base64decode src = some bytes := by
  have hlength := h.length_eq
  refine decodeLoop_denotes [] h ?_
  rw [List.length_replicate]
  omega

theorem base64decode_not_denotes {src : List UInt8} (h : ∀ bytes, ¬ Denotes src bytes) :
    base64decode src = some [] := by
  refine decodeLoop_not_denotes [] h ?_
  rw [List.length_replicate]

/-- Base64 is exact: what is encoded is decoded again; a text is accepted when it is groups of
the alphabet, for the bytes that these stand for; and every write is one into the memory that
`result` has from the start. -/
theorem base64_exact :
    (∀ x, base64decode (base64encode x) = some x) ∧
    ∀ s, ∃ result, base64decode s = some result ∧
      (s ≠ [] → (result ≠ [] ↔ ∃ bytes, Denotes s bytes)) ∧
      (result ≠ [] → Denotes s result ∧ result.length + s.count 61 = 3 * s.length / 4) := by
  constructor
  · intro x
    exact base64decode_denotes (base64encode_denotes x)
  · intro s
    by_cases h : ∃ bytes, Denotes s bytes
    · obtain ⟨bytes, hdenotes⟩ := h
      have hlength := hdenotes.length_eq
      refine ⟨bytes, base64decode_denotes hdenotes, fun hne => ?_, fun _ => ⟨hdenotes, by omega⟩⟩
      exact iff_of_true (hdenotes.ne_nil hne) ⟨bytes, hdenotes⟩
    · have hnot : ∀ bytes, ¬ Denotes s bytes := fun bytes hdenotes => h ⟨bytes, hdenotes⟩
      refine ⟨[], base64decode_not_denotes hnot, fun _ => ?_, fun hne => absurd rfl hne⟩
      exact iff_of_false (fun hne => hne rfl) h

end Lyslg.Base64
