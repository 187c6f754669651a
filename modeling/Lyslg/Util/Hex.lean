import Lyslg.Http.Request
import Lyslg.Support.Cursor
import Lyslg.Support.Words
import Lyslg.Util.UrlReference
/-!
# `hexstring_from_data` and `data_from_hexstring`

Both write into a string that is resized first.  The decoder reads by an index that goes up twice
in an iteration.
-/

namespace Lyslg.Hex

open Http Support Support.Words
open scoped ListMembers

/-- What ends a conversion: the `std::invalid_argument` with its text, a read that is not of a
character of the string, and a write behind the result. -/
inductive HexError where
  | invalidArgument (what : List UInt8)
  | readOutside
  | writeOutside
  deriving DecidableEq, Repr

/-- `*buf++ = byte` -/
def write (o : Cursor UInt8) (byte : UInt8) : Except HexError (Cursor UInt8) :=
  match o.put byte with
  | none => .error .writeOutside
  | some o => .ok o

/-- `hexstring[i]` -/
def read (hexstring : List UInt8) (i : Nat) : Except HexError UInt8 :=
  match hexstring[i]? with
  | none => .error .readOutside
  | some c => .ok c

/-! ## Encoding -/

/-- `c = (c > 9) ? c + 'a' - 10 : c + '0'` -/
def hexDigit (c : UInt8) : UInt8 := if 9 < c then c + 97 - 10 else c + 48

/-- The loop of `hexstring_from_data` with `rest` still to be read. -/
def hexstringLoop : List UInt8 → Cursor UInt8 → Except HexError (Cursor UInt8)
  | [], output => .ok output
  | b :: rest, output => do
      let output ← write output (hexDigit (b >>> 4 &&& 0xf))
      let output ← write output (hexDigit (b &&& 0xf))
      hexstringLoop rest output

def hexstringFromData (data : List UInt8) : Except HexError (List UInt8) :=
  if data.length = 0 then .ok []
  else do
    let output ← hexstringLoop data ⟨List.replicate (data.length * 2) 0, 0⟩
    return output.memory

/-! ## Decoding -/

/-- `throw std::invalid_argument("data_from_hexstring length % 2 != 0")` -/
def oddLength : HexError := .invalidArgument (chars "data_from_hexstring length % 2 != 0")

/-- `throw std::invalid_argument("data_from_hexstring invalid hexstring")` -/
def invalidHexstring : HexError := .invalidArgument (chars "data_from_hexstring invalid hexstring")

/-- The first `switch`, with the value of `byte` behind it. -/
def highDigit (c : UInt8) : Except HexError UInt8 :=
  if 97 ≤ c ∧ c ≤ 102 then .ok ((c - 97 + 10) <<< 4)
  else if 65 ≤ c ∧ c ≤ 70 then .ok ((c - 65 + 10) <<< 4)
  else if 48 ≤ c ∧ c ≤ 57 then .ok ((c - 48) <<< 4)
  else .error invalidHexstring

/-- The second `switch`, with the value of `byte` behind it. -/
def lowDigit (byte c : UInt8) : Except HexError UInt8 :=
  if 97 ≤ c ∧ c ≤ 102 then .ok (byte ||| (c - 97 + 10))
  else if 65 ≤ c ∧ c ≤ 70 then .ok (byte ||| (c - 65 + 10))
  else if 48 ≤ c ∧ c ≤ 57 then .ok (byte ||| (c - 48))
  else .error invalidHexstring

/-- The loop of `data_from_hexstring` from `i` on. -/
def dataLoop (hexstring : List UInt8) (length i : Nat) (buf : Cursor UInt8) :
    Except HexError (Cursor UInt8) :=
  if i < length then do
    let byte ← highDigit (← read hexstring i)
    let byte ← lowDigit byte (← read hexstring (i + 1))
    let buf ← write buf byte
    dataLoop hexstring length (i + 2) buf
  else .ok buf
termination_by length - i

/-- The overload that writes to `output`. -/
def dataInto (hexstring : List UInt8) (length : Nat) (output : Cursor UInt8) :
    Except HexError (Cursor UInt8) :=
  if length % 2 ≠ 0 then .error oddLength else dataLoop hexstring length 0 output

def dataFromHexstring (hexstring : List UInt8) : Except HexError (List UInt8) :=
  let length := hexstring.length
  if length % 2 ≠ 0 then .error oddLength
  else if length = 0 then .ok []
  else do
    let output ← dataInto hexstring length ⟨List.replicate (length / 2) 0, 0⟩
    return output.memory

/-! ## Digits -/

/-- The hexadecimal digits of either case. -/
def hexDigits : List UInt8 := chars "0123456789abcdefABCDEF"

/-- The value of a digit. -/
def digitValue (c : UInt8) : UInt8 :=
  if 97 ≤ c then c - 97 + 10 else if 65 ≤ c then c - 65 + 10 else c - 48

theorem hexDigits_eq : hexDigits =
    (List.range' 48 10 ++ List.range' 97 6 ++ List.range' 65 6).map UInt8.ofNat := by
  decide

theorem mem_hexDigits {c : UInt8} : c ∈ hexDigits ↔
    (97 ≤ c ∧ c ≤ 102) ∨ (65 ≤ c ∧ c ≤ 70) ∨ (48 ≤ c ∧ c ≤ 57) := by
  have hcode : c ∈ hexDigits ↔
      c.toNat ∈ List.range' 48 10 ++ List.range' 97 6 ++ List.range' 65 6 := by
    rw [hexDigits_eq, List.mem_map]
    constructor
    · rintro ⟨n, hn, rfl⟩
      have hlt : n < 256 := by
        simp only [List.mem_append, List.mem_range'_1] at hn
        omega
      rwa [UInt8.toNat_ofNat_of_lt' hlt]
    · exact fun hc => ⟨c.toNat, hc, UInt8.ofNat_toNat⟩
  rw [hcode]
  simp only [List.mem_append, List.mem_range'_1, UInt8.le_iff_toNat_le, UInt8.reduceToNat]
  omega

/-- Both switches go by the value of the digit. -/
theorem digit_cases {α : Type} (c : UInt8) (f : UInt8 → α) (invalid : α) :
    (if 97 ≤ c ∧ c ≤ 102 then f (c - 97 + 10)
    else if 65 ≤ c ∧ c ≤ 70 then f (c - 65 + 10)
    else if 48 ≤ c ∧ c ≤ 57 then f (c - 48)
    else invalid) = if c ∈ hexDigits then f (digitValue c) else invalid := by
  by_cases hlower : 97 ≤ c ∧ c ≤ 102
  · rw [if_pos hlower, if_pos (mem_hexDigits.mpr (Or.inl hlower)), digitValue, if_pos hlower.1]
  · by_cases hupper : 65 ≤ c ∧ c ≤ 70
    · have hnot : ¬ 97 ≤ c := by
        simp only [UInt8.le_iff_toNat_le, UInt8.reduceToNat] at hupper ⊢
        omega
      rw [if_neg hlower, if_pos hupper, if_pos (mem_hexDigits.mpr (Or.inr (Or.inl hupper))),
        digitValue, if_neg hnot, if_pos hupper.1]
    · by_cases hdigit : 48 ≤ c ∧ c ≤ 57
      · have hnot : ¬ 97 ≤ c ∧ ¬ 65 ≤ c := by
          simp only [UInt8.le_iff_toNat_le, UInt8.reduceToNat] at hdigit ⊢
          omega
        rw [if_neg hlower, if_neg hupper, if_pos hdigit,
          if_pos (mem_hexDigits.mpr (Or.inr (Or.inr hdigit))), digitValue, if_neg hnot.1,
          if_neg hnot.2]
      · have hnot : c ∉ hexDigits := by
          rw [mem_hexDigits]
          exact fun h => h.elim hlower fun h => h.elim hupper hdigit
        rw [if_neg hlower, if_neg hupper, if_neg hdigit, if_neg hnot]

theorem highDigit_eq (c : UInt8) :
    highDigit c = if c ∈ hexDigits then .ok (digitValue c <<< 4) else .error invalidHexstring := by
  exact digit_cases c (fun v => Except.ok (v <<< 4)) (.error invalidHexstring)

theorem lowDigit_eq (byte c : UInt8) :
    lowDigit byte c =
      if c ∈ hexDigits then .ok (byte ||| digitValue c) else .error invalidHexstring := by
  exact digit_cases c (fun v => Except.ok (byte ||| v)) (.error invalidHexstring)

/-- What two digits stand for. -/
def byteOf (a b : UInt8) : UInt8 := digitValue a <<< 4 ||| digitValue b

/-- The bytes that the digits stand for, two at a time. -/
def bytesOf : List UInt8 → List UInt8
  | a :: b :: rest => byteOf a b :: bytesOf rest
  | _ => []

/-- The two digits of a byte. -/
def digitsOf (b : UInt8) : List UInt8 := [hexDigit (b >>> 4 &&& 0xf), hexDigit (b &&& 0xf)]

theorem hexDigit_mem (b : UInt8) : ∀ c ∈ digitsOf b, c ∈ hexDigits := by
  have hall : ∀ v : Fin 16, hexDigit (UInt8.ofNat v) ∈ hexDigits := by
    rw [hexDigits_eq]
    decide
  have hnibble (v : UInt8) : hexDigit (v &&& 0xf) ∈ hexDigits := by
    have hlt : (v &&& 0xf).toNat < 16 := by
      rw [UInt8.toNat_and]
      exact Nat.and_lt_two_pow _ (by decide : (0xf : UInt8).toNat < 2 ^ 4)
    have hdigit := hall ⟨(v &&& 0xf).toNat, hlt⟩
    rwa [UInt8.ofNat_toNat] at hdigit
  rw [digitsOf, List.forall_mem_cons, List.forall_mem_singleton]
  exact ⟨hnibble _, hnibble _⟩

theorem byteOf_digitsOf (b : UInt8) :
    byteOf (hexDigit (b >>> 4 &&& 0xf)) (hexDigit (b &&& 0xf)) = b := by
  revert b
  apply forall_byte
  decide +kernel

theorem digitValue_lt {c : UInt8} (h : c ∈ hexDigits) : digitValue c < 16 := by
  have hall : ∀ c ∈ hexDigits, digitValue c < 16 := by decide
  exact hall c h

theorem hexDigit_digitValue {c : UInt8} (h : c ∈ hexDigits) :
    hexDigit (digitValue c) = toLower c := by
  have hall : ∀ c ∈ hexDigits, hexDigit (digitValue c) = toLower c := by decide
  exact hall c h

theorem digitsOf_byteOf {a b : UInt8} (ha : a ∈ hexDigits) (hb : b ∈ hexDigits) :
    digitsOf (byteOf a b) = [toLower a, toLower b] := by
  have hhalves : ∀ v w : Fin 16, ((UInt8.ofNat v <<< 4 ||| UInt8.ofNat w) >>> 4 &&& 0xf) =
      UInt8.ofNat v ∧ ((UInt8.ofNat v <<< 4 ||| UInt8.ofNat w) &&& 0xf) = UInt8.ofNat w := by
    decide
  have hcases := hhalves ⟨(digitValue a).toNat, digitValue_lt ha⟩
    ⟨(digitValue b).toNat, digitValue_lt hb⟩
  rw [UInt8.ofNat_toNat, UInt8.ofNat_toNat] at hcases
  rw [digitsOf, byteOf, hcases.1, hcases.2, hexDigit_digitValue ha, hexDigit_digitValue hb]

/-! ## The loops -/

section Loops

variable {hexstring rest out free : List UInt8} {a b : UInt8} {i n length : Nat}

theorem write_behind {x : UInt8} (h : 0 < free.length) :
    write (.behind out free) x = .ok (.behind (out ++ [x]) (free.drop 1)) := by
  rw [write, Cursor.put_behind h]

theorem read_drop (h : hexstring.drop i = a :: rest) : read hexstring i = .ok a := by
  rw [read, StringUtil.read_zero h]

theorem hexstringLoop_eq (rest out : List UInt8) (h : rest.length * 2 ≤ free.length) :
    hexstringLoop rest (.behind out free) =
      .ok (.behind (out ++ rest.flatMap digitsOf) (free.drop (rest.length * 2))) := by
  induction rest generalizing out free with
  | nil => rw [hexstringLoop, List.flatMap_nil, List.append_nil]; rfl
  | cons b rest ih =>
      rw [List.length_cons] at h
      have hfirst : 0 < free.length := by omega
      have hsecond : 0 < (free.drop 1).length := by
        rw [List.length_drop]
        omega
      have hrest : rest.length * 2 ≤ ((free.drop 1).drop 1).length := by
        rw [List.length_drop, List.length_drop]
        omega
      have hjoin : out ++ [hexDigit (b >>> 4 &&& 0xf)] ++ [hexDigit (b &&& 0xf)] =
          out ++ digitsOf b := List.append_assoc _ _ _
      rw [hexstringLoop, write_behind hfirst]
      show (write _ _ >>= _) = _
      rw [write_behind hsecond]
      show hexstringLoop _ _ = _
      rw [ih _ hrest, hjoin, List.flatMap_cons, List.append_assoc, List.drop_drop, List.drop_drop,
        List.length_cons, (by omega : 1 + (1 + rest.length * 2) = (rest.length + 1) * 2)]

/-- An iteration of the decoder. -/
theorem dataLoop_step (h : hexstring.drop i = a :: b :: rest) (hi : i < length)
    (hroom : 0 < free.length) : dataLoop hexstring length i (.behind out free) =
      if a ∈ hexDigits ∧ b ∈ hexDigits then
        dataLoop hexstring length (i + 2) (.behind (out ++ [byteOf a b]) (free.drop 1))
      else .error invalidHexstring := by
  rw [dataLoop, if_pos hi, read_drop h, read_drop (StringUtil.drop_next h)]
  show (highDigit a >>= fun byte => lowDigit byte b >>= _) = _
  rw [highDigit_eq]
  by_cases ha : a ∈ hexDigits
  · rw [if_pos ha]
    show (lowDigit _ b >>= _) = _
    rw [lowDigit_eq]
    by_cases hb : b ∈ hexDigits
    · rw [if_pos hb, if_pos ⟨ha, hb⟩]
      show (write _ _ >>= _) = _
      rw [← byteOf, write_behind hroom]
      rfl
    · rw [if_neg hb, if_neg fun h => hb h.2]
      rfl
  · rw [if_neg ha, if_neg fun h => ha h.1]
    rfl

/-- The decoder from `i` on, with an even number of characters before it. -/
theorem dataLoop_eq (out : List UInt8) (h : hexstring.drop i = rest)
    (hlength : i + rest.length = length) (heven : rest.length = 2 * n) (hroom : n ≤ free.length) :
    dataLoop hexstring length i (.behind out free) =
      if ∀ c ∈ rest, c ∈ hexDigits then
        .ok (.behind (out ++ bytesOf rest) (free.drop n))
      else .error invalidHexstring := by
  induction n generalizing i rest out free with
  | zero =>
      cases List.length_eq_zero_iff.mp heven
      have hend : ¬ i < length := Nat.not_lt_of_le (Nat.le_of_eq hlength.symm)
      rw [dataLoop, if_neg hend, if_pos (List.forall_mem_nil _)]
      exact congrArg (fun l => Except.ok (Cursor.behind l free)) (List.append_nil out).symm
  | succ n ih =>
      obtain ⟨a, b, rest, rfl, hrest⟩ := exists_pair heven
      rw [List.length_cons, List.length_cons] at hlength
      have hdrop : hexstring.drop (i + 2) = rest := StringUtil.drop_next (StringUtil.drop_next h)
      have hfree : n ≤ (free.drop 1).length := by
        rw [List.length_drop]
        omega
      rw [dataLoop_step h (by omega) (by omega)]
      by_cases hdigits : a ∈ hexDigits ∧ b ∈ hexDigits
      · rw [if_pos hdigits, ih _ hdrop (by omega) hrest hfree, List.append_assoc, List.drop_drop,
          Nat.add_comm 1 n]
        simp only [List.forall_mem_cons, hdigits, true_and]
        rfl
      · rw [if_neg hdigits, if_neg]
        intro hall
        exact hdigits ⟨hall a List.mem_cons_self,
          hall b (List.mem_cons_of_mem a List.mem_cons_self)⟩

end Loops

/-! ## Both directions -/

section Both

variable {h x : List UInt8} {n : Nat}

theorem length_digits (x : List UInt8) : (x.flatMap digitsOf).length = x.length * 2 := by
  induction x with
  | nil => rfl
  | cons b x ih =>
      rw [List.flatMap_cons, List.length_append, ih, List.length_cons, Nat.succ_mul, Nat.add_comm]
      rfl

theorem length_bytesOf (heven : h.length = 2 * n) : (bytesOf h).length = n := by
  induction n generalizing h with
  | zero =>
      cases List.length_eq_zero_iff.mp heven
      rfl
  | succ n ih =>
      obtain ⟨a, b, rest, rfl, hrest⟩ := exists_pair heven
      rw [bytesOf, List.length_cons, ih hrest]

theorem digits_bytesOf (heven : h.length = 2 * n) (hdigits : ∀ c ∈ h, c ∈ hexDigits) :
    (bytesOf h).flatMap digitsOf = h.map toLower := by
  induction n generalizing h with
  | zero =>
      cases List.length_eq_zero_iff.mp heven
      rfl
  | succ n ih =>
      obtain ⟨a, b, rest, rfl, hrest⟩ := exists_pair heven
      rw [List.forall_mem_cons, List.forall_mem_cons] at hdigits
      rw [bytesOf, List.flatMap_cons, digitsOf_byteOf hdigits.1 hdigits.2.1, ih hrest hdigits.2.2]
      rfl

theorem bytesOf_digits (x : List UInt8) : bytesOf (x.flatMap digitsOf) = x := by
  induction x with
  | nil => rfl
  | cons b x ih =>
      rw [List.flatMap_cons, digitsOf]
      show byteOf _ _ :: bytesOf (x.flatMap digitsOf) = b :: x
      rw [byteOf_digitsOf, ih]

theorem hexstringFromData_eq (x : List UInt8) :
    hexstringFromData x = .ok (x.flatMap digitsOf) := by
  by_cases hx : x.length = 0
  · cases List.length_eq_zero_iff.mp hx
    rfl
  · have hroom : x.length * 2 ≤ (List.replicate (x.length * 2) (0 : UInt8)).length :=
      Nat.le_of_eq List.length_replicate.symm
    rw [hexstringFromData, if_neg hx]
    show (hexstringLoop x (.behind [] _) >>= _) = _
    rw [hexstringLoop_eq x [] hroom, List.drop_replicate, Nat.sub_self]
    exact congrArg Except.ok (List.append_nil _)

theorem dataFromHexstring_odd (hodd : h.length % 2 = 1) :
    dataFromHexstring h = .error oddLength := by
  rw [dataFromHexstring, if_pos (by omega)]

theorem dataFromHexstring_even (heven : h.length = 2 * n) : dataFromHexstring h =
    if ∀ c ∈ h, c ∈ hexDigits then .ok (bytesOf h) else .error invalidHexstring := by
  have hmod : ¬ h.length % 2 ≠ 0 := by omega
  by_cases hzero : h.length = 0
  · cases List.length_eq_zero_iff.mp hzero
    rfl
  · have hroom : n ≤ (List.replicate (h.length / 2) (0 : UInt8)).length := by
      rw [List.length_replicate]
      omega
    have hloop := dataLoop_eq [] (List.drop_zero (l := h)) (Nat.zero_add _) heven hroom
    rw [dataFromHexstring, if_neg hmod, if_neg hzero, dataInto, if_neg hmod]
    show (dataLoop h h.length 0 (.behind [] _) >>= _) = _
    rw [hloop, List.drop_replicate, (by omega : h.length / 2 - n = 0)]
    by_cases hall : ∀ c ∈ h, c ∈ hexDigits
    · rw [if_pos hall, if_pos hall]
      exact congrArg Except.ok (List.append_nil _)
    · rw [if_neg hall, if_neg hall]
      rfl

end Both

/-- Hex coding is exact: what is encoded is decoded again; `std::invalid_argument` is thrown for
an odd length and for a character that is not a digit, and what is decoded otherwise is encoded to
the same text in lower case.  No read or write is outside. -/
theorem hex_exact :
    (∀ x, ∃ h, hexstringFromData x = .ok h ∧ dataFromHexstring h = .ok x) ∧
    ∀ h, ((∃ what, dataFromHexstring h = .error (.invalidArgument what)) ↔
        h.length % 2 = 1 ∨ ∃ c ∈ h, c ∉ hexDigits) ∧
      (¬ (h.length % 2 = 1 ∨ ∃ c ∈ h, c ∉ hexDigits) →
        ∃ x, dataFromHexstring h = .ok x ∧ x.length = h.length / 2 ∧
          hexstringFromData x = .ok (h.map toLower)) := by
  constructor
  · intro x
    have heven : (x.flatMap digitsOf).length = 2 * x.length := by
      rw [length_digits, Nat.mul_comm]
    have hall : ∀ c ∈ x.flatMap digitsOf, c ∈ hexDigits := by
      intro c hc
      obtain ⟨b, -, hb⟩ := List.mem_flatMap.mp hc
      exact hexDigit_mem b c hb
    refine ⟨_, hexstringFromData_eq x, ?_⟩
    rw [dataFromHexstring_even heven, if_pos hall, bytesOf_digits]
  · intro h
    by_cases hodd : h.length % 2 = 1
    · constructor
      · exact iff_of_true ⟨_, dataFromHexstring_odd hodd⟩ (Or.inl hodd)
      · exact fun hnot => absurd (Or.inl hodd) hnot
    · have heven : h.length = 2 * (h.length / 2) := by omega
      have hdata := dataFromHexstring_even heven
      by_cases hall : ∀ c ∈ h, c ∈ hexDigits
      · rw [if_pos hall] at hdata
        constructor
        · refine iff_of_false ?_ ?_
          · rintro ⟨what, hwhat⟩
            rw [hdata] at hwhat
            cases hwhat
          · rintro (h1 | ⟨c, hc, hnot⟩)
            · exact hodd h1
            · exact hnot (hall c hc)
        · intro _
          refine ⟨bytesOf h, hdata, length_bytesOf heven, ?_⟩
          rw [hexstringFromData_eq, digits_bytesOf heven hall]
      · rw [if_neg hall] at hdata
        have hbad : ∃ c ∈ h, c ∉ hexDigits := by
          by_contra hnone
          exact hall fun c hc => by_contra fun hdigit => hnone ⟨c, hc, hdigit⟩
        exact ⟨iff_of_true ⟨_, hdata⟩ (Or.inr hbad), fun hnot => absurd (Or.inr hbad) hnot⟩

end Lyslg.Hex
