import Lyslg.Util.Url
/-!
# What the URL codec computes

`UrlDecode` is the decoder that goes over the text from left to right, and it undoes
`UrlEncode`.  `UrlEncode` replaces what its comment does not list as unreserved, but for `=`.
-/

namespace Lyslg.StringUtil

open Http

variable {str rest : List UInt8} {e d : Bool} {c : Nat} {x : UInt8}

/-! ## The text behind the pointer -/

theorem drop_next (h : str.drop c = x :: rest) : str.drop (c + 1) = rest := by
  rw [← List.drop_drop, h]
  rfl

theorem read_zero (h : str.drop c = x :: rest) : str[c]? = some x := by
  have := congrArg List.head? h
  rwa [List.head?_drop] at this

theorem length_next (h : str.drop c = x :: rest) : str.length = c + 1 + rest.length := by
  have hlen := congrArg List.length h
  rw [List.length_drop, List.length_cons] at hlen
  omega

theorem take_next (h : str.drop c = x :: rest) : str.take (c + 1) = str.take c ++ [x] := by
  have hlt : c < str.length := by
    by_contra hle
    rw [List.drop_eq_nil_of_le (Nat.le_of_not_lt hle)] at h
    cases h
  have hx : str[c] = x := by
    rw [List.drop_eq_getElem_cons hlt] at h
    exact (List.cons.inj h).1
  rw [List.take_add_one, List.getElem?_eq_getElem hlt, hx]
  rfl

/-- What the output grows by when nothing is changed. -/
theorem copied (ss : Option (List UInt8)) (h : str.drop c = x :: rest) :
    (ss.map fun s => s ++ [x]).getD (str.take (c + 1)) = ss.getD (str.take c) ++ [x] := by
  cases ss with
  | none => rw [Option.map_none, Option.getD_none, Option.getD_none, take_next h]
  | some s => rfl

/-! ## The encoder -/

/-- What `UrlEncode` writes for a byte. -/
def encodedByte (e : Bool) (x : UInt8) : List UInt8 :=
  if charIsUnreserved x then [x] else escape e x

theorem urlEncodeLoop_eq (ss : Option (List UInt8)) (h : str.drop c = rest) :
    (urlEncodeLoop str e rest c ss).getD str =
      ss.getD (str.take c) ++ rest.flatMap (encodedByte e) := by
  induction rest generalizing c ss with
  | nil =>
      rw [List.drop_eq_nil_iff] at h
      rw [urlEncodeLoop, List.take_of_length_le h, List.flatMap_nil, List.append_nil]
  | cons x rest ih =>
      rw [urlEncodeLoop, List.flatMap_cons, encodedByte]
      split
      · rename_i hx
        rw [ih _ (drop_next h), if_neg (by simpa using hx), Option.getD_some, List.append_assoc]
      · rename_i hx
        rw [ih _ (drop_next h), if_pos (by simpa using hx), ← List.append_assoc]
        cases ss with
        | none => rw [Option.map_none, Option.getD_none, Option.getD_none, take_next h]
        | some s => rfl

theorem urlEncode_eq (s : List UInt8) : urlEncode s e = s.flatMap (encodedByte e) := by
  exact urlEncodeLoop_eq none (List.drop_zero (l := s))

/-! ## The reference decoder -/

def hexValue (c : UInt8) : Option Nat :=
  if 48 ≤ c ∧ c ≤ 57 then some (c.toNat - 48)
  else if 65 ≤ c ∧ c ≤ 70 then some (c.toNat - 55)
  else if 97 ≤ c ∧ c ≤ 102 then some (c.toNat - 87)
  else none

/-- The byte of an escape at the front of a text. -/
def escaped : List UInt8 → Option UInt8
  | c :: a :: b :: _ =>
      if c = 37 then do return UInt8.ofNat (16 * (← hexValue a) + (← hexValue b)) else none
  | _ => none

def plain (spaceAsPlus : Bool) (c : UInt8) : UInt8 := if c = 43 ∧ spaceAsPlus then 32 else c

/-- The reference decoder. -/
def decoded (spaceAsPlus : Bool) : List UInt8 → List UInt8
  | c :: a :: b :: rest =>
      match escaped (c :: a :: b :: rest) with
      | some byte => byte :: decoded spaceAsPlus rest
      | none => plain spaceAsPlus c :: decoded spaceAsPlus (a :: b :: rest)
  | c :: rest => plain spaceAsPlus c :: decoded spaceAsPlus rest
  | [] => []

-- an escape that is cut off, or that is none, is copied
example : decoded true (chars "a+b%20c%4x%4") = chars "a b c%4x%4" := by decide

theorem decoded_cons (x : UInt8) (rest : List UInt8) : decoded d (x :: rest) =
    match escaped (x :: rest) with
    | some byte => byte :: decoded d (rest.drop 2)
    | none => plain d x :: decoded d rest := by
  match rest with
  | [] => rfl
  | [a] => rfl
  | a :: b :: rest => rw [decoded]; rfl

theorem decoded_of_ne (hx : x ≠ 37) : decoded d (x :: rest) = plain d x :: decoded d rest := by
  have hnone : escaped (x :: rest) = none := by
    match rest with
    | [] => rfl
    | [a] => rfl
    | a :: b :: rest => exact if_neg hx
  rw [decoded_cons, hnone]

/-! ## The decoder -/

theorem xdigit_iff (c : UInt8) : isxdigit (signedChar c) = (hexValue c).isSome ∧
    ∀ n ∈ hexValue c, xdigitChar (signedChar c) = some (UInt8.ofNat n) ∧ n < 16 := by
  revert c
  apply forall_byte
  decide +kernel

theorem isEscape_eq (h : str.drop c = x :: rest) :
    isEscape str c = some (escaped (x :: rest)).isSome := by
  have hlen := length_next h
  unfold isEscape
  rw [read_zero h, Option.bind_eq_bind, Option.bind_some]
  match rest with
  | [] =>
      rw [if_neg (by simp at hlen; omega)]
      rfl
  | [a] =>
      rw [if_neg (by simp at hlen; omega)]
      rfl
  | a :: b :: rest =>
      rw [read_zero (drop_next h), read_zero (drop_next (drop_next h)), escaped]
      by_cases hx : x = 37
      · rw [if_pos ⟨hx, by simp at hlen; omega⟩, if_pos hx, Option.bind_some, Option.bind_some,
          (xdigit_iff a).1, (xdigit_iff b).1]
        cases hexValue a <;> cases hexValue b <;> rfl
      · rw [if_neg (fun h => hx h.1), if_neg hx]
        rfl

theorem or_nibbles {hi lo : Nat} (hhi : hi < 16) (hlo : lo < 16) :
    UInt8.ofNat hi <<< 4 ||| UInt8.ofNat lo = UInt8.ofNat (16 * hi + lo) := by
  have hall : ∀ hi lo : Fin 16,
      UInt8.ofNat hi <<< 4 ||| UInt8.ofNat lo = UInt8.ofNat (16 * hi + lo) := by decide +kernel
  exact hall ⟨hi, hhi⟩ ⟨lo, hlo⟩

theorem escapedChar_eq {byte : UInt8} (h : str.drop c = x :: rest)
    (hbyte : escaped (x :: rest) = some byte) : escapedChar str c = some byte := by
  match rest with
  | [] => cases hbyte
  | [a] => cases hbyte
  | a :: b :: rest =>
      rw [escaped] at hbyte
      split at hbyte
      · obtain ⟨hi, hhi, hbyte⟩ := Option.bind_eq_some_iff.mp hbyte
        obtain ⟨lo, hlo, hbyte⟩ := Option.bind_eq_some_iff.mp hbyte
        obtain ⟨hhigh, hhi16⟩ := (xdigit_iff a).2 hi hhi
        obtain ⟨hlow, hlo16⟩ := (xdigit_iff b).2 lo hlo
        unfold escapedChar
        rw [read_zero (drop_next h), read_zero (drop_next (drop_next h))]
        simp only [Option.bind_eq_bind, Option.bind_some, hhigh, hlow]
        rw [or_nibbles hhi16 hlo16]
        exact hbyte
      · cases hbyte

/-- A turn of the loop, by what is in front of it. -/
theorem urlDecodeLoop_next (ss : Option (List UInt8)) (h : str.drop c = x :: rest) :
    urlDecodeLoop str d c ss =
      match escaped (x :: rest) with
      | some byte => urlDecodeLoop str d (c + 3) (some (ss.getD (str.take c) ++ [byte]))
      | none =>
          if x = 43 ∧ d then urlDecodeLoop str d (c + 1) (some (ss.getD (str.take c) ++ [32]))
          else urlDecodeLoop str d (c + 1) (ss.map fun s => s ++ [x]) := by
  have hlen := length_next h
  rw [urlDecodeLoop, if_pos (by omega), read_zero h, Option.bind_eq_bind, Option.bind_some,
    isEscape_eq h, Option.bind_eq_bind, Option.bind_some]
  cases hbyte : escaped (x :: rest) with
  | none => rfl
  | some byte =>
      have hx : x ≠ 43 := by
        rintro rfl
        match rest with
        | [] => cases hbyte
        | [a] => cases hbyte
        | a :: b :: rest => cases hbyte
      rw [if_neg (fun h => hx h.1), escapedChar_eq h hbyte]
      rfl

theorem urlDecodeLoop_eq (ss : Option (List UInt8)) (h : str.drop c = rest) :
    ∃ out, urlDecodeLoop str d c ss = some out ∧
      out.getD str = ss.getD (str.take c) ++ decoded d rest := by
  induction hn : rest.length using Nat.strong_induction_on generalizing rest c ss with
  | _ n ih =>
    cases rest with
    | nil =>
        have hle := List.drop_eq_nil_iff.mp h
        refine ⟨ss, ?_, ?_⟩
        · rw [urlDecodeLoop, if_neg (Nat.not_lt.mpr hle)]
        · rw [List.take_of_length_le hle, decoded, List.append_nil]
    | cons x rest =>
        rw [List.length_cons] at hn
        have hnext := drop_next h
        rw [urlDecodeLoop_next ss h, decoded_cons]
        cases hbyte : escaped (x :: rest) with
        | some byte =>
            have hskip : str.drop (c + 3) = rest.drop 2 := by
              rw [← hnext, List.drop_drop]
            obtain ⟨out, hout, heq⟩ := ih (rest.drop 2).length (by rw [List.length_drop]; omega)
              (some (ss.getD (str.take c) ++ [byte])) hskip rfl
            refine ⟨out, hout, ?_⟩
            rw [heq, Option.getD_some, List.append_assoc, List.singleton_append]
        | none =>
            dsimp only
            by_cases hplus : x = 43 ∧ d = true
            · obtain ⟨out, hout, heq⟩ := ih rest.length (by omega)
                (some (ss.getD (str.take c) ++ [32])) hnext rfl
              rw [if_pos hplus, plain, if_pos hplus]
              refine ⟨out, hout, ?_⟩
              rw [heq, Option.getD_some, List.append_assoc, List.singleton_append]
            · obtain ⟨out, hout, heq⟩ := ih rest.length (by omega)
                (ss.map fun s => s ++ [x]) hnext rfl
              rw [if_neg hplus, plain, if_neg hplus]
              refine ⟨out, hout, ?_⟩
              rw [heq, copied ss h, List.append_assoc, List.singleton_append]

theorem urlDecode_eq (s : List UInt8) : urlDecode s d = some (decoded d s) := by
  obtain ⟨out, hout, heq⟩ := urlDecodeLoop_eq (d := d) none (List.drop_zero (l := s))
  rw [urlDecode, hout, Option.map_some, heq]
  rfl

/-! ## Decoding what was encoded -/

theorem hexValue_hexdigits : ∀ n < 16, hexValue (hexdigits.getD n 0) = some n := by decide

theorem nibbles (x : UInt8) :
    (x >>> 4).toNat = x.toNat / 16 ∧ (x &&& 0xf).toNat = x.toNat % 16 := by
  constructor
  · rw [UInt8.toNat_shiftRight]
    exact Nat.shiftRight_eq_div_pow x.toNat 4
  · rw [UInt8.toNat_and]
    exact Nat.and_two_pow_sub_one_eq_mod x.toNat 4

theorem escaped_hexdigits (x : UInt8) : escaped (37 :: hexdigits.getD (x >>> 4).toNat 0 ::
    hexdigits.getD (x &&& 0xf).toNat 0 :: rest) = some x := by
  have hlt := x.toNat_lt
  obtain ⟨hhigh, hlow⟩ := nibbles x
  rw [escaped, if_pos rfl, hhigh, hlow, hexValue_hexdigits _ (by omega),
    hexValue_hexdigits _ (by omega), Option.bind_eq_bind, Option.bind_some, Option.bind_some,
    Nat.div_add_mod, UInt8.ofNat_toNat]
  rfl

theorem decoded_encodedByte (h : e = true → d = true) (x : UInt8) :
    decoded d (encodedByte e x ++ rest) = x :: decoded d rest := by
  unfold encodedByte escape
  split
  · rename_i hx
    have hpercent : x ≠ 37 := by
      rintro rfl
      revert hx
      decide
    have hplus : x ≠ 43 := by
      rintro rfl
      revert hx
      decide
    rw [List.singleton_append, decoded_of_ne hpercent, plain, if_neg fun h => hplus h.1]
  · split
    · rename_i hspace
      rw [List.singleton_append, decoded_of_ne (by decide), plain, if_pos ⟨rfl, h hspace.2⟩,
        hspace.1]
    · rw [List.cons_append, List.cons_append, List.singleton_append, decoded_cons,
        escaped_hexdigits]
      rfl

theorem decoded_encoded (h : e = true → d = true) (s : List UInt8) :
    decoded d (s.flatMap (encodedByte e)) = s := by
  induction s with
  | nil => rfl
  | cons x s ih => rw [List.flatMap_cons, decoded_encodedByte h, ih]

/-- `UrlDecode` is the reference decoder, and decoding undoes encoding. -/
theorem urlDecode_exact (s : List UInt8) (d : Bool) :
    urlDecode s d = some (decoded d s) ∧
      ∀ e : Bool, (e = true → d = true) → urlDecode (urlEncode s e) d = some s := by
  refine ⟨urlDecode_eq s, fun e h => ?_⟩
  rw [urlDecode_eq, urlEncode_eq, decoded_encoded h]

theorem urlDecode_exact_space :
    (true = true → true = true) ∧
      urlDecode (urlEncode (chars "a b&=%") true) true = some (chars "a b&=%") :=
  ⟨id, (urlDecode_exact (chars "a b&=%") true).2 true id⟩

/-! ## The alphabet -/

/-- The unreserved characters that the comment lists. -/
def unreserved : List UInt8 :=
  chars "-.0123456789ABCDEFGHIJKLMNOPQRSTUVWXYZ_abcdefghijklmnopqrstuvwxyz~"

def upperHex (n : Nat) : UInt8 := if n < 10 then UInt8.ofNat (48 + n) else UInt8.ofNat (55 + n)

/-- What the comment says is written for a byte. -/
def documentedByte (e : Bool) (x : UInt8) : List UInt8 :=
  if x ∈ unreserved then [x]
  else if x = 32 ∧ e then [43]
  else [37, upperHex (x.toNat / 16), upperHex (x.toNat % 16)]

/-- The output is as documented, and in the documented alphabet. -/
def DocumentedEncoding (s : List UInt8) (e : Bool) : Prop :=
  urlEncode s e = s.flatMap (documentedByte e) ∧
    ∀ c ∈ urlEncode s e, c ∈ unreserved ∨ c = 37 ∨ (c = 43 ∧ e = true)

theorem upperHex_spec : ∀ n < 16, hexdigits.getD n 0 = upperHex n ∧ upperHex n ∈ unreserved := by
  decide

/-- The codes in the comment, below and above that of `=`. -/
def codes : List Nat × List Nat :=
  (45 :: 46 :: List.range' 48 10, List.range' 65 26 ++ 95 :: List.range' 97 26 ++ [126])

/-- The table has one entry more than the comment. -/
theorem uriChars_codes :
    (uriChars.zipIdx.filter fun entry => entry.1 != 0).map Prod.snd = codes.1 ++ 61 :: codes.2 := by
  decide +kernel

theorem unreserved_codes : unreserved = (codes.1 ++ codes.2).map UInt8.ofNat := by decide

theorem codes_lt : ∀ n ∈ codes.1 ++ codes.2, n < 256 := by decide

theorem charIsUnreserved_iff (hx : x ≠ 61) : charIsUnreserved x ↔ x ∈ unreserved := by
  have hne : x.toNat ≠ 61 := fun h => hx (UInt8.toNat_inj.mp h)
  have htable : charIsUnreserved x ↔ x.toNat ∈ codes.1 ++ 61 :: codes.2 := by
    rw [← uriChars_codes, List.mem_map]
    constructor
    · intro h
      have hlength : uriChars.length = 256 := by decide +kernel
      have hlt : x.toNat < uriChars.length := hlength ▸ x.toNat_lt
      have hentry : uriChars[x.toNat]? = some (uriChars.getD x.toNat 0) := by
        rw [List.getD_eq_getElem?_getD, List.getElem?_eq_getElem hlt, Option.getD_some]
      exact ⟨(uriChars.getD x.toNat 0, x.toNat),
        List.mem_filter.mpr ⟨List.mem_zipIdx_iff_getElem?.mpr hentry, h⟩, rfl⟩
    · rintro ⟨⟨b, n⟩, hentry, rfl⟩
      obtain ⟨hmem, hb⟩ := List.mem_filter.mp hentry
      have hvalue : uriChars.getD x.toNat 0 = b := by
        rw [List.getD_eq_getElem?_getD, List.mem_zipIdx_iff_getElem?.mp hmem]
        rfl
      rw [charIsUnreserved, hvalue]
      exact hb
  rw [htable, unreserved_codes, List.mem_map]
  constructor
  · intro h
    refine ⟨x.toNat, ?_, UInt8.ofNat_toNat⟩
    simpa [hne] using h
  · rintro ⟨n, hn, rfl⟩
    have hcode : (UInt8.ofNat n).toNat = n := by
      rw [UInt8.toNat_ofNat', Nat.mod_eq_of_lt (codes_lt n hn)]
    rw [hcode]
    rw [List.mem_append] at hn ⊢
    exact hn.imp id fun h => List.mem_cons_of_mem _ h

theorem encodedByte_of_ne (hx : x ≠ 61) : encodedByte e x = documentedByte e x := by
  have hlt := x.toNat_lt
  obtain ⟨hhigh, hlow⟩ := nibbles x
  unfold encodedByte documentedByte escape
  rw [hhigh, hlow, (upperHex_spec _ (by omega)).1, (upperHex_spec _ (by omega)).1]
  by_cases hin : x ∈ unreserved
  · rw [if_pos hin, if_pos ((charIsUnreserved_iff hx).mpr hin)]
  · rw [if_neg hin, if_neg fun h => hin ((charIsUnreserved_iff hx).mp h)]

theorem documentedByte_alphabet {c : UInt8} (hc : c ∈ documentedByte e x) :
    c ∈ unreserved ∨ c = 37 ∨ (c = 43 ∧ e = true) := by
  have hlt := x.toNat_lt
  unfold documentedByte at hc
  split at hc
  · rename_i hx
    obtain rfl := List.mem_singleton.mp hc
    exact .inl hx
  · split at hc
    · rename_i hspace
      exact .inr (.inr ⟨List.mem_singleton.mp hc, hspace.2⟩)
    · simp only [List.mem_cons, List.not_mem_nil, or_false] at hc
      rcases hc with rfl | rfl | rfl
      · exact .inr (.inl rfl)
      · exact .inl (upperHex_spec _ (by omega)).2
      · exact .inl (upperHex_spec _ (by omega)).2

/-- The output is as documented exactly if there is no `=` in the text. -/
theorem urlEncode_documented_iff (s : List UInt8) (e : Bool) :
    DocumentedEncoding s e ↔ 61 ∉ s := by
  constructor
  · rintro ⟨-, halphabet⟩ hmem
    have hkept : (61 : UInt8) ∈ urlEncode s e := by
      rw [urlEncode_eq]
      exact List.mem_flatMap.mpr ⟨61, hmem, by cases e <;> decide⟩
    rcases halphabet 61 hkept with h | h | h
    · revert h
      decide
    · cases h
    · cases h.1
  · intro hs
    have heq : urlEncode s e = s.flatMap (documentedByte e) := by
      rw [urlEncode_eq]
      exact congrArg List.flatten (List.map_congr_left fun x hx =>
        encodedByte_of_ne fun h => hs (h ▸ hx))
    refine ⟨heq, fun c hc => ?_⟩
    rw [heq] at hc
    obtain ⟨x, -, hc⟩ := List.mem_flatMap.mp hc
    exact documentedByte_alphabet hc

theorem urlEncode_leaks_equals_sign : ¬ DocumentedEncoding (chars "=") true := by
  rintro ⟨-, halphabet⟩
  have hmem := halphabet 61 (by decide)
  revert hmem
  decide

end Lyslg.StringUtil
