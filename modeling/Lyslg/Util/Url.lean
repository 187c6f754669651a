import Lyslg.Http.Request
/-!
# `StringUtil::UrlEncode` and `StringUtil::UrlDecode`

Both go over the text with a pointer and have no output until a character has to be changed;
the output then starts with a copy of what is before the pointer.  A pointer is a position
here, and a read that is not of a character of the text is an error.
-/

namespace Lyslg.StringUtil

open Http

def uriChars : List UInt8 := [
  0, 0, 0, 0, 0, 0, 0, 0, 0, 0, 0, 0, 0, 0, 0, 0,
  0, 0, 0, 0, 0, 0, 0, 0, 0, 0, 0, 0, 0, 0, 0, 0,
  0, 0, 0, 0, 0, 0, 0, 0, 0, 0, 0, 0, 0, 1, 1, 0,
  1, 1, 1, 1, 1, 1, 1, 1, 1, 1, 0, 0, 0, 1, 0, 0,
  0, 1, 1, 1, 1, 1, 1, 1, 1, 1, 1, 1, 1, 1, 1, 1,
  1, 1, 1, 1, 1, 1, 1, 1, 1, 1, 1, 0, 0, 0, 0, 1,
  0, 1, 1, 1, 1, 1, 1, 1, 1, 1, 1, 1, 1, 1, 1, 1,
  1, 1, 1, 1, 1, 1, 1, 1, 1, 1, 1, 0, 0, 0, 1, 0,
  0, 0, 0, 0, 0, 0, 0, 0, 0, 0, 0, 0, 0, 0, 0, 0,
  0, 0, 0, 0, 0, 0, 0, 0, 0, 0, 0, 0, 0, 0, 0, 0,
  0, 0, 0, 0, 0, 0, 0, 0, 0, 0, 0, 0, 0, 0, 0, 0,
  0, 0, 0, 0, 0, 0, 0, 0, 0, 0, 0, 0, 0, 0, 0, 0,
  0, 0, 0, 0, 0, 0, 0, 0, 0, 0, 0, 0, 0, 0, 0, 0,
  0, 0, 0, 0, 0, 0, 0, 0, 0, 0, 0, 0, 0, 0, 0, 0,
  0, 0, 0, 0, 0, 0, 0, 0, 0, 0, 0, 0, 0, 0, 0, 0,
  0, 0, 0, 0, 0, 0, 0, 0, 0, 0, 0, 0, 0, 0, 0, 0]

def xdigitChars : List UInt8 := [
  0, 0, 0, 0, 0, 0, 0, 0, 0, 0, 0, 0, 0, 0, 0, 0,
  0, 0, 0, 0, 0, 0, 0, 0, 0, 0, 0, 0, 0, 0, 0, 0,
  0, 0, 0, 0, 0, 0, 0, 0, 0, 0, 0, 0, 0, 0, 0, 0,
  0, 1, 2, 3, 4, 5, 6, 7, 8, 9, 0, 0, 0, 0, 0, 0,
  0, 10, 11, 12, 13, 14, 15, 0, 0, 0, 0, 0, 0, 0, 0, 0,
  0, 0, 0, 0, 0, 0, 0, 0, 0, 0, 0, 0, 0, 0, 0, 0,
  0, 10, 11, 12, 13, 14, 15, 0, 0, 0, 0, 0, 0, 0, 0, 0,
  0, 0, 0, 0, 0, 0, 0, 0, 0, 0, 0, 0, 0, 0, 0, 0,
  0, 0, 0, 0, 0, 0, 0, 0, 0, 0, 0, 0, 0, 0, 0, 0,
  0, 0, 0, 0, 0, 0, 0, 0, 0, 0, 0, 0, 0, 0, 0, 0,
  0, 0, 0, 0, 0, 0, 0, 0, 0, 0, 0, 0, 0, 0, 0, 0,
  0, 0, 0, 0, 0, 0, 0, 0, 0, 0, 0, 0, 0, 0, 0, 0,
  0, 0, 0, 0, 0, 0, 0, 0, 0, 0, 0, 0, 0, 0, 0, 0,
  0, 0, 0, 0, 0, 0, 0, 0, 0, 0, 0, 0, 0, 0, 0, 0,
  0, 0, 0, 0, 0, 0, 0, 0, 0, 0, 0, 0, 0, 0, 0, 0,
  0, 0, 0, 0, 0, 0, 0, 0, 0, 0, 0, 0, 0, 0, 0, 0]

/-- `CHAR_IS_UNRESERVED` -/
def charIsUnreserved (c : UInt8) : Bool := uriChars.getD c.toNat 0 != 0

def hexdigits : List UInt8 := chars "0123456789ABCDEF"

/-! ## Encoding -/

/-- What is appended for a character that is not copied. -/
def escape (spaceAsPlus : Bool) (c : UInt8) : List UInt8 :=
  if c = 32 ∧ spaceAsPlus then [43]
  else [37, hexdigits.getD (c >>> 4).toNat 0, hexdigits.getD (c &&& 0xf).toNat 0]

/-- The loop of `UrlEncode` from position `c` on, where `rest` is still to be read. -/
def urlEncodeLoop (str : List UInt8) (spaceAsPlus : Bool) :
    List UInt8 → Nat → Option (List UInt8) → Option (List UInt8)
  | [], _, ss => ss
  | x :: rest, c, ss =>
      if !charIsUnreserved x then
        urlEncodeLoop str spaceAsPlus rest (c + 1)
          (some (ss.getD (str.take c) ++ escape spaceAsPlus x))
      else urlEncodeLoop str spaceAsPlus rest (c + 1) (ss.map fun s => s ++ [x])

def urlEncode (str : List UInt8) (spaceAsPlus : Bool) : List UInt8 :=
  (urlEncodeLoop str spaceAsPlus str 0 none).getD str

/-! ## Decoding -/

/-- A `char`, which is signed, as an `int`. -/
def signedChar (c : UInt8) : Int := c.toInt8.toInt

def isxdigit (c : Int) : Bool :=
  (48 ≤ c && c ≤ 57) || (65 ≤ c && c ≤ 70) || (97 ≤ c && c ≤ 102)

/-- `xdigit_chars[i]` -/
def xdigitChar (i : Int) : Option UInt8 := if i < 0 then none else xdigitChars[i.toNat]?

/-- `*c == '%' && (c + 2) < end && isxdigit(*(c + 1)) && isxdigit(*(c + 2))` -/
def isEscape (str : List UInt8) (c : Nat) : Option Bool := do
  if (← str[c]?) = 37 ∧ c + 2 < str.length then
    if isxdigit (signedChar (← str[c + 1]?)) then
      return isxdigit (signedChar (← str[c + 2]?))
  return false

/-- `(char)(xdigit_chars[(int)*(c + 1)] << 4 | xdigit_chars[(int)*(c + 2)])` -/
def escapedChar (str : List UInt8) (c : Nat) : Option UInt8 := do
  let high ← xdigitChar (signedChar (← str[c + 1]?))
  let low ← xdigitChar (signedChar (← str[c + 2]?))
  return high <<< 4 ||| low

/-- The loop of `UrlDecode` from position `c` on. -/
def urlDecodeLoop (str : List UInt8) (spaceAsPlus : Bool) (c : Nat) (ss : Option (List UInt8)) :
    Option (Option (List UInt8)) :=
  if c < str.length then do
    let x ← str[c]?
    if x = 43 ∧ spaceAsPlus then
      urlDecodeLoop str spaceAsPlus (c + 1) (some (ss.getD (str.take c) ++ [32]))
    else if ← isEscape str c then
      let byte ← escapedChar str c
      urlDecodeLoop str spaceAsPlus (c + 3) (some (ss.getD (str.take c) ++ [byte]))
    else urlDecodeLoop str spaceAsPlus (c + 1) (ss.map fun s => s ++ [x])
  else some ss
termination_by str.length - c

/-- None is a read past the end of the text. -/
def urlDecode (str : List UInt8) (spaceAsPlus : Bool) : Option (List UInt8) :=
  (urlDecodeLoop str spaceAsPlus 0 none).map fun ss => ss.getD str

end Lyslg.StringUtil
