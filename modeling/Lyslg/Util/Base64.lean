import Lyslg.Http.Request
import Lyslg.Support.Cursor
/-!
# `base64encode` and `base64decode`

The decoder writes through a pointer into a string that has its full size from the start, and a
write behind that string is an error here.
-/

namespace Lyslg.Base64

open Http Support

/-! ## Encoding -/

/-- The table `base64` of the encoder. -/
def base64 : List UInt8 :=
  chars "ABCDEFGHIJKLMNOPQRSTUVWXYZabcdefghijklmnopqrstuvwxyz0123456789+/"

/-- `base64[i]` -/
def base64Char (i : Nat) : UInt8 := base64.getD i 0

/-- The loop `for(; i < 3 && ptr < end; ++i, ++ptr)`, with `i`, `packed` and what is behind `ptr`
in the end. -/
def packBytes : List UInt8 → Nat → Nat → Nat × Nat × List UInt8
  | [], i, packed => (i, packed, [])
  | b :: rest, i, packed =>
      if i < 3 then packBytes rest (i + 1) (packed <<< 8 ||| b.toNat) else (i, packed, b :: rest)

/-- The loop `for(; i < 3; ++i)` -/
def packZeros (i packed : Nat) : Nat := (fun v => v <<< 8)^[3 - i] packed

/-- What is appended for the bytes in `packed`. -/
def groupText (padding packed : Nat) : List UInt8 :=
  [base64Char (packed >>> 18), base64Char (packed >>> 12 &&& 0x3f)] ++
    (if padding ≠ 2 then [base64Char (packed >>> 6 &&& 0x3f)] else []) ++
    (if padding = 0 then [base64Char (packed &&& 0x3f)] else []) ++
    List.replicate padding 61

theorem packBytes_length (rest : List UInt8) (i packed : Nat) :
    (packBytes rest i packed).2.2.length ≤ rest.length := by
  induction rest generalizing i packed with
  | nil => exact Nat.le_refl _
  | cons b rest ih =>
      rw [packBytes]
      split
      · exact (ih _ _).trans (Nat.le_succ _)
      · exact Nat.le_refl _

/-- The loop of `base64encode` with `rest` behind `ptr`. -/
def encodeLoop : List UInt8 → List UInt8 → List UInt8
  | [], ret => ret
  | b :: rest, ret =>
      let group := packBytes (b :: rest) 0 0
      let padding := if group.1 = 2 then 1 else if group.1 = 1 then 2 else 0
      encodeLoop group.2.2 (ret ++ groupText padding (packZeros group.1 group.2.1))
termination_by rest => rest.length
decreasing_by
  exact Nat.lt_succ_of_le (packBytes_length rest 1 _)

def base64encode (data : List UInt8) : List UInt8 := encodeLoop data []

/-! ## Decoding -/

/-- The branches that give `val`; none is an invalid character. -/
def charVal (c : UInt8) : Option Nat :=
  if 65 ≤ c ∧ c ≤ 90 then some (c.toNat - 65)
  else if 97 ≤ c ∧ c ≤ 122 then some (c.toNat - 97 + 26)
  else if 48 ≤ c ∧ c ≤ 57 then some (c.toNat - 48 + 52)
  else if c = 43 then some 62
  else if c = 47 then some 63
  else none

/-- The locals of the outer loop's body. -/
structure Group where
  i : Nat
  padding : Nat
  packed : Nat
  deriving DecidableEq, Repr

/-- The loop `for(; i < 4 && ptr < end; ++i, ++ptr)`, with what is behind `ptr` in the end; none
is `return ""`. -/
def readGroup : List UInt8 → Group → Option (Group × List UInt8)
  | [], g => some (g, [])
  | c :: rest, g =>
      if g.i < 4 then
        if c = 61 then readGroup rest ⟨g.i + 1, g.padding + 1, g.packed <<< 6⟩
        else if 0 < g.padding then none
        else
          match charVal c with
          | none => none
          | some val => readGroup rest ⟨g.i + 1, g.padding, g.packed <<< 6 ||| val⟩
      else some (g, c :: rest)

/-- `*writeBuf++ = (char)(v & 0xff)`, where `writeBuf` is a position in `result`. -/
def putByte (o : Cursor UInt8) (v : Nat) : Option (Cursor UInt8) :=
  o.put (UInt8.ofNat (v &&& 0xff))

/-- The writes of one group. -/
def putGroup (o : Cursor UInt8) (g : Group) : Option (Cursor UInt8) := do
  let o ← putByte o (g.packed >>> 16)
  let o ← if g.padding ≠ 2 then putByte o (g.packed >>> 8) else some o
  if g.padding = 0 then putByte o g.packed else some o

theorem readGroup_length {rest behind : List UInt8} {g g' : Group}
    (h : readGroup rest g = some (g', behind)) : behind.length ≤ rest.length := by
  induction rest generalizing g with
  | nil =>
      cases h
      exact Nat.le_refl _
  | cons c rest ih =>
      rw [readGroup] at h
      split at h
      · split at h
        · exact (ih h).trans (Nat.le_succ _)
        · split at h
          · cases h
          · split at h
            · cases h
            · exact (ih h).trans (Nat.le_succ _)
      · cases h
        exact Nat.le_refl _

theorem readGroup_shorter {c : UInt8} {rest behind : List UInt8} {g' : Group}
    (h : readGroup (c :: rest) ⟨0, 0, 0⟩ = some (g', behind)) : behind.length ≤ rest.length := by
  rw [readGroup, if_pos (by decide)] at h
  split at h
  · exact readGroup_length h
  · split at h
    · cases h
    · split at h
      · cases h
      · exact readGroup_length h

/-- The loop of `base64decode` with `rest` behind `ptr`; none is a write behind `result`. -/
def decodeLoop : List UInt8 → Cursor UInt8 → Option (List UInt8)
  | [], o => some o.written
  | c :: rest, o =>
      match _h : readGroup (c :: rest) ⟨0, 0, 0⟩ with
      | none => some []
      | some (g, behind) =>
          if g.i ≠ 4 then some []
          else if 0 < g.padding ∧ behind ≠ [] then some []
          else if 2 < g.padding then some []
          else do
            let o ← putGroup o g
            decodeLoop behind o
termination_by rest => rest.length
decreasing_by
  exact Nat.lt_succ_of_le (readGroup_shorter _h)

def base64decode (src : List UInt8) : Option (List UInt8) :=
  decodeLoop src ⟨List.replicate (src.length * 3 / 4) 0, 0⟩

end Lyslg.Base64
