import Lyslg.Http.Request
/-!
# Log patterns

`LogFormatter::init`: how a pattern is cut into texts and directives, and when it is in
error.
-/

namespace Lyslg.Log

open Http

/-- `isalpha` in the C locale. -/
def isAlpha (c : UInt8) : Bool := (65 ≤ c && c ≤ 90) || (97 ≤ c && c ≤ 122)

/-- `s.substr(pos, n)` -/
def substr (s : List UInt8) (pos n : Nat) : List UInt8 := (s.drop pos).take n

/-- An entry of `vec`: a text, or a directive with its format. -/
structure Piece where
  str : List UInt8
  fmt : List UInt8 := []
  directive : Bool := false
  deriving DecidableEq, Repr

/-- What the inner loop leaves: `n`, `fmt_status == 1`, `str` and `fmt`. -/
structure Scanned where
  n : Nat
  opened : Bool
  str : List UInt8
  fmt : List UInt8
  deriving DecidableEq, Repr

/-- The inner loop for the `%` at `i`, over the characters from `n` on.  `fmtBegin` is there
while `fmt_status` is 1. -/
def scanDirective (pattern : List UInt8) (i : Nat) :
    List UInt8 → Nat → Option Nat → List UInt8 → Scanned
  | [], n, fmtBegin, str => { n := n, opened := fmtBegin.isSome, str := str, fmt := [] }
  | c :: rest, n, none, str =>
      let name := substr pattern (i + 1) (n - i - 1)
      if !isAlpha c && c ≠ 123 && c ≠ 125 then { n := n, opened := false, str := name, fmt := [] }
      else if c = 123 then scanDirective pattern i rest (n + 1) (some n) name
      else
        let str := if n + 1 = pattern.length ∧ str = [] then pattern.drop (i + 1) else str
        scanDirective pattern i rest (n + 1) none str
  | c :: rest, n, some fmtBegin, str =>
      if c = 125 then
        { n := n + 1, opened := false, str := str
          fmt := substr pattern (fmtBegin + 1) (n - fmtBegin - 1) }
      else
        let str := if n + 1 = pattern.length ∧ str = [] then pattern.drop (i + 1) else str
        scanDirective pattern i rest (n + 1) (some fmtBegin) str

/-- A text that is not empty, as an entry. -/
def flush (nstr : List UInt8) : List Piece := if nstr = [] then [] else [{ str := nstr }]

/-- The outer loop from `i` on: the entries of `vec`, and whether the pattern is in error.
Every round goes forward, so the length of the pattern is fuel enough. -/
def initLoop (pattern : List UInt8) : Nat → Nat → List UInt8 → List Piece × Bool
  | 0, _, nstr => (flush nstr, false)
  | fuel + 1, i, nstr =>
      match pattern[i]? with
      | none => (flush nstr, false)
      | some c =>
          if c ≠ 37 then initLoop pattern fuel (i + 1) (nstr ++ [c])
          else if pattern[i + 1]? = some 37 then initLoop pattern fuel (i + 1) (nstr ++ [37])
          else
            let d := scanDirective pattern i (pattern.drop (i + 1)) (i + 1) none []
            if d.opened then
              let (pieces, _) := initLoop pattern fuel (i + 1) nstr
              (⟨chars "<<pattern_error>>", d.fmt, false⟩ :: pieces, true)
            else
              let (pieces, error) := initLoop pattern fuel d.n []
              (flush nstr ++ ⟨d.str, d.fmt, true⟩ :: pieces, error)

/-- The keys of `s_format_item`. -/
def formatItems : List (List UInt8) :=
  [chars "m", chars "p", chars "r", chars "c", chars "t", chars "F", chars "n", chars "d",
    chars "f", chars "l", chars "T", chars "N"]

/-- A `LogFormatter`, which its pattern determines. -/
structure LogFormatter where
  pattern : List UInt8
  deriving DecidableEq, Repr

namespace LogFormatter

/-- `vec` in `init`. -/
def pieces (f : LogFormatter) : List Piece := (initLoop f.pattern f.pattern.length 0 []).1

/-- `isError()`: the pattern does not end a format, or names an item that does not exist. -/
def isError (f : LogFormatter) : Bool :=
  (initLoop f.pattern f.pattern.length 0 []).2 ||
    f.pieces.any fun piece => piece.directive && piece.str ∉ formatItems

end LogFormatter

/-- The pattern of a new logger. -/
def defaultPattern : List UInt8 :=
  chars "%d\x7b%Y-%m-%d %H:%M:%S\x7d%T%t%T%N%T%F%T[%p]%T[%c]%T%f:%l%T%m%n"

/-- The pattern a new logger has is a valid one. -/
example : (LogFormatter.mk defaultPattern).isError = false := by decide

end Lyslg.Log
