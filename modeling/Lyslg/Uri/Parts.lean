import Lyslg.Uri.Stages
/-!
# The parts of a URI

A URI with a scheme, as RFC 3986 divides it at its delimiters.  The characters between them
are free but for the delimiters themselves: which of them a part may have is up to the
machine.
-/

namespace Lyslg.Uri

open Http

/-- A part that may be missing, with the delimiter before it. -/
def optionalPart (delimiter : UInt8) : Option (List UInt8) → List UInt8
  | none => []
  | some text => delimiter :: text

def isAlpha (c : UInt8) : Bool := (65 ≤ c && c ≤ 90) || (97 ≤ c && c ≤ 122)

def isSchemeChar (c : UInt8) : Bool := isAlnum c || c = 43 || c = 45 || c = 46

inductive Host where
  | name (text : List UInt8) (plain : ∀ c ∈ text, c ∉ chars ":/?#[]@")
  /-- what is in the brackets -/
  | literal (address : List UInt8) (plain : ∀ c ∈ address, c ∉ chars "/?#[]@")

def Host.text : Host → List UInt8
  | .name text _ => text
  | .literal address _ => chars "[" ++ address ++ chars "]"

/-- The text between two slashes and the path. -/
structure Authority where
  userinfo : Option (List UInt8)
  host : Host
  port : Option (List UInt8)
  /-- a control character such as byte 2 is in no userinfo -/
  userinfo_plain : ∀ text ∈ userinfo, ∀ c ∈ text, c ≠ 2 ∧ c ∉ chars "/?#[]@"
  port_digits : ∀ digits ∈ port, ∀ c ∈ digits, 48 ≤ c ∧ c ≤ 57

/-- A userinfo with the delimiter after it. -/
def userinfoPart : Option (List UInt8) → List UInt8
  | none => []
  | some text => text ++ chars "@"

def Authority.text (a : Authority) : List UInt8 :=
  userinfoPart a.userinfo ++ a.host.text ++ optionalPart 58 a.port

inductive HierPart where
  /-- `path-abempty` after an authority -/
  | authority (a : Authority) (path : List UInt8) (plain : ∀ c ∈ path, c ∉ chars "?#")
      (slash : path = [] ∨ path.head? = some 47)
  /-- `path-absolute`, `path-rootless` or `path-empty` -/
  | path (path : List UInt8) (plain : ∀ c ∈ path, c ∉ chars "?#")
      (single : ¬chars "//" <+: path)

namespace HierPart

def text : HierPart → List UInt8
  | .authority a rest _ _ => chars "//" ++ a.text ++ rest
  | .path whole _ _ => whole

def pathText : HierPart → List UInt8
  | .authority _ rest _ _ => rest
  | .path whole _ _ => whole

def userinfo : HierPart → Option (List UInt8)
  | .authority a .. => a.userinfo
  | .path .. => none

def host : HierPart → List UInt8
  | .authority a .. => a.host.text
  | .path .. => []

def port : HierPart → Option (List UInt8)
  | .authority a .. => a.port
  | .path .. => none

end HierPart

structure UriParts where
  scheme : List UInt8
  hierPart : HierPart
  query : Option (List UInt8)
  fragment : Option (List UInt8)
  scheme_alpha : ∃ c ∈ scheme.head?, isAlpha c
  scheme_chars : ∀ c ∈ scheme, isSchemeChar c
  query_plain : ∀ text ∈ query, ∀ c ∈ text, c ≠ 35
  fragment_plain : ∀ text ∈ fragment, ∀ c ∈ text, c ≠ 35

namespace UriParts

/-- Query and fragment, with their delimiters. -/
def tail (query fragment : Option (List UInt8)) : List UInt8 :=
  optionalPart 63 query ++ optionalPart 35 fragment

def text (parts : UriParts) : List UInt8 :=
  parts.scheme ++ chars ":" ++ parts.hierPart.text ++ tail parts.query parts.fragment

/-- The value of a numeral. -/
def numeral (digits : List UInt8) : Nat :=
  digits.foldl (fun n c => 10 * n + (c.toNat - 48)) 0

/-- The port that a scheme has by default, or 0. -/
def schemePort (scheme : List UInt8) : Int :=
  if scheme = chars "http" ∨ scheme = chars "ws" then 80
  else if scheme = chars "https" ∨ scheme = chars "wss" then 443
  else 0

end UriParts

end Lyslg.Uri
