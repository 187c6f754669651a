import Lyslg.Http.Dump
import Lyslg.Http.ResponseParser
import Lyslg.Uri.Table
/-!
# `Uri`

`Uri::Create` runs the machine over a text and carries out its actions on a new `Uri`.
The pointer `mark` is a position in the text, or nothing while it is null.  The machine
reads neither `mark` nor the `Uri`, so its run is a list of actions with their positions.
-/

namespace Lyslg

open Http Support UriParser

structure Uri where
  scheme : List UInt8 := []
  userinfo : List UInt8 := []
  host : List UInt8 := []
  path : List UInt8 := []
  query : List UInt8 := []
  fragment : List UInt8 := []
  port : Int := 0
  deriving DecidableEq, Repr

namespace Uri

def getScheme (self : Uri) : List UInt8 := self.scheme

def getUserinfo (self : Uri) : List UInt8 := self.userinfo

def getHost (self : Uri) : List UInt8 := self.host

def getQuery (self : Uri) : List UInt8 := self.query

def getFragment (self : Uri) : List UInt8 := self.fragment

def isDefaultPort (self : Uri) : Bool :=
  if self.port = 0 then true
  else if self.scheme = chars "http" ∨ self.scheme = chars "ws" then self.port = 80
  else if self.scheme = chars "https" ∨ self.scheme = chars "wss" then self.port = 443
  else false

def getPath (self : Uri) : List UInt8 := if self.path = [] then chars "/" else self.path

def getPort (self : Uri) : Int :=
  if self.port ≠ 0 then self.port
  else if self.scheme = chars "http" ∨ self.scheme = chars "ws" then 80
  else if self.scheme = chars "https" ∨ self.scheme = chars "wss" then 443
  else self.port

/-- `std::to_string` -/
def dumpInt (n : Int) : List UInt8 :=
  if n < 0 then chars "-" ++ dumpNat n.natAbs else dumpNat n.toNat

/-- `Uri::dump` and `Uri::toString`. -/
def toString (self : Uri) : List UInt8 :=
  self.scheme ++ chars "://" ++ self.userinfo
    ++ (if self.userinfo = [] then [] else chars "@") ++ self.host
    ++ (if self.isDefaultPort then [] else chars ":" ++ dumpInt self.port) ++ self.getPath
    ++ (if self.query = [] then [] else chars "?") ++ self.query
    ++ (if self.fragment = [] then [] else chars "#") ++ self.fragment

/-! ## `Uri::Create` -/

/-- The variables of `Create` that the actions use. -/
structure Creation where
  mark : Option Nat := none
  uri : Uri := {}
  deriving DecidableEq, Repr

namespace Creation

/-- The text from position `m` to position `p`. -/
def slice (uristr : List UInt8) (m p : Nat) : List UInt8 := (uristr.drop m).take (p - m)

/-- `std::string(mark, fpc - mark)`, which throws when `mark` is null. -/
def marked (uristr : List UInt8) (self : Creation) (fpc : Nat) : Option (List UInt8) :=
  self.mark.map fun m => slice uristr m fpc

/-- An action at a position; none is an exception. -/
def act (uristr : List UInt8) (self : Creation) : Action × Nat → Option Creation
  | (.mark, fpc) => some { self with mark := some fpc }
  | (.saveScheme, fpc) => do
      let scheme ← self.marked uristr fpc
      return ⟨none, { self.uri with scheme := scheme }⟩
  | (.savePort, fpc) =>
      if self.mark = some fpc then some ⟨none, self.uri⟩
      else do
        let m ← self.mark
        return ⟨none, { self.uri with port := atoi (uristr.drop m) }⟩
  | (.saveUserinfo, fpc) =>
      match self.mark with
      | none => some ⟨none, self.uri⟩
      | some m => some ⟨none, { self.uri with userinfo := slice uristr m fpc }⟩
  | (.saveHost, fpc) =>
      match self.mark with
      | none => some self
      -- the only action that leaves `mark` set
      | some m => some ⟨some m, { self.uri with host := slice uristr m fpc }⟩
  | (.savePath, fpc) => do
      let path ← self.marked uristr fpc
      return ⟨none, { self.uri with path := path }⟩
  | (.saveQuery, fpc) => do
      let query ← self.marked uristr fpc
      return ⟨none, { self.uri with query := query }⟩
  | (.saveFragment, fpc) => do
      let fragment ← self.marked uristr fpc
      return ⟨none, { self.uri with fragment := fragment }⟩

def actAll (uristr : List UInt8) (self : Creation) (events : List (Action × Nat)) :
    Option Creation :=
  events.foldlM (act uristr) self

end Creation

/-- The generated machine; a state is its number. -/
def machine : Scanner UInt8 Nat Transition (Action × Nat) where
  next := UriParser.next
  follow p _ t := (t.target, t.actions.map fun a => (a, p))
  ends _ := false
  fail _ := 0

/-- `Uri::Create`: nothing when it throws, and nothing inside for a null pointer. -/
def create (uristr : List UInt8) : Option (Option Uri) := do
  let run := machine.exec 451 0 uristr
  let events := run.2.2 ++ (eofActions run.1).map fun a => (a, run.2.1)
  let self ← Creation.actAll uristr {} events
  return if run.1 = 0 then none else if 451 ≤ run.1 then some self.uri else none

end Uri

end Lyslg
