import Mathlib.Data.List.Basic
/-!
# The machine of the HTTP response parser

The transitions of the generated `httpclient_parser.cc`, by state: the bytes, the next state
and the actions on the way, under their names in `httpclient_parser.rl`.  The first
transition that takes a byte counts; a byte without one leads to the error state 0.  Bytes
from 128 on are the negative values of the source's `char`.
-/

namespace Lyslg.HttpClient

/-- The actions of `httpclient_parser.rl`. -/
inductive Action where
  | mark | startField | writeField | startValue | writeContentLen | writeConnectionClose
  | writeValue | reasonPhrase | statusCode | httpVersion | chunkSize | transChunked | done
  deriving DecidableEq, Repr

structure Transition where
  /-- ranges of bytes, with their ends -/
  bytes : List (Nat × Nat)
  target : Nat
  actions : List Action
  deriving DecidableEq, Repr

def on (bytes : List (Nat × Nat)) (target : Nat) (actions : List Action := []) : Transition :=
  ⟨bytes, target, actions⟩

def one (byte : Nat) (target : Nat) (actions : List Action := []) : Transition :=
  on [(byte, byte)] target actions

/-- On a letter, given in lower case, in both cases. -/
def letter (byte : Nat) (target : Nat) (actions : List Action := []) : Transition :=
  on [(byte - 32, byte - 32), (byte, byte)] target actions

/-! ## Sets of bytes -/

def digit : List (Nat × Nat) := [(48, 57)]

def xdigit : List (Nat × Nat) := [(48, 57), (65, 70), (97, 102)]

def tokenChar : List (Nat × Nat) :=
  [(33, 33), (35, 39), (42, 43), (45, 46), (48, 57), (65, 90), (94, 122), (124, 124), (126, 126)]

/-- The space characters of C. -/
def space : List (Nat × Nat) := [(9, 13), (32, 32)]

/-- The space characters without the line ends. -/
def blank : List (Nat × Nat) := [(9, 9), (11, 12), (32, 32)]

/-- All but the line ends. -/
def valueChar : List (Nat × Nat) := [(0, 9), (11, 12), (14, 255)]

/-- All but the space characters. -/
def valueStart : List (Nat × Nat) := [(0, 8), (14, 31), (33, 255)]

/-! ## The transitions -/

/-- On with a field name that is none of the three special ones. -/
def nameRest : List Transition := [on tokenChar 21, one 58 22 [.writeField]]

/-- On with a field value. -/
def valueRest : List Transition :=
  [on valueChar 23, one 10 20 [.writeValue], one 13 24 [.writeValue]]

def transitions : List (Nat × List Transition) := [
  (1, [one 72 8 [.mark], on xdigit 2 [.mark]]),
  (2, [one 10 120 [.chunkSize, .done], one 13 3 [.chunkSize], one 59 4 [.chunkSize], on xdigit 2]),
  (3, [one 10 120 [.done]]),
  (4, [on tokenChar 5 [.startField]]),
  (5, [one 10 120 [.writeField, .startValue, .writeValue, .done],
    one 13 3 [.writeField, .startValue, .writeValue],
    one 59 4 [.writeField, .startValue, .writeValue], one 61 6 [.writeField, .startValue],
    on tokenChar 5]),
  (6, [on tokenChar 7 [.startValue]]),
  (7, [one 10 120 [.writeValue, .done], one 13 3 [.writeValue], one 59 4 [.writeValue],
    on tokenChar 7]),
  (8, [one 84 9]),
  (9, [one 84 10]),
  (10, [one 80 11]),
  (11, [one 47 12]),
  (12, [on digit 13]),
  (13, [one 46 14, on digit 13]),
  (14, [on digit 15]),
  (15, [one 32 16 [.httpVersion], on digit 15]),
  (16, [on digit 17 [.mark]]),
  (17, [one 32 18 [.statusCode], on digit 17]),
  (18, [on [(0, 9), (11, 255)] 19 [.mark]]),
  (19, [one 10 20 [.reasonPhrase], one 13 24 [.reasonPhrase], on valueChar 19]),
  (20, [one 10 120 [.done], one 13 3, letter 99 25 [.startField], letter 116 44 [.startField],
    on tokenChar 21 [.startField]]),
  (21, nameRest),
  (22, [one 10 20 [.startValue, .writeValue], one 13 24 [.startValue, .writeValue],
    on blank 22 [.startValue], on valueStart 23 [.startValue]]),
  (23, valueRest),
  (24, [one 10 20]),
  (25, [letter 111 26] ++ nameRest),
  (26, [letter 110 27] ++ nameRest),
  (27, [letter 110 28, letter 116 101] ++ nameRest),
  (28, [letter 101 29] ++ nameRest),
  (29, [letter 99 30] ++ nameRest),
  (30, [letter 116 31] ++ nameRest),
  (31, [letter 105 32] ++ nameRest),
  (32, [letter 111 33] ++ nameRest),
  (33, [letter 110 34] ++ nameRest),
  (34, [one 58 35 [.writeField], on tokenChar 21]),
  (35, [one 10 36 [.startValue, .writeValue], one 13 95 [.startValue, .writeValue],
    letter 99 96 [.startValue], on blank 35 [.startValue], on valueChar 23 [.startValue]]),
  (36, [one 10 122 [.done], one 13 89, letter 99 90 [.startField], letter 116 44 [.startField],
    on blank 37, on tokenChar 21 [.startField]]),
  (37, [letter 99 38, on space 37]),
  (38, [letter 108 39]),
  (39, [letter 111 40]),
  (40, [letter 115 41]),
  (41, [letter 101 42]),
  (42, [one 10 43, one 13 88]),
  (43, [one 10 120 [.writeConnectionClose, .done], one 13 3 [.writeConnectionClose],
    letter 99 25 [.writeConnectionClose, .startField],
    letter 116 44 [.writeConnectionClose, .startField],
    on tokenChar 21 [.writeConnectionClose, .startField]]),
  (44, [letter 114 45] ++ nameRest),
  (45, [letter 97 46] ++ nameRest),
  (46, [letter 110 47] ++ nameRest),
  (47, [letter 115 48] ++ nameRest),
  (48, [letter 102 49] ++ nameRest),
  (49, [letter 101 50] ++ nameRest),
  (50, [letter 114 51] ++ nameRest),
  (51, [one 45 52] ++ nameRest),
  (52, [letter 101 53] ++ nameRest),
  (53, [letter 110 54] ++ nameRest),
  (54, [letter 99 55] ++ nameRest),
  (55, [letter 111 56] ++ nameRest),
  (56, [letter 100 57] ++ nameRest),
  (57, [letter 105 58] ++ nameRest),
  (58, [letter 110 59] ++ nameRest),
  (59, [letter 103 60] ++ nameRest),
  (60, [one 58 61 [.writeField], on tokenChar 21]),
  (61, [one 10 62 [.startValue, .writeValue], one 13 80 [.startValue, .writeValue],
    letter 99 81 [.startValue], on blank 61 [.startValue], on valueChar 23 [.startValue]]),
  (62, [one 10 121 [.done], one 13 72, letter 99 73 [.startValue, .startField],
    letter 116 44 [.startField], on blank 63, on tokenChar 21 [.startField]]),
  (63, [letter 99 64 [.startValue], on space 63]),
  (64, [letter 104 65]),
  (65, [letter 117 66]),
  (66, [letter 110 67]),
  (67, [letter 107 68]),
  (68, [letter 101 69]),
  (69, [letter 100 70]),
  (70, [one 10 20 [.writeValue, .transChunked], one 13 71 [.writeValue]]),
  (71, [one 10 20 [.transChunked]]),
  (72, [one 10 121 [.done], letter 99 64 [.startValue], on space 63]),
  (73, [letter 104 74, letter 111 26] ++ nameRest),
  (74, [letter 117 75] ++ nameRest),
  (75, [letter 110 76] ++ nameRest),
  (76, [letter 107 77] ++ nameRest),
  (77, [letter 101 78] ++ nameRest),
  (78, [letter 100 79] ++ nameRest),
  (79, [one 10 20 [.writeValue, .transChunked], one 13 71 [.writeValue]] ++ nameRest),
  (80, [one 10 62, letter 99 64 [.startValue], on space 63]),
  (81, [letter 104 82] ++ valueRest),
  (82, [letter 117 83] ++ valueRest),
  (83, [letter 110 84] ++ valueRest),
  (84, [letter 107 85] ++ valueRest),
  (85, [letter 101 86] ++ valueRest),
  (86, [letter 100 87] ++ valueRest),
  (87, [one 10 20 [.writeValue, .transChunked], one 13 71 [.writeValue], on valueChar 23]),
  (88, [one 10 43]),
  (89, [one 10 122 [.done], letter 99 38, on space 37]),
  (90, [letter 108 91, letter 111 26] ++ nameRest),
  (91, [letter 111 92] ++ nameRest),
  (92, [letter 115 93] ++ nameRest),
  (93, [letter 101 94] ++ nameRest),
  (94, [one 10 43, one 13 88] ++ nameRest),
  (95, [one 10 36, letter 99 38, on space 37]),
  (96, [letter 108 97] ++ valueRest),
  (97, [letter 111 98] ++ valueRest),
  (98, [letter 115 99] ++ valueRest),
  (99, [letter 101 100] ++ valueRest),
  (100, [one 10 43 [.writeValue], one 13 88 [.writeValue], on valueChar 23]),
  (101, [letter 101 102] ++ nameRest),
  (102, [letter 110 103] ++ nameRest),
  (103, [letter 116 104] ++ nameRest),
  (104, [one 45 105] ++ nameRest),
  (105, [letter 108 106] ++ nameRest),
  (106, [letter 101 107] ++ nameRest),
  (107, [letter 110 108] ++ nameRest),
  (108, [letter 103 109] ++ nameRest),
  (109, [letter 116 110] ++ nameRest),
  (110, [letter 104 111] ++ nameRest),
  (111, [one 58 112 [.writeField], on tokenChar 21]),
  (112, [one 10 113 [.startValue, .writeValue], one 13 118 [.startValue, .writeValue],
    on blank 112 [.startValue], on digit 119 [.startValue], on valueChar 23 [.startValue]]),
  (113, [one 10 123 [.done], one 13 116, letter 99 25 [.startField], letter 116 44 [.startField],
    on blank 114, on digit 117 [.startValue, .startField], on tokenChar 21 [.startField]]),
  (114, [on space 114, on digit 115 [.startValue]]),
  (115, [one 10 20 [.writeContentLen, .writeValue], one 13 24 [.writeContentLen, .writeValue],
    on digit 115]),
  (116, [one 10 123 [.done], on space 114, on digit 115 [.startValue]]),
  (117, [one 10 20 [.writeContentLen, .writeValue], one 13 24 [.writeContentLen, .writeValue],
    on digit 117] ++ nameRest),
  (118, [one 10 113, on space 114, on digit 115 [.startValue]]),
  (119, [one 10 20 [.writeContentLen, .writeValue], one 13 24 [.writeContentLen, .writeValue],
    on digit 119, on valueChar 23]),
  (120, []),
  (121, [letter 99 64 [.startValue], on space 63]),
  (122, [letter 99 38, on space 37]),
  (123, [on space 114, on digit 115 [.startValue]])]

def Transition.takes (c : UInt8) (t : Transition) : Bool :=
  t.bytes.any fun range => range.1 ≤ c.toNat ∧ c.toNat ≤ range.2

/-- The transition from a state on a byte. -/
def next (cs : Nat) (c : UInt8) : Option Transition :=
  ((transitions.lookup cs).getD []).find? (Transition.takes c)

end Lyslg.HttpClient
