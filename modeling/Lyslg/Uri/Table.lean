import Mathlib.Data.List.Basic
/-!
# The machine of the URI parser

The transitions of the generated `uri.cc`, by state: the bytes, the next state and the
actions on the way, under their names in `uri.rl`.  A byte without a transition leads to the
error state 0, and the states from 451 on are final.  Bytes from 128 on are the negative
values of the source's `char`.

The second alternatives of an IPv4 octet come out as bytes of value 2, since `uri.rl` writes
them with the number 2 in place of the digit.
-/

namespace Lyslg.UriParser

/-- The actions of `uri.rl`; `marku` and `markh` are the same. -/
inductive Action where
  | mark | saveScheme | savePort | saveUserinfo | saveHost | savePath | saveQuery | saveFragment
  deriving DecidableEq, Repr

structure Transition where
  /-- ranges of bytes, with their ends -/
  bytes : List (Nat × Nat)
  target : Nat
  actions : List Action
  deriving DecidableEq, Repr

def on (bytes : List (Nat × Nat)) (target : Nat) (actions : List Action := []) : Transition :=
  ⟨bytes, target, actions⟩

def one (byte : Nat) (target : Nat) (actions : List Action := []) : Transition :=
  on [(byte, byte)] target actions

/-! ## Sets of bytes -/

def digit : List (Nat × Nat) := [(48, 57)]

def dot : List (Nat × Nat) := [(46, 46)]

def xdigit : List (Nat × Nat) := [(48, 57), (65, 70), (97, 102)]

def xletter : List (Nat × Nat) := [(65, 70), (97, 102)]

/-- In a name outside brackets, apart from dots and digits. -/
def symbol : List (Nat × Nat) :=
  [(33, 33), (36, 36), (38, 45), (59, 59), (61, 61), (65, 90), (95, 95), (97, 122), (126, 126)]

def nameStart : List (Nat × Nat) :=
  [(33, 33), (36, 36), (38, 46), (59, 59), (61, 61), (65, 90), (95, 95), (97, 122), (126, 126)]

def regName : List (Nat × Nat) :=
  [(33, 33), (36, 36), (38, 46), (48, 57), (59, 59), (61, 61), (65, 90), (95, 95), (97, 122),
    (126, 126)]

def infoChar : List (Nat × Nat) :=
  [(33, 33), (36, 36), (38, 46), (58, 59), (61, 61), (65, 90), (95, 95), (97, 122), (126, 126)]

def userinfo : List (Nat × Nat) :=
  [(33, 33), (36, 36), (38, 46), (48, 59), (61, 61), (65, 90), (95, 95), (97, 122), (126, 126)]

def pchar : List (Nat × Nat) :=
  [(33, 33), (36, 36), (38, 46), (48, 59), (61, 61), (64, 90), (95, 95), (97, 122), (126, 126),
    (128, 255)]

def segmentChar : List (Nat × Nat) :=
  [(33, 33), (36, 36), (38, 59), (61, 61), (64, 90), (95, 95), (97, 122), (126, 126), (128, 255)]

def queryChar : List (Nat × Nat) :=
  [(33, 33), (36, 36), (38, 59), (61, 61), (63, 90), (95, 95), (97, 122), (126, 126), (128, 255)]

/-! ## Scheme, path, query and fragment -/

def lineTransitions : List (Nat × List Transition) := [
  (451, [
    on [(33, 33), (36, 36), (38, 46), (48, 57), (59, 59), (61, 61), (64, 64), (95, 95), (126, 126),
      (128, 255)] 452,
    one 35 453, one 37 3, one 47 458, one 63 456, on [(65, 90), (97, 122)] 508 [.mark]]),
  (452, [
    on [(33, 33), (36, 36), (38, 46), (48, 57), (59, 59), (61, 61), (64, 90), (95, 95), (97, 122),
      (126, 126), (128, 255)] 452,
    one 35 453, one 37 3, one 47 455, one 63 456]),
  (3, [on xdigit 4]),
  (4, [on xdigit 452]),
  (508, [
    on [(33, 33), (36, 36), (38, 42), (44, 44), (59, 59), (61, 61), (64, 64), (95, 95), (126, 126),
      (128, 255)] 452,
    one 35 453, one 37 3, on [(43, 43), (45, 46), (48, 57), (65, 90), (97, 122)] 508, one 47 455,
    one 58 509 [.saveScheme], one 63 456]),
  (509, [on pchar 455, one 35 453, one 37 5, one 47 510, one 63 456]),
  (510, [on pchar 455, one 35 453, one 37 5, one 47 511, one 63 456]),
  (458, [on pchar 455, one 35 453, one 37 5, one 47 459, one 63 456]),
  (455, [on segmentChar 455, one 35 453, one 37 5, one 63 456]),
  (5, [on xdigit 6]),
  (6, [on xdigit 455]),
  (513, [on segmentChar 513, one 35 453 [.savePath], one 37 243, one 63 456 [.savePath]]),
  (243, [on xdigit 244]),
  (244, [on xdigit 513]),
  (456, [on queryChar 457 [.mark], one 35 453 [.mark, .saveQuery], one 37 7 [.mark]]),
  (457, [on queryChar 457, one 35 453 [.saveQuery], one 37 7]),
  (7, [on xdigit 8]),
  (8, [on xdigit 457]),
  (453, [on queryChar 454 [.mark], one 37 1 [.mark]]),
  (454, [on queryChar 454, one 37 1]),
  (1, [on xdigit 2]),
  (2, [on xdigit 454])]

/-! ## The authority

It has states of its own after a scheme, where the path that follows it is saved. -/

/-- The ends of an authority without a scheme. -/
def relativeEnds (actions : List Action) : List Transition :=
  [one 35 453 actions, one 47 455 actions, one 63 456 actions]

/-- The ends of an authority after a scheme. -/
def absoluteEnds (actions : List Action) : List Transition :=
  [one 35 453 (actions ++ [.savePath]), one 47 513 actions, one 63 456 (actions ++ [.savePath])]

def relativeTransitions : List (Nat × List Transition) := [
  (459, [one 2 9 [.mark], on nameStart 467 [.mark], one 37 31 [.mark], one 48 490 [.mark],
    one 49 504 [.mark], one 50 506 [.mark], on [(51, 57)] 505 [.mark],
    one 58 468 [.mark, .saveHost], one 64 469 [.mark, .saveUserinfo], one 91 38 [.mark]]
    ++ relativeEnds [.mark, .saveHost]),
  (467, [on regName 467, one 37 31, one 58 468 [.saveHost], one 64 469 [.saveUserinfo]]
    ++ relativeEnds [.saveHost]),
  (31, [on xdigit 32]),
  (32, [on xdigit 467]),
  (468, [on infoChar 33, one 37 34, on digit 489 [.mark], one 64 469 [.saveUserinfo]]
    ++ relativeEnds [.mark, .savePort]),
  (489, [on infoChar 33, one 37 34, on digit 489, one 64 469 [.saveUserinfo]]
    ++ relativeEnds [.savePort]),
  (33, [on userinfo 33, one 37 34, one 64 469 [.saveUserinfo]]),
  (34, [on xdigit 35]),
  (35, [on xdigit 33]),
  (469, [one 2 9 [.mark], on nameStart 470 [.mark], one 37 36 [.mark], one 48 471 [.mark],
    one 49 485 [.mark], one 50 487 [.mark], on [(51, 57)] 486 [.mark],
    one 58 461 [.mark, .saveHost], one 91 38 [.mark]] ++ relativeEnds [.mark, .saveHost]),
  (470, [on regName 470, one 37 36, one 58 461 [.saveHost]] ++ relativeEnds [.saveHost]),
  (36, [on xdigit 37]),
  (37, [on xdigit 470]),
  (460, [one 58 461 [.saveHost]] ++ relativeEnds [.saveHost]),
  (461, [on digit 462 [.mark]] ++ relativeEnds [.mark, .savePort]),
  (462, [on digit 462] ++ relativeEnds [.savePort]),
  (463, [on digit 464, one 58 461 [.saveHost]] ++ relativeEnds [.saveHost]),
  (464, [on digit 460, one 58 461 [.saveHost]] ++ relativeEnds [.saveHost]),
  (465, [on [(48, 52), (54, 57)] 460, one 53 466, one 58 461 [.saveHost]]
    ++ relativeEnds [.saveHost]),
  (466, [on [(48, 53)] 460, one 58 461 [.saveHost]] ++ relativeEnds [.saveHost])]

def absoluteTransitions : List (Nat × List Transition) := [
  (511, [one 2 229 [.mark], on nameStart 520 [.mark], one 37 253 [.mark], one 48 543 [.mark],
    one 49 557 [.mark], one 50 559 [.mark], on [(51, 57)] 558 [.mark],
    one 58 521 [.mark, .saveHost], one 64 522 [.mark, .saveUserinfo], one 91 260 [.mark]]
    ++ absoluteEnds [.mark, .saveHost]),
  (520, [on regName 520, one 37 253, one 58 521 [.saveHost], one 64 522 [.saveUserinfo]]
    ++ absoluteEnds [.saveHost, .mark]),
  (253, [on xdigit 254]),
  (254, [on xdigit 520]),
  (521, [on infoChar 255, one 37 256, on digit 542 [.mark], one 64 522 [.saveUserinfo]]
    ++ absoluteEnds [.mark, .savePort]),
  (542, [on infoChar 255, one 37 256, on digit 542, one 64 522 [.saveUserinfo]]
    ++ absoluteEnds [.savePort, .mark]),
  (255, [on userinfo 255, one 37 256, one 64 522 [.saveUserinfo]]),
  (256, [on xdigit 257]),
  (257, [on xdigit 255]),
  (522, [one 2 229 [.mark], on nameStart 523 [.mark], one 37 258 [.mark], one 48 524 [.mark],
    one 49 538 [.mark], one 50 540 [.mark], on [(51, 57)] 539 [.mark],
    one 58 514 [.mark, .saveHost], one 91 260 [.mark]] ++ absoluteEnds [.mark, .saveHost]),
  (523, [on regName 523, one 37 258, one 58 514 [.saveHost]] ++ absoluteEnds [.saveHost, .mark]),
  (258, [on xdigit 259]),
  (259, [on xdigit 523]),
  (512, [one 58 514 [.saveHost]] ++ absoluteEnds [.saveHost, .mark]),
  (514, [on digit 515 [.mark]] ++ absoluteEnds [.mark, .savePort]),
  (515, [on digit 515] ++ absoluteEnds [.savePort, .mark]),
  (516, [on digit 517, one 58 514 [.saveHost]] ++ absoluteEnds [.saveHost, .mark]),
  (517, [on digit 512, one 58 514 [.saveHost]] ++ absoluteEnds [.saveHost, .mark]),
  (518, [on [(48, 52), (54, 57)] 512, one 53 519, one 58 514 [.saveHost]]
    ++ absoluteEnds [.saveHost, .mark]),
  (519, [on [(48, 53)] 512, one 58 514 [.saveHost]] ++ absoluteEnds [.saveHost, .mark])]

/-- Addresses that a byte of value 2 has told from names. -/
def addressTransitions : List (Nat × List Transition) := [
  (9, [on [(48, 52)] 10]),
  (10, [on digit 11]),
  (11, [one 46 12]),
  (12, [one 2 13, one 48 15, one 49 27, one 50 29, on [(51, 57)] 28]),
  (13, [on [(48, 52)] 14]),
  (14, [on digit 15]),
  (15, [one 46 16]),
  (16, [one 2 17, one 48 19, one 49 23, one 50 25, on [(51, 57)] 24]),
  (17, [on [(48, 52)] 18]),
  (18, [on digit 19]),
  (19, [one 46 20]),
  (20, [one 2 21, one 48 460, one 49 463, one 50 465, on [(51, 57)] 464]),
  (21, [on [(48, 52)] 22]),
  (22, [on digit 460]),
  (23, [one 46 20, on digit 24]),
  (24, [one 46 20, on digit 19]),
  (25, [one 46 20, on [(48, 52), (54, 57)] 19, one 53 26]),
  (26, [one 46 20, on [(48, 53)] 19]),
  (27, [one 46 16, on digit 28]),
  (28, [one 46 16, on digit 15]),
  (29, [one 46 16, on [(48, 52), (54, 57)] 15, one 53 30]),
  (30, [one 46 16, on [(48, 53)] 15]),
  (229, [on [(48, 52)] 230]),
  (230, [on digit 231]),
  (231, [one 46 232]),
  (232, [one 2 233, one 48 235, one 49 249, one 50 251, on [(51, 57)] 250]),
  (233, [on [(48, 52)] 234]),
  (234, [on digit 235]),
  (235, [one 46 236]),
  (236, [one 2 237, one 48 239, one 49 245, one 50 247, on [(51, 57)] 246]),
  (237, [on [(48, 52)] 238]),
  (238, [on digit 239]),
  (239, [one 46 240]),
  (240, [one 2 241, one 48 512, one 49 516, one 50 518, on [(51, 57)] 517]),
  (241, [on [(48, 52)] 242]),
  (242, [on digit 512]),
  (245, [one 46 240, on digit 246]),
  (246, [one 46 240, on digit 239]),
  (247, [one 46 240, on [(48, 52), (54, 57)] 239, one 53 248]),
  (248, [one 46 240, on [(48, 53)] 239]),
  (249, [one 46 236, on digit 250]),
  (250, [one 46 236, on digit 235]),
  (251, [one 46 236, on [(48, 52), (54, 57)] 235, one 53 252]),
  (252, [one 46 236, on [(48, 53)] 235])]

/-- A host that begins with a digit: its state follows the octets of an address, up to
`first + 17`, and falls back to the name `reg`. -/
def hostTransitions (first reg pct two : Nat) (ends : List Transition) :
    List (Nat × List Transition) :=
  let host (bytes : List (Nat × Nat)) (octet : List Transition) : List Transition :=
    octet ++ [on (symbol ++ bytes) reg, one 37 pct] ++ ends
  [
    (first, host digit [one 46 (first + 1)]),
    (first + 1, host dot [one 2 two, one 48 (first + 2), one 49 (first + 10),
      one 50 (first + 12), on [(51, 57)] (first + 11)]),
    (first + 2, host digit [one 46 (first + 3)]),
    (first + 3, host dot [one 2 (two + 4), one 48 (first + 4), one 49 (first + 6),
      one 50 (first + 8), on [(51, 57)] (first + 7)]),
    (first + 4, host digit [one 46 (first + 5)]),
    (first + 5, host (dot ++ digit) [one 2 (two + 8)]),
    (first + 6, host [] [one 46 (first + 5), on digit (first + 7)]),
    (first + 7, host [] [one 46 (first + 5), on digit (first + 4)]),
    (first + 8, host [] [one 46 (first + 5), on [(48, 52), (54, 57)] (first + 4),
      one 53 (first + 9)]),
    (first + 9, host [(54, 57)] [one 46 (first + 5), on [(48, 53)] (first + 4)]),
    (first + 10, host [] [one 46 (first + 3), on digit (first + 11)]),
    (first + 11, host [] [one 46 (first + 3), on digit (first + 2)]),
    (first + 12, host [] [one 46 (first + 3), on [(48, 52), (54, 57)] (first + 2),
      one 53 (first + 13)]),
    (first + 13, host [(54, 57)] [one 46 (first + 3), on [(48, 53)] (first + 2)]),
    (first + 14, host [] [one 46 (first + 1), on digit (first + 15)]),
    (first + 15, host [] [one 46 (first + 1), on digit first]),
    (first + 16, host [] [one 46 (first + 1), on [(48, 52), (54, 57)] first, one 53 (first + 17)]),
    (first + 17, host [(54, 57)] [one 46 (first + 1), on [(48, 53)] first])]

/-! ## Address literals -/

/-- After an opening bracket, up to 460 after the closing one. -/
def literalTransitions : List (Nat × List Transition) := [
  (38, [on xdigit 39, one 58 146, one 118 225]),
  (39, [on xdigit 40, one 58 43]),
  (40, [on xdigit 41, one 58 43]),
  (41, [on xdigit 42, one 58 43]),
  (42, [one 58 43]),
  (43, [on xdigit 44, one 58 141]),
  (44, [on xdigit 45, one 58 48]),
  (45, [on xdigit 46, one 58 48]),
  (46, [on xdigit 47, one 58 48]),
  (47, [one 58 48]),
  (48, [on xdigit 49, one 58 136]),
  (49, [on xdigit 50, one 58 53]),
  (50, [on xdigit 51, one 58 53]),
  (51, [on xdigit 52, one 58 53]),
  (52, [one 58 53]),
  (53, [on xdigit 54, one 58 131]),
  (54, [on xdigit 55, one 58 58]),
  (55, [on xdigit 56, one 58 58]),
  (56, [on xdigit 57, one 58 58]),
  (57, [one 58 58]),
  (58, [on xdigit 59, one 58 126]),
  (59, [on xdigit 60, one 58 63]),
  (60, [on xdigit 61, one 58 63]),
  (61, [on xdigit 62, one 58 63]),
  (62, [one 58 63]),
  (63, [on xdigit 64, one 58 113]),
  (64, [on xdigit 65, one 58 68]),
  (65, [on xdigit 66, one 58 68]),
  (66, [on xdigit 67, one 58 68]),
  (67, [one 58 68]),
  (68, [one 2 69, one 48 96, one 49 104, one 50 107, on [(51, 57)] 110, one 58 111,
    on xletter 112]),
  (69, [on [(48, 52)] 70]),
  (70, [on digit 71]),
  (71, [one 46 72]),
  (72, [one 2 73, one 48 75, one 49 92, one 50 94, on [(51, 57)] 93]),
  (73, [on [(48, 52)] 74]),
  (74, [on digit 75]),
  (75, [one 46 76]),
  (76, [one 2 77, one 48 79, one 49 88, one 50 90, on [(51, 57)] 89]),
  (77, [on [(48, 52)] 78]),
  (78, [on digit 79]),
  (79, [one 46 80]),
  (80, [one 2 81, one 48 83, one 49 84, one 50 86, on [(51, 57)] 85]),
  (81, [on [(48, 52)] 82]),
  (82, [on digit 83]),
  (83, [one 93 460]),
  (84, [on digit 85, one 93 460]),
  (85, [on digit 83, one 93 460]),
  (86, [on [(48, 52), (54, 57)] 83, one 53 87, one 93 460]),
  (87, [on [(48, 53)] 83, one 93 460]),
  (88, [one 46 80, on digit 89]),
  (89, [one 46 80, on digit 79]),
  (90, [one 46 80, on [(48, 52), (54, 57)] 79, one 53 91]),
  (91, [one 46 80, on [(48, 53)] 79]),
  (92, [one 46 76, on digit 93]),
  (93, [one 46 76, on digit 75]),
  (94, [one 46 76, on [(48, 52), (54, 57)] 75, one 53 95]),
  (95, [one 46 76, on [(48, 53)] 75]),
  (96, [one 46 72, on xdigit 97, one 58 100]),
  (97, [on xdigit 98, one 58 100]),
  (98, [on xdigit 99, one 58 100]),
  (99, [one 58 100]),
  (100, [on xdigit 101, one 58 83]),
  (101, [on xdigit 102, one 93 460]),
  (102, [on xdigit 103, one 93 460]),
  (103, [on xdigit 83, one 93 460]),
  (104, [one 46 72, on digit 105, one 58 100, on xletter 97]),
  (105, [one 46 72, on digit 106, one 58 100, on xletter 98]),
  (106, [one 46 72, on xdigit 99, one 58 100]),
  (107, [one 46 72, on [(48, 52), (54, 57)] 108, one 53 109, one 58 100, on xletter 97]),
  (108, [one 46 72, on xdigit 98, one 58 100]),
  (109, [one 46 72, on [(48, 53)] 106, on [(54, 57), (65, 70), (97, 102)] 98, one 58 100]),
  (110, [one 46 72, on digit 108, one 58 100, on xletter 97]),
  (111, [on xdigit 101]),
  (112, [on xdigit 97, one 58 100]),
  (113, [one 2 69, one 48 114, one 49 118, one 50 121, on [(51, 57)] 124, on xletter 125]),
  (114, [one 46 72, on xdigit 115, one 58 111]),
  (115, [on xdigit 116, one 58 111]),
  (116, [on xdigit 117, one 58 111]),
  (117, [one 58 111]),
  (118, [one 46 72, on digit 119, one 58 111, on xletter 115]),
  (119, [one 46 72, on digit 120, one 58 111, on xletter 116]),
  (120, [one 46 72, on xdigit 117, one 58 111]),
  (121, [one 46 72, on [(48, 52), (54, 57)] 122, one 53 123, one 58 111, on xletter 115]),
  (122, [one 46 72, on xdigit 116, one 58 111]),
  (123, [one 46 72, on [(48, 53)] 120, on [(54, 57), (65, 70), (97, 102)] 116, one 58 111]),
  (124, [one 46 72, on digit 122, one 58 111, on xletter 115]),
  (125, [on xdigit 115, one 58 111]),
  (126, [on xdigit 127]),
  (127, [on xdigit 128, one 58 113]),
  (128, [on xdigit 129, one 58 113]),
  (129, [on xdigit 130, one 58 113]),
  (130, [one 58 113]),
  (131, [on xdigit 132]),
  (132, [on xdigit 133, one 58 126]),
  (133, [on xdigit 134, one 58 126]),
  (134, [on xdigit 135, one 58 126]),
  (135, [one 58 126]),
  (136, [on xdigit 137]),
  (137, [on xdigit 138, one 58 131]),
  (138, [on xdigit 139, one 58 131]),
  (139, [on xdigit 140, one 58 131]),
  (140, [one 58 131]),
  (141, [on xdigit 142]),
  (142, [on xdigit 143, one 58 136]),
  (143, [on xdigit 144, one 58 136]),
  (144, [on xdigit 145, one 58 136]),
  (145, [one 58 136]),
  (146, [one 58 147]),
  (147, [one 2 69, one 48 148, one 49 217, one 50 220, on [(51, 57)] 223, on xletter 224,
    one 93 460]),
  (148, [one 46 72, on xdigit 149, one 58 152, one 93 460]),
  (149, [on xdigit 150, one 58 152, one 93 460]),
  (150, [on xdigit 151, one 58 152, one 93 460]),
  (151, [one 58 152, one 93 460]),
  (152, [one 2 69, one 48 153, one 49 209, one 50 212, on [(51, 57)] 215, on xletter 216]),
  (153, [one 46 72, on xdigit 154, one 58 157, one 93 460]),
  (154, [on xdigit 155, one 58 157, one 93 460]),
  (155, [on xdigit 156, one 58 157, one 93 460]),
  (156, [one 58 157, one 93 460]),
  (157, [one 2 69, one 48 158, one 49 201, one 50 204, on [(51, 57)] 207, on xletter 208]),
  (158, [one 46 72, on xdigit 159, one 58 162, one 93 460]),
  (159, [on xdigit 160, one 58 162, one 93 460]),
  (160, [on xdigit 161, one 58 162, one 93 460]),
  (161, [one 58 162, one 93 460]),
  (162, [one 2 69, one 48 163, one 49 193, one 50 196, on [(51, 57)] 199, on xletter 200]),
  (163, [one 46 72, on xdigit 164, one 58 167, one 93 460]),
  (164, [on xdigit 165, one 58 167, one 93 460]),
  (165, [on xdigit 166, one 58 167, one 93 460]),
  (166, [one 58 167, one 93 460]),
  (167, [one 2 69, one 48 168, one 49 185, one 50 188, on [(51, 57)] 191, on xletter 192]),
  (168, [one 46 72, on xdigit 169, one 58 172, one 93 460]),
  (169, [on xdigit 170, one 58 172, one 93 460]),
  (170, [on xdigit 171, one 58 172, one 93 460]),
  (171, [one 58 172, one 93 460]),
  (172, [one 2 69, one 48 173, one 49 177, one 50 180, on [(51, 57)] 183, on xletter 184]),
  (173, [one 46 72, on xdigit 174, one 58 111, one 93 460]),
  (174, [on xdigit 175, one 58 111, one 93 460]),
  (175, [on xdigit 176, one 58 111, one 93 460]),
  (176, [one 58 111, one 93 460]),
  (177, [one 46 72, on digit 178, one 58 111, on xletter 174, one 93 460]),
  (178, [one 46 72, on digit 179, one 58 111, on xletter 175, one 93 460]),
  (179, [one 46 72, on xdigit 176, one 58 111, one 93 460]),
  (180, [one 46 72, on [(48, 52), (54, 57)] 181, one 53 182, one 58 111, on xletter 174,
    one 93 460]),
  (181, [one 46 72, on xdigit 175, one 58 111, one 93 460]),
  (182, [one 46 72, on [(48, 53)] 179, on [(54, 57), (65, 70), (97, 102)] 175, one 58 111,
    one 93 460]),
  (183, [one 46 72, on digit 181, one 58 111, on xletter 174, one 93 460]),
  (184, [on xdigit 174, one 58 111, one 93 460]),
  (185, [one 46 72, on digit 186, one 58 172, on xletter 169, one 93 460]),
  (186, [one 46 72, on digit 187, one 58 172, on xletter 170, one 93 460]),
  (187, [one 46 72, on xdigit 171, one 58 172, one 93 460]),
  (188, [one 46 72, on [(48, 52), (54, 57)] 189, one 53 190, one 58 172, on xletter 169,
    one 93 460]),
  (189, [one 46 72, on xdigit 170, one 58 172, one 93 460]),
  (190, [one 46 72, on [(48, 53)] 187, on [(54, 57), (65, 70), (97, 102)] 170, one 58 172,
    one 93 460]),
  (191, [one 46 72, on digit 189, one 58 172, on xletter 169, one 93 460]),
  (192, [on xdigit 169, one 58 172, one 93 460]),
  (193, [one 46 72, on digit 194, one 58 167, on xletter 164, one 93 460]),
  (194, [one 46 72, on digit 195, one 58 167, on xletter 165, one 93 460]),
  (195, [one 46 72, on xdigit 166, one 58 167, one 93 460]),
  (196, [one 46 72, on [(48, 52), (54, 57)] 197, one 53 198, one 58 167, on xletter 164,
    one 93 460]),
  (197, [one 46 72, on xdigit 165, one 58 167, one 93 460]),
  (198, [one 46 72, on [(48, 53)] 195, on [(54, 57), (65, 70), (97, 102)] 165, one 58 167,
    one 93 460]),
  (199, [one 46 72, on digit 197, one 58 167, on xletter 164, one 93 460]),
  (200, [on xdigit 164, one 58 167, one 93 460]),
  (201, [one 46 72, on digit 202, one 58 162, on xletter 159, one 93 460]),
  (202, [one 46 72, on digit 203, one 58 162, on xletter 160, one 93 460]),
  (203, [one 46 72, on xdigit 161, one 58 162, one 93 460]),
  (204, [one 46 72, on [(48, 52), (54, 57)] 205, one 53 206, one 58 162, on xletter 159,
    one 93 460]),
  (205, [one 46 72, on xdigit 160, one 58 162, one 93 460]),
  (206, [one 46 72, on [(48, 53)] 203, on [(54, 57), (65, 70), (97, 102)] 160, one 58 162,
    one 93 460]),
  (207, [one 46 72, on digit 205, one 58 162, on xletter 159, one 93 460]),
  (208, [on xdigit 159, one 58 162, one 93 460]),
  (209, [one 46 72, on digit 210, one 58 157, on xletter 154, one 93 460]),
  (210, [one 46 72, on digit 211, one 58 157, on xletter 155, one 93 460]),
  (211, [one 46 72, on xdigit 156, one 58 157, one 93 460]),
  (212, [one 46 72, on [(48, 52), (54, 57)] 213, one 53 214, one 58 157, on xletter 154,
    one 93 460]),
  (213, [one 46 72, on xdigit 155, one 58 157, one 93 460]),
  (214, [one 46 72, on [(48, 53)] 211, on [(54, 57), (65, 70), (97, 102)] 155, one 58 157,
    one 93 460]),
  (215, [one 46 72, on digit 213, one 58 157, on xletter 154, one 93 460]),
  (216, [on xdigit 154, one 58 157, one 93 460]),
  (217, [one 46 72, on digit 218, one 58 152, on xletter 149, one 93 460]),
  (218, [one 46 72, on digit 219, one 58 152, on xletter 150, one 93 460]),
  (219, [one 46 72, on xdigit 151, one 58 152, one 93 460]),
  (220, [one 46 72, on [(48, 52), (54, 57)] 221, one 53 222, one 58 152, on xletter 149,
    one 93 460]),
  (221, [one 46 72, on xdigit 150, one 58 152, one 93 460]),
  (222, [one 46 72, on [(48, 53)] 219, on [(54, 57), (65, 70), (97, 102)] 150, one 58 152,
    one 93 460]),
  (223, [one 46 72, on digit 221, one 58 152, on xletter 149, one 93 460]),
  (224, [on xdigit 149, one 58 152, one 93 460]),
  (225, [on xdigit 226]),
  (226, [one 46 227, on xdigit 226]),
  (227, [on userinfo 228]),
  (228, [on userinfo 228, one 93 460])]

/-- The states after a scheme, from 260 on up to 512. -/
def shiftLiteral (row : Nat × List Transition) : Nat × List Transition :=
  (row.1 + 222, row.2.map fun t =>
    { t with target := if t.target = 460 then 512 else t.target + 222 })

/-! ## The table -/

def relativeHostTransitions : List (Nat × List Transition) :=
  hostTransitions 490 467 31 13
    ([one 58 468 [.saveHost], one 64 469 [.saveUserinfo]] ++ relativeEnds [.saveHost])
  ++ hostTransitions 471 470 36 13 (one 58 461 [.saveHost] :: relativeEnds [.saveHost])

def absoluteHostTransitions : List (Nat × List Transition) :=
  hostTransitions 543 520 253 233
    ([one 58 521 [.saveHost], one 64 522 [.saveUserinfo]] ++ absoluteEnds [.saveHost, .mark])
  ++ hostTransitions 524 523 258 233 (one 58 514 [.saveHost] :: absoluteEnds [.saveHost, .mark])

def transitions : List (Nat × List Transition) :=
  lineTransitions ++ relativeTransitions ++ absoluteTransitions ++ addressTransitions
    ++ relativeHostTransitions ++ absoluteHostTransitions
    ++ literalTransitions ++ literalTransitions.map shiftLiteral

def Transition.takes (c : UInt8) (t : Transition) : Bool :=
  t.bytes.any fun (lo, hi) => lo ≤ c.toNat && c.toNat ≤ hi

/-- The transition from state `cs` on `c`; none is the error state. -/
def next (cs : Nat) (c : UInt8) : Option Transition :=
  ((transitions.lookup cs).getD []).find? (Transition.takes c)

/-- The actions at the end of the text, in state `cs`. -/
def eofActions (cs : Nat) : List Action :=
  if cs = 453 then [.mark, .saveFragment]
  else if cs = 454 then [.saveFragment]
  else if cs = 456 then [.mark, .saveQuery]
  else if cs = 457 then [.saveQuery]
  else if cs = 459 ∨ cs = 469 then [.mark, .saveHost]
  else if cs = 461 ∨ cs = 468 then [.mark, .savePort]
  else if cs = 462 ∨ cs = 489 then [.savePort]
  else if 460 ≤ cs ∧ cs ≤ 507 then [.saveHost]
  else if cs = 511 ∨ cs = 522 then [.mark, .saveHost, .savePath]
  else if cs = 513 then [.savePath]
  else if cs = 514 ∨ cs = 521 then [.mark, .savePort, .savePath]
  else if cs = 515 ∨ cs = 542 then [.savePort, .mark, .savePath]
  else if 512 ≤ cs then [.saveHost, .mark, .savePath]
  else []

end Lyslg.UriParser
