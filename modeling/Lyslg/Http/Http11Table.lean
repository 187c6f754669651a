import Mathlib.Data.List.Basic
/-!
# The machine of the HTTP request parser

The transitions of the generated `http11_parser.cc`, by state: the bytes, the next state
and the actions on the way, under their names in `http11_parser.rl`.  A byte without a
transition leads to the error state 0.  Bytes from 128 on are the negative values of the
source's `char`.
-/

namespace Lyslg.Http11

/-- The actions of `http11_parser.rl`. -/
inductive Action where
  | mark | startField | writeField | startValue | writeValue | requestMethod | requestUri
  | fragment | startQuery | queryString | httpVersion | requestPath | xml | json | done
  deriving DecidableEq, Repr

structure Transition where
  /-- ranges of bytes, with their ends -/
  bytes : List (Nat × Nat)
  target : Nat
  actions : List Action
  /-- only when `uri_relaxed` is set -/
  relaxed : Bool
  deriving DecidableEq, Repr

def on (bytes : List (Nat × Nat)) (target : Nat) (actions : List Action := []) : Transition :=
  ⟨bytes, target, actions, false⟩

def one (byte : Nat) (target : Nat) (actions : List Action := []) : Transition :=
  on [(byte, byte)] target actions

/-- On `more_delims`. -/
def onRelaxed (target : Nat) (actions : List Action := []) : Transition :=
  ⟨[(94, 94), (123, 123), (125, 125)], target, actions, true⟩

/-! ## Sets of bytes -/

def digit : List (Nat × Nat) := [(48, 57)]

def xdigit : List (Nat × Nat) := [(48, 57), (65, 70), (97, 102)]

def xletter : List (Nat × Nat) := [(65, 70), (97, 102)]

def methodChar : List (Nat × Nat) := [(48, 57), (65, 90)]

def regName : List (Nat × Nat) :=
  [(33, 33), (36, 36), (38, 46), (48, 57), (59, 59), (61, 61), (65, 90), (95, 95), (97, 122),
    (126, 126)]

def userinfo : List (Nat × Nat) :=
  [(33, 33), (36, 36), (38, 46), (48, 59), (61, 61), (65, 90), (95, 95), (97, 122), (126, 126)]

def pchar : List (Nat × Nat) :=
  [(33, 33), (36, 36), (38, 46), (48, 59), (61, 61), (64, 90), (95, 95), (97, 122), (126, 126),
    (128, 255)]

def queryChar : List (Nat × Nat) :=
  [(33, 33), (36, 36), (38, 59), (61, 61), (63, 90), (95, 95), (97, 122), (126, 126), (128, 255)]

def tokenChar : List (Nat × Nat) :=
  [(1, 8), (10, 31), (33, 33), (35, 39), (42, 43), (45, 46), (48, 57), (65, 90), (94, 122),
    (124, 124), (126, 126)]

/-! ## The transitions -/

/-- Method, query, fragment, version and headers. -/
def lineTransitions : List (Nat × List Transition) := [
  (1, [on methodChar 2 [.mark], one 60 194 [.mark], one 64 198 [.mark]]),
  (2, [one 32 3 [.requestMethod], on methodChar 175]),
  (3, [one 32 4 [.mark, .requestPath, .requestUri],
    on [(33, 33), (36, 36), (38, 46), (48, 57), (59, 59), (61, 61), (64, 64), (95, 95),
      (126, 126)] 19 [.mark],
    one 35 20 [.mark, .requestPath, .requestUri], one 37 24 [.mark], one 47 33 [.mark],
    one 63 29 [.mark, .requestPath], on [(65, 90), (97, 122)] 173 [.mark], onRelaxed 19 [.mark]]),
  (4, [one 72 5 [.mark]]),
  (5, [one 84 6]),
  (6, [one 84 7]),
  (7, [one 80 8]),
  (8, [one 47 9]),
  (9, [one 49 10]),
  (10, [one 46 11]),
  (11, [on [(48, 49)] 12]),
  (12, [one 10 13 [.httpVersion], one 13 17 [.httpVersion]]),
  (13, [on [(1, 8), (11, 12), (14, 31), (33, 33), (35, 39), (42, 43), (45, 46), (48, 57),
      (65, 90), (94, 122), (124, 124), (126, 126)] 14 [.startField],
    one 10 348 [.startField, .done], one 13 18 [.startField]]),
  (14, [on tokenChar 14, one 58 15 [.writeField]]),
  (15, [on [(1, 8), (11, 12), (14, 31), (33, 126), (128, 255)] 16 [.startValue],
    on [(9, 9), (32, 32)] 15 [.startValue], one 10 13 [.startValue, .writeValue],
    one 13 17 [.startValue, .writeValue]]),
  (16, [on [(1, 9), (11, 12), (14, 126), (128, 255)] 16, one 10 13 [.writeValue],
    one 13 17 [.writeValue]]),
  (17, [one 10 13]),
  (18, [on [(1, 8), (11, 31), (33, 33), (35, 39), (42, 43), (45, 46), (48, 57), (65, 90),
      (94, 122), (124, 124), (126, 126)] 14,
    one 10 348 [.done], one 58 15 [.writeField]]),
  (20, [one 32 4 [.mark, .fragment], on queryChar 21 [.mark], one 37 22 [.mark],
    onRelaxed 21 [.mark]]),
  (21, [one 32 4 [.fragment], on queryChar 21, one 37 22, onRelaxed 21]),
  (22, [on xdigit 23]),
  (23, [on xdigit 21]),
  (29, [one 32 4 [.startQuery, .queryString, .requestUri], on queryChar 30 [.startQuery],
    one 35 20 [.startQuery, .queryString, .requestUri], one 37 31 [.startQuery],
    onRelaxed 30 [.startQuery]]),
  (30, [one 32 4 [.queryString, .requestUri], on queryChar 30,
    one 35 20 [.queryString, .requestUri], one 37 31, onRelaxed 30]),
  (31, [on xdigit 32]),
  (32, [on xdigit 30]),
  (175, [one 32 3 [.requestMethod], on methodChar 176]),
  (176, [one 32 3 [.requestMethod], on methodChar 177]),
  (177, [one 32 3 [.requestMethod], on methodChar 178]),
  (178, [one 32 3 [.requestMethod], on methodChar 179]),
  (179, [one 32 3 [.requestMethod], on methodChar 180]),
  (180, [one 32 3 [.requestMethod], on methodChar 181]),
  (181, [one 32 3 [.requestMethod], on methodChar 182]),
  (182, [one 32 3 [.requestMethod], on methodChar 183]),
  (183, [one 32 3 [.requestMethod], on methodChar 184]),
  (184, [one 32 3 [.requestMethod], on methodChar 185]),
  (185, [one 32 3 [.requestMethod], on methodChar 186]),
  (186, [one 32 3 [.requestMethod], on methodChar 187]),
  (187, [one 32 3 [.requestMethod], on methodChar 188]),
  (188, [one 32 3 [.requestMethod], on methodChar 189]),
  (189, [one 32 3 [.requestMethod], on methodChar 190]),
  (190, [one 32 3 [.requestMethod], on methodChar 191]),
  (191, [one 32 3 [.requestMethod], on methodChar 192]),
  (192, [one 32 3 [.requestMethod], on methodChar 193]),
  (193, [one 32 3 [.requestMethod]]),
  (348, [on tokenChar 14, one 58 15 [.writeField]])]

/-- The URI up to its query, with scheme and host. -/
def pathTransitions : List (Nat × List Transition) := [
  (19, [one 32 4 [.requestPath, .requestUri],
    on [(33, 33), (36, 36), (38, 46), (48, 57), (59, 59), (61, 61), (64, 90), (95, 95),
      (97, 122), (126, 126)] 19,
    one 35 20 [.requestPath, .requestUri], one 37 24, one 47 26, one 63 29 [.requestPath],
    onRelaxed 19]),
  (24, [on xdigit 25]),
  (25, [on xdigit 19]),
  (26, [one 32 4 [.requestPath, .requestUri],
    on [(33, 33), (36, 36), (38, 59), (61, 61), (64, 90), (95, 95), (97, 122), (126, 126),
      (128, 255)] 26,
    one 35 20 [.requestPath, .requestUri], one 37 27, one 63 29 [.requestPath], onRelaxed 26]),
  (27, [on xdigit 28]),
  (28, [on xdigit 26]),
  (33, [one 32 4 [.requestPath, .requestUri], on pchar 26, one 35 20 [.requestPath, .requestUri],
    one 37 27, one 47 34, one 63 29 [.requestPath], onRelaxed 26]),
  (34, [one 32 4 [.requestPath, .requestUri], on regName 35,
    one 35 20 [.requestPath, .requestUri], one 37 36, one 47 26, one 58 38,
    one 63 29 [.requestPath], one 64 42, one 91 47, onRelaxed 35]),
  (35, [one 32 4 [.requestPath, .requestUri], on regName 35,
    one 35 20 [.requestPath, .requestUri], one 37 36, one 47 26, one 58 38,
    one 63 29 [.requestPath], one 64 42, onRelaxed 35]),
  (36, [on xdigit 37]),
  (37, [on xdigit 35]),
  (38, [one 32 4 [.requestPath, .requestUri],
    on [(33, 33), (36, 36), (38, 46), (58, 59), (61, 61), (65, 90), (95, 95), (97, 122),
      (126, 126)] 39,
    one 35 20 [.requestPath, .requestUri], one 37 40, one 47 26, on digit 38,
    one 63 29 [.requestPath], one 64 42, onRelaxed 39]),
  (39, [on userinfo 39, one 37 40, one 64 42, onRelaxed 39]),
  (40, [on xdigit 41]),
  (41, [on xdigit 39]),
  (42, [one 32 4 [.requestPath, .requestUri], on regName 43,
    one 35 20 [.requestPath, .requestUri], one 37 44, one 47 26, one 58 46,
    one 63 29 [.requestPath], one 91 47, onRelaxed 43]),
  (43, [one 32 4 [.requestPath, .requestUri], on regName 43,
    one 35 20 [.requestPath, .requestUri], one 37 44, one 47 26, one 58 46,
    one 63 29 [.requestPath], onRelaxed 43]),
  (44, [on xdigit 45]),
  (45, [on xdigit 43]),
  (46, [one 32 4 [.requestPath, .requestUri], one 35 20 [.requestPath, .requestUri], one 47 26,
    on digit 46, one 63 29 [.requestPath]]),
  (47, [one 6 48, on xdigit 91, one 58 167, one 118 169]),
  (48, [on xdigit 49]),
  (49, [on xdigit 50, one 58 53]),
  (50, [on xdigit 51, one 58 53]),
  (51, [on xdigit 52, one 58 53]),
  (52, [one 58 53]),
  (53, [on [(48, 48), (51, 57)] 54, one 49 84, one 50 87, on xletter 90]),
  (54, [one 46 55, on xdigit 77, one 58 80]),
  (55, [on [(48, 48), (51, 57)] 56, one 49 72, one 50 74]),
  (56, [one 46 57]),
  (57, [on [(48, 48), (51, 57)] 58, one 49 67, one 50 69]),
  (58, [one 46 59]),
  (59, [on [(48, 48), (51, 57)] 60, one 49 62, one 50 64]),
  (60, [one 93 61]),
  (61, [one 32 4 [.requestPath, .requestUri], one 35 20 [.requestPath, .requestUri], one 47 26,
    one 58 46, one 63 29 [.requestPath]]),
  (62, [on digit 63, one 93 61]),
  (63, [on digit 60, one 93 61]),
  (64, [one 48 65, one 53 66, one 93 61]),
  (65, [on digit 60]),
  (66, [one 48 60]),
  (67, [one 46 59, on digit 68]),
  (68, [one 46 59, on digit 58]),
  (69, [one 46 59, one 48 70, one 53 71]),
  (70, [on digit 58]),
  (71, [one 48 58]),
  (72, [one 46 57, on digit 73]),
  (73, [one 46 57, on digit 56]),
  (74, [one 46 57, one 48 75, one 53 76]),
  (75, [on digit 56]),
  (76, [one 48 56]),
  (77, [on xdigit 78, one 58 80]),
  (78, [on xdigit 79, one 58 80]),
  (79, [one 58 80]),
  (80, [on xdigit 81]),
  (81, [on xdigit 82, one 93 61]),
  (82, [on xdigit 83, one 93 61]),
  (83, [on xdigit 60, one 93 61]),
  (84, [one 46 55, on digit 85, one 58 80, on xletter 77]),
  (85, [one 46 55, on digit 86, one 58 80, on xletter 78]),
  (86, [one 46 55, on xdigit 79, one 58 80]),
  (87, [one 46 55, one 48 88, on [(49, 52), (54, 57), (65, 70), (97, 102)] 77, one 53 89,
    one 58 80]),
  (88, [on digit 86, one 58 80, on xletter 78]),
  (89, [one 48 86, on [(49, 57), (65, 70), (97, 102)] 78, one 58 80]),
  (90, [on xdigit 77, one 58 80]),
  (91, [on xdigit 92, one 58 95]),
  (92, [on xdigit 93, one 58 95]),
  (93, [on xdigit 94, one 58 95]),
  (94, [one 58 95]),
  (95, [on xdigit 96, one 58 166]),
  (96, [on xdigit 97, one 58 100]),
  (97, [on xdigit 98, one 58 100]),
  (98, [on xdigit 99, one 58 100]),
  (99, [one 58 100]),
  (100, [on xdigit 101, one 58 165]),
  (101, [on xdigit 102, one 58 105]),
  (102, [on xdigit 103, one 58 105]),
  (103, [on xdigit 104, one 58 105]),
  (104, [one 58 105]),
  (105, [on xdigit 106, one 58 164]),
  (106, [on xdigit 107, one 58 110]),
  (107, [on xdigit 108, one 58 110]),
  (108, [on xdigit 109, one 58 110]),
  (109, [one 58 110]),
  (110, [on xdigit 111, one 58 163]),
  (111, [on xdigit 112, one 58 115]),
  (112, [on xdigit 113, one 58 115]),
  (113, [on xdigit 114, one 58 115]),
  (114, [one 58 115]),
  (115, [on xdigit 116, one 58 151]),
  (116, [on xdigit 117, one 58 120]),
  (117, [on xdigit 118, one 58 120]),
  (118, [on xdigit 119, one 58 120]),
  (119, [one 58 120]),
  (120, [on xdigit 121, one 58 150]),
  (121, [on xdigit 122, one 58 125]),
  (122, [on xdigit 123, one 58 125]),
  (123, [on xdigit 124, one 58 125]),
  (124, [one 58 125]),
  (125, [on xdigit 121, one 58 126]),
  (126, [on [(2, 3)] 48, on [(48, 48), (51, 57)] 127, one 49 143, one 50 146, on xletter 149,
    one 93 61]),
  (127, [one 46 55, on xdigit 128, one 58 131, one 93 61]),
  (128, [on xdigit 129, one 58 131, one 93 61]),
  (129, [on xdigit 130, one 58 131, one 93 61]),
  (130, [one 58 131, one 93 61]),
  (131, [on [(48, 48), (51, 57)] 132, one 49 136, one 50 139, on xletter 142]),
  (132, [one 46 55, on xdigit 133, one 58 80, one 93 61]),
  (133, [on xdigit 134, one 58 80, one 93 61]),
  (134, [on xdigit 135, one 58 80, one 93 61]),
  (135, [one 58 80, one 93 61]),
  (136, [one 46 55, on digit 137, one 58 80, on xletter 133, one 93 61]),
  (137, [one 46 55, on digit 138, one 58 80, on xletter 134, one 93 61]),
  (138, [one 46 55, on xdigit 135, one 58 80, one 93 61]),
  (139, [one 46 55, one 48 140, on [(49, 52), (54, 57), (65, 70), (97, 102)] 133, one 53 141,
    one 58 80, one 93 61]),
  (140, [on digit 138, one 58 80, on xletter 134, one 93 61]),
  (141, [one 48 138, on [(49, 57), (65, 70), (97, 102)] 134, one 58 80, one 93 61]),
  (142, [on xdigit 133, one 58 80, one 93 61]),
  (143, [one 46 55, on digit 144, one 58 131, on xletter 128, one 93 61]),
  (144, [one 46 55, on digit 145, one 58 131, on xletter 129, one 93 61]),
  (145, [one 46 55, on xdigit 130, one 58 131, one 93 61]),
  (146, [one 46 55, one 48 147, on [(49, 52), (54, 57), (65, 70), (97, 102)] 128, one 53 148,
    one 58 131, one 93 61]),
  (147, [on digit 145, one 58 131, on xletter 129, one 93 61]),
  (148, [one 48 145, on [(49, 57), (65, 70), (97, 102)] 129, one 58 131, one 93 61]),
  (149, [on xdigit 128, one 58 131, one 93 61]),
  (150, [on [(2, 3)] 48, on [(48, 48), (51, 57)] 127, one 49 143, one 50 146, on xletter 149]),
  (151, [on [(2, 3)] 48, on [(48, 48), (51, 57)] 152, one 49 156, one 50 159, on xletter 162]),
  (152, [one 46 55, on xdigit 153, one 58 131]),
  (153, [on xdigit 154, one 58 131]),
  (154, [on xdigit 155, one 58 131]),
  (155, [one 58 131]),
  (156, [one 46 55, on digit 157, one 58 131, on xletter 153]),
  (157, [one 46 55, on digit 158, one 58 131, on xletter 154]),
  (158, [one 46 55, on xdigit 155, one 58 131]),
  (159, [one 46 55, one 48 160, on [(49, 52), (54, 57), (65, 70), (97, 102)] 153, one 53 161,
    one 58 131]),
  (160, [on digit 158, one 58 131, on xletter 154]),
  (161, [one 48 158, on [(49, 57), (65, 70), (97, 102)] 154, one 58 131]),
  (162, [on xdigit 153, one 58 131]),
  (163, [on [(2, 3)] 48, on xdigit 49]),
  (164, [on [(2, 3)] 48]),
  (165, [one 3 48]),
  (166, [one 4 48]),
  (167, [one 58 168]),
  (168, [on [(2, 5)] 48, on [(48, 48), (51, 57)] 127, one 49 143, one 50 146, on xletter 149,
    one 93 61]),
  (169, [on xdigit 170]),
  (170, [one 46 171, on xdigit 170]),
  (171, [on userinfo 172, onRelaxed 172]),
  (172, [on userinfo 172, one 93 61, onRelaxed 172]),
  (173, [one 32 4 [.requestPath, .requestUri],
    on [(33, 33), (36, 36), (38, 42), (44, 44), (59, 59), (61, 61), (64, 64), (95, 95),
      (126, 126)] 19,
    one 35 20 [.requestPath, .requestUri], one 37 24,
    on [(43, 43), (45, 46), (48, 57), (65, 90), (97, 122)] 173, one 47 26, one 58 174,
    one 63 29 [.requestPath], onRelaxed 19]),
  (174, [one 32 4 [.mark, .requestPath, .requestUri], on pchar 26 [.mark],
    one 35 20 [.mark, .requestPath, .requestUri], one 37 27 [.mark], one 47 33 [.mark],
    one 63 29 [.mark, .requestPath], onRelaxed 26 [.mark]])]

/-- `SocketRequest`. -/
def socketTransitions : List (Nat × List Transition) := [
  (194, [on [(45, 46), (48, 57), (65, 90), (97, 122)] 195]),
  (195, [on [(9, 13), (32, 32), (47, 47), (62, 62)] 196 [.requestPath],
    on [(45, 46), (48, 57), (65, 90), (97, 122)] 195]),
  (196, [on [(0, 61), (63, 255)] 196, one 62 197]),
  (197, [one 0 349 [.xml, .done], on [(1, 61), (63, 255)] 196, one 62 197]),
  (198, [one 32 199 [.requestPath],
    on [(33, 33), (36, 36), (38, 46), (48, 57), (59, 59), (61, 61), (64, 90), (95, 95),
      (97, 122), (126, 126)] 202,
    one 37 203, one 47 208, onRelaxed 202]),
  (199, [one 123 200 [.mark]]),
  (200, [on [(0, 124), (126, 255)] 200, one 125 201]),
  (201, [one 0 349 [.json, .done], on [(1, 124), (126, 255)] 200, one 125 201]),
  (202, [one 32 199 [.requestPath],
    on [(33, 33), (36, 36), (38, 46), (48, 57), (59, 59), (61, 61), (64, 90), (95, 95),
      (97, 122), (126, 126)] 202,
    one 37 203, one 47 205, onRelaxed 202]),
  (203, [on xdigit 204]),
  (204, [on xdigit 202]),
  (205, [one 32 199 [.requestPath],
    on [(33, 33), (36, 36), (38, 59), (61, 61), (64, 90), (95, 95), (97, 122), (126, 126),
      (128, 255)] 205,
    one 37 206, onRelaxed 205]),
  (206, [on xdigit 207]),
  (207, [on xdigit 205]),
  (208, [one 32 199 [.requestPath], on pchar 205, one 37 206, one 47 209, onRelaxed 205]),
  (209, [one 32 199 [.requestPath], on regName 210, one 37 211, one 47 205, one 58 213,
    one 64 217, one 91 222, onRelaxed 210]),
  (210, [one 32 199 [.requestPath], on regName 210, one 37 211, one 47 205, one 58 213,
    one 64 217, onRelaxed 210]),
  (211, [on xdigit 212]),
  (212, [on xdigit 210]),
  (213, [one 32 199 [.requestPath],
    on [(33, 33), (36, 36), (38, 46), (58, 59), (61, 61), (65, 90), (95, 95), (97, 122),
      (126, 126)] 214,
    one 37 215, one 47 205, on digit 213, one 64 217, onRelaxed 214]),
  (214, [on userinfo 214, one 37 215, one 64 217, onRelaxed 214]),
  (215, [on xdigit 216]),
  (216, [on xdigit 214]),
  (217, [one 32 199 [.requestPath], on regName 218, one 37 219, one 47 205, one 58 221,
    one 91 222, onRelaxed 218]),
  (218, [one 32 199 [.requestPath], on regName 218, one 37 219, one 47 205, one 58 221,
    onRelaxed 218]),
  (219, [on xdigit 220]),
  (220, [on xdigit 218]),
  (221, [one 32 199 [.requestPath], one 47 205, on digit 221]),
  (222, [one 6 223, on xdigit 266, one 58 342, one 118 344]),
  (223, [on xdigit 224]),
  (224, [on xdigit 225, one 58 228]),
  (225, [on xdigit 226, one 58 228]),
  (226, [on xdigit 227, one 58 228]),
  (227, [one 58 228]),
  (228, [on [(48, 48), (51, 57)] 229, one 49 259, one 50 262, on xletter 265]),
  (229, [one 46 230, on xdigit 252, one 58 255]),
  (230, [on [(48, 48), (51, 57)] 231, one 49 247, one 50 249]),
  (231, [one 46 232]),
  (232, [on [(48, 48), (51, 57)] 233, one 49 242, one 50 244]),
  (233, [one 46 234]),
  (234, [on [(48, 48), (51, 57)] 235, one 49 237, one 50 239]),
  (235, [one 93 236]),
  (236, [one 32 199 [.requestPath], one 47 205, one 58 221]),
  (237, [on digit 238, one 93 236]),
  (238, [on digit 235, one 93 236]),
  (239, [one 48 240, one 53 241, one 93 236]),
  (240, [on digit 235]),
  (241, [one 48 235]),
  (242, [one 46 234, on digit 243]),
  (243, [one 46 234, on digit 233]),
  (244, [one 46 234, one 48 245, one 53 246]),
  (245, [on digit 233]),
  (246, [one 48 233]),
  (247, [one 46 232, on digit 248]),
  (248, [one 46 232, on digit 231]),
  (249, [one 46 232, one 48 250, one 53 251]),
  (250, [on digit 231]),
  (251, [one 48 231]),
  (252, [on xdigit 253, one 58 255]),
  (253, [on xdigit 254, one 58 255]),
  (254, [one 58 255]),
  (255, [on xdigit 256]),
  (256, [on xdigit 257, one 93 236]),
  (257, [on xdigit 258, one 93 236]),
  (258, [on xdigit 235, one 93 236]),
  (259, [one 46 230, on digit 260, one 58 255, on xletter 252]),
  (260, [one 46 230, on digit 261, one 58 255, on xletter 253]),
  (261, [one 46 230, on xdigit 254, one 58 255]),
  (262, [one 46 230, one 48 263, on [(49, 52), (54, 57), (65, 70), (97, 102)] 252, one 53 264,
    one 58 255]),
  (263, [on digit 261, one 58 255, on xletter 253]),
  (264, [one 48 261, on [(49, 57), (65, 70), (97, 102)] 253, one 58 255]),
  (265, [on xdigit 252, one 58 255]),
  (266, [on xdigit 267, one 58 270]),
  (267, [on xdigit 268, one 58 270]),
  (268, [on xdigit 269, one 58 270]),
  (269, [one 58 270]),
  (270, [on xdigit 271, one 58 341]),
  (271, [on xdigit 272, one 58 275]),
  (272, [on xdigit 273, one 58 275]),
  (273, [on xdigit 274, one 58 275]),
  (274, [one 58 275]),
  (275, [on xdigit 276, one 58 340]),
  (276, [on xdigit 277, one 58 280]),
  (277, [on xdigit 278, one 58 280]),
  (278, [on xdigit 279, one 58 280]),
  (279, [one 58 280]),
  (280, [on xdigit 281, one 58 339]),
  (281, [on xdigit 282, one 58 285]),
  (282, [on xdigit 283, one 58 285]),
  (283, [on xdigit 284, one 58 285]),
  (284, [one 58 285]),
  (285, [on xdigit 286, one 58 338]),
  (286, [on xdigit 287, one 58 290]),
  (287, [on xdigit 288, one 58 290]),
  (288, [on xdigit 289, one 58 290]),
  (289, [one 58 290]),
  (290, [on xdigit 291, one 58 326]),
  (291, [on xdigit 292, one 58 295]),
  (292, [on xdigit 293, one 58 295]),
  (293, [on xdigit 294, one 58 295]),
  (294, [one 58 295]),
  (295, [on xdigit 296, one 58 325]),
  (296, [on xdigit 297, one 58 300]),
  (297, [on xdigit 298, one 58 300]),
  (298, [on xdigit 299, one 58 300]),
  (299, [one 58 300]),
  (300, [on xdigit 296, one 58 301]),
  (301, [on [(2, 3)] 223, on [(48, 48), (51, 57)] 302, one 49 318, one 50 321, on xletter 324,
    one 93 236]),
  (302, [one 46 230, on xdigit 303, one 58 306, one 93 236]),
  (303, [on xdigit 304, one 58 306, one 93 236]),
  (304, [on xdigit 305, one 58 306, one 93 236]),
  (305, [one 58 306, one 93 236]),
  (306, [on [(48, 48), (51, 57)] 307, one 49 311, one 50 314, on xletter 317]),
  (307, [one 46 230, on xdigit 308, one 58 255, one 93 236]),
  (308, [on xdigit 309, one 58 255, one 93 236]),
  (309, [on xdigit 310, one 58 255, one 93 236]),
  (310, [one 58 255, one 93 236]),
  (311, [one 46 230, on digit 312, one 58 255, on xletter 308, one 93 236]),
  (312, [one 46 230, on digit 313, one 58 255, on xletter 309, one 93 236]),
  (313, [one 46 230, on xdigit 310, one 58 255, one 93 236]),
  (314, [one 46 230, one 48 315, on [(49, 52), (54, 57), (65, 70), (97, 102)] 308, one 53 316,
    one 58 255, one 93 236]),
  (315, [on digit 313, one 58 255, on xletter 309, one 93 236]),
  (316, [one 48 313, on [(49, 57), (65, 70), (97, 102)] 309, one 58 255, one 93 236]),
  (317, [on xdigit 308, one 58 255, one 93 236]),
  (318, [one 46 230, on digit 319, one 58 306, on xletter 303, one 93 236]),
  (319, [one 46 230, on digit 320, one 58 306, on xletter 304, one 93 236]),
  (320, [one 46 230, on xdigit 305, one 58 306, one 93 236]),
  (321, [one 46 230, one 48 322, on [(49, 52), (54, 57), (65, 70), (97, 102)] 303, one 53 323,
    one 58 306, one 93 236]),
  (322, [on digit 320, one 58 306, on xletter 304, one 93 236]),
  (323, [one 48 320, on [(49, 57), (65, 70), (97, 102)] 304, one 58 306, one 93 236]),
  (324, [on xdigit 303, one 58 306, one 93 236]),
  (325, [on [(2, 3)] 223, on [(48, 48), (51, 57)] 302, one 49 318, one 50 321, on xletter 324]),
  (326, [on [(2, 3)] 223, on [(48, 48), (51, 57)] 327, one 49 331, one 50 334, on xletter 337]),
  (327, [one 46 230, on xdigit 328, one 58 306]),
  (328, [on xdigit 329, one 58 306]),
  (329, [on xdigit 330, one 58 306]),
  (330, [one 58 306]),
  (331, [one 46 230, on digit 332, one 58 306, on xletter 328]),
  (332, [one 46 230, on digit 333, one 58 306, on xletter 329]),
  (333, [one 46 230, on xdigit 330, one 58 306]),
  (334, [one 46 230, one 48 335, on [(49, 52), (54, 57), (65, 70), (97, 102)] 328, one 53 336,
    one 58 306]),
  (335, [on digit 333, one 58 306, on xletter 329]),
  (336, [one 48 333, on [(49, 57), (65, 70), (97, 102)] 329, one 58 306]),
  (337, [on xdigit 328, one 58 306]),
  (338, [on [(2, 3)] 223, on xdigit 224]),
  (339, [on [(2, 3)] 223]),
  (340, [one 3 223]),
  (341, [one 4 223]),
  (342, [one 58 343]),
  (343, [on [(2, 5)] 223, on [(48, 48), (51, 57)] 302, one 49 318, one 50 321, on xletter 324,
    one 93 236]),
  (344, [on xdigit 345]),
  (345, [one 46 346, on xdigit 345]),
  (346, [on userinfo 347, onRelaxed 347]),
  (347, [on userinfo 347, one 93 236, onRelaxed 347]),
  (349, [])]

def transitions : List (Nat × List Transition) :=
  lineTransitions ++ pathTransitions ++ socketTransitions

def Transition.takes (relaxed : Bool) (c : UInt8) (t : Transition) : Bool :=
  (t.bytes.any fun (lo, hi) => lo ≤ c.toNat && c.toNat ≤ hi) && (!t.relaxed || relaxed)

/-- The transition from state `cs` on `c`; none is the error state. -/
def next (relaxed : Bool) (cs : Nat) (c : UInt8) : Option Transition :=
  ((transitions.lookup cs).getD []).find? (Transition.takes relaxed c)

end Lyslg.Http11
