import Lyslg.Uri.Model
/-!
# The stages of the URI machine

The machine tells userinfo, host and port apart only when it reads a delimiter.  Its states
are grouped by what the text since the mark may be, and `Stage.next` says what a byte of each
class does to a stage.  `next_stage` checks the table against it, so that a run of the machine
is a run of the stages with the same actions.
-/

namespace Lyslg.UriParser

open Http Support

/-! ## Classes of bytes -/

inductive ByteClass where
  | letter | digit | schemeMark | colon | slash | question | hash | at | open | close
  /-- the byte 2, which `uri.rl` has for the digit -/
  | two
  | other
  deriving DecidableEq, Repr

/-- Ranges of bytes with their classes. -/
def classRanges : List (Nat × Nat × ByteClass) := [
  (0, 1, .other), (2, 2, .two), (3, 34, .other), (35, 35, .hash), (36, 42, .other),
  (43, 43, .schemeMark), (44, 44, .other), (45, 46, .schemeMark), (47, 47, .slash),
  (48, 57, .digit), (58, 58, .colon), (59, 62, .other), (63, 63, .question), (64, 64, .at),
  (65, 90, .letter), (91, 91, .open), (92, 92, .other), (93, 93, .close), (94, 96, .other),
  (97, 122, .letter), (123, 255, .other)]

def classOf (c : UInt8) : ByteClass :=
  ((classRanges.find? fun r => r.1 ≤ c.toNat && c.toNat ≤ r.2.1).map fun r => r.2.2).getD .other

/-- The classes that the bytes from `lo` to `hi` have. -/
def classesIn (lo hi : Nat) : List ByteClass :=
  (classRanges.filter fun r => Nat.ble r.1 hi && Nat.ble lo r.2.1).map fun r => r.2.2

theorem classOf_mem {c : UInt8} {lo hi : Nat} (hlo : lo ≤ c.toNat) (hhi : c.toNat ≤ hi) :
    classOf c ∈ classesIn lo hi := by
  have hfound : ∃ r, (classRanges.find? fun r => r.1 ≤ c.toNat && c.toNat ≤ r.2.1) = some r := by
    have hcover : ∀ c : UInt8,
        (classRanges.find? fun r => r.1 ≤ c.toNat && c.toNat ≤ r.2.1).isSome := by
      apply forall_byte
      decide +kernel
    exact Option.isSome_iff_exists.mp (hcover c)
  obtain ⟨r, hr⟩ := hfound
  have hin := List.find?_some hr
  simp only [Bool.and_eq_true, decide_eq_true_eq] at hin
  rw [classOf, hr]
  refine List.mem_map.mpr ⟨r, List.mem_filter.mpr ⟨List.mem_of_find?_eq_some hr, ?_⟩, rfl⟩
  simp only [Bool.and_eq_true, Nat.ble_eq]
  omega

/-- The bytes of the classes that stand for delimiters and digits. -/
theorem classOf_iff (c : UInt8) : (classOf c = .hash ↔ c = 35) ∧ (classOf c = .slash ↔ c = 47) ∧
    (classOf c = .question ↔ c = 63) ∧ (classOf c = .colon ↔ c = 58) ∧ (classOf c = .at ↔ c = 64) ∧
    (classOf c = .open ↔ c = 91) ∧ (classOf c = .close ↔ c = 93) ∧ (classOf c = .two ↔ c = 2) ∧
    (classOf c = .digit ↔ 48 ≤ c ∧ c ≤ 57) := by
  revert c
  apply forall_byte
  decide +kernel

section

variable {c : UInt8}

@[simp] theorem classOf_hash : classOf c = .hash ↔ c = 35 := (classOf_iff c).1

@[simp] theorem classOf_slash : classOf c = .slash ↔ c = 47 := (classOf_iff c).2.1

@[simp] theorem classOf_question : classOf c = .question ↔ c = 63 := (classOf_iff c).2.2.1

@[simp] theorem classOf_colon : classOf c = .colon ↔ c = 58 := (classOf_iff c).2.2.2.1

@[simp] theorem classOf_at : classOf c = .at ↔ c = 64 := (classOf_iff c).2.2.2.2.1

@[simp] theorem classOf_open : classOf c = .open ↔ c = 91 := (classOf_iff c).2.2.2.2.2.1

@[simp] theorem classOf_close : classOf c = .close ↔ c = 93 := (classOf_iff c).2.2.2.2.2.2.1

@[simp] theorem classOf_two : classOf c = .two ↔ c = 2 := (classOf_iff c).2.2.2.2.2.2.2.1

@[simp] theorem classOf_digit : classOf c = .digit ↔ 48 ≤ c ∧ c ≤ 57 :=
  (classOf_iff c).2.2.2.2.2.2.2.2

end

/-! ## Stages -/

/-- What the text since the mark may be; in an authority, `absolute` says that there was a
scheme. -/
inductive Stage where
  | start
  /-- the first segment of a path without a scheme -/
  | segment
  | scheme
  /-- after the colon of the scheme -/
  | hierPart
  /-- after a slash that may begin an authority -/
  | slash (absolute : Bool)
  /-- a path that is not saved -/
  | plainPath
  | authority (absolute : Bool)
  /-- a userinfo or a host -/
  | name (absolute : Bool)
  | literal (absolute : Bool)
  /-- after a colon: a port, or more of a userinfo -/
  | colon (absolute : Bool)
  | digits (absolute : Bool)
  | userinfo (absolute : Bool)
  /-- after the end of the userinfo -/
  | hostStart (absolute : Bool)
  | host (absolute : Bool)
  | portStart (absolute : Bool)
  | port (absolute : Bool)
  | path
  | queryStart
  | query
  | fragmentStart
  | fragment
  deriving DecidableEq, Repr

namespace Stage

/-- What ends a part of an authority: `action` at the mark, or where there is no text since the
last delimiter, at a mark set first. -/
def closing (absolute empty : Bool) (action : Action) : List Action :=
  if empty then [.mark, action] else if absolute then [action, .mark] else [action]

def finish (absolute : Bool) (actions : List Action) : ByteClass → Option (Stage × List Action)
  | .slash => some (if absolute then .path else .plainPath, actions)
  | .question => some (.queryStart, if absolute then actions ++ [.savePath] else actions)
  | .hash => some (.fragmentStart, if absolute then actions ++ [.savePath] else actions)
  | _ => none

def next : Stage → ByteClass → Option (Stage × List Action)
  | .start, .letter => some (.scheme, [.mark])
  | .start, .slash => some (.slash false, [])
  | .start, .question => some (.queryStart, [])
  | .start, .hash => some (.fragmentStart, [])
  | .start, .colon => none
  | .start, _ => some (.segment, [])
  | .segment, .slash => some (.plainPath, [])
  | .segment, .question => some (.queryStart, [])
  | .segment, .hash => some (.fragmentStart, [])
  | .segment, .colon => none
  | .segment, _ => some (.segment, [])
  | .scheme, .letter | .scheme, .digit | .scheme, .schemeMark => some (.scheme, [])
  | .scheme, .colon => some (.hierPart, [.saveScheme])
  | .scheme, .slash => some (.plainPath, [])
  | .scheme, .question => some (.queryStart, [])
  | .scheme, .hash => some (.fragmentStart, [])
  | .scheme, _ => some (.segment, [])
  | .hierPart, .slash => some (.slash true, [])
  | .slash absolute, .slash => some (.authority absolute, [])
  | .hierPart, .question | .slash _, .question | .plainPath, .question => some (.queryStart, [])
  | .hierPart, .hash | .slash _, .hash | .plainPath, .hash => some (.fragmentStart, [])
  | .hierPart, _ | .slash _, _ | .plainPath, _ => some (.plainPath, [])
  | .authority absolute, c =>
      match c with
      | .letter | .digit | .schemeMark | .other => some (.name absolute, [.mark])
      | .two => some (.host absolute, [.mark])
      | .colon => some (.colon absolute, [.mark, .saveHost])
      | .at => some (.hostStart absolute, [.mark, .saveUserinfo])
      | .open => some (.literal absolute, [.mark])
      | c => finish absolute (closing absolute true .saveHost) c
  | .name absolute, c =>
      match c with
      | .letter | .digit | .schemeMark | .other => some (.name absolute, [])
      | .two => some (.host absolute, [])
      | .colon => some (.colon absolute, [.saveHost])
      | .at => some (.hostStart absolute, [.saveUserinfo])
      | c => finish absolute (closing absolute false .saveHost) c
  | .literal absolute, c =>
      match c with
      | .letter | .digit | .schemeMark | .other | .two | .colon => some (.literal absolute, [])
      | .close => some (.host absolute, [])
      | _ => none
  | .colon absolute, c =>
      match c with
      | .digit => some (.digits absolute, [.mark])
      | .letter | .schemeMark | .other | .colon => some (.userinfo absolute, [])
      | .at => some (.hostStart absolute, [.saveUserinfo])
      | c => finish absolute (closing absolute true .savePort) c
  | .digits absolute, c =>
      match c with
      | .digit => some (.digits absolute, [])
      | .letter | .schemeMark | .other | .colon => some (.userinfo absolute, [])
      | .at => some (.hostStart absolute, [.saveUserinfo])
      | c => finish absolute (closing absolute false .savePort) c
  | .userinfo absolute, c =>
      match c with
      | .letter | .digit | .schemeMark | .other | .colon => some (.userinfo absolute, [])
      | .at => some (.hostStart absolute, [.saveUserinfo])
      | _ => none
  | .hostStart absolute, c =>
      match c with
      | .letter | .digit | .schemeMark | .other | .two => some (.host absolute, [.mark])
      | .colon => some (.portStart absolute, [.mark, .saveHost])
      | .open => some (.literal absolute, [.mark])
      | c => finish absolute (closing absolute true .saveHost) c
  | .host absolute, c =>
      match c with
      | .letter | .digit | .schemeMark | .other | .two => some (.host absolute, [])
      | .colon => some (.portStart absolute, [.saveHost])
      | c => finish absolute (closing absolute false .saveHost) c
  | .portStart absolute, c =>
      match c with
      | .digit => some (.port absolute, [.mark])
      | c => finish absolute (closing absolute true .savePort) c
  | .port absolute, c =>
      match c with
      | .digit => some (.port absolute, [])
      | c => finish absolute (closing absolute false .savePort) c
  | .path, .question => some (.queryStart, [.savePath])
  | .path, .hash => some (.fragmentStart, [.savePath])
  | .path, _ => some (.path, [])
  | .queryStart, .hash => some (.fragmentStart, [.mark, .saveQuery])
  | .queryStart, _ => some (.query, [.mark])
  | .query, .hash => some (.fragmentStart, [.saveQuery])
  | .query, _ => some (.query, [])
  | .fragmentStart, .hash | .fragment, .hash => none
  | .fragmentStart, _ => some (.fragment, [.mark])
  | .fragment, _ => some (.fragment, [])

/-- The actions at the end of the text. -/
def atEnd : Stage → List Action
  | .authority absolute | .hostStart absolute => ending absolute (closing absolute true .saveHost)
  | .name absolute | .host absolute => ending absolute (closing absolute false .saveHost)
  | .colon absolute | .portStart absolute => ending absolute (closing absolute true .savePort)
  | .digits absolute | .port absolute => ending absolute (closing absolute false .savePort)
  | .path => [.savePath]
  | .queryStart => [.mark, .saveQuery]
  | .query => [.saveQuery]
  | .fragmentStart => [.mark, .saveFragment]
  | .fragment => [.saveFragment]
  | _ => []
where
  ending (absolute : Bool) (actions : List Action) : List Action :=
    if absolute then actions ++ [.savePath] else actions

end Stage

/-! ## The stages of the table -/

/-- Ranges of states with their stages. -/
def stageRanges : List (Nat × Nat × Stage) := [
  (38, 228, .literal false), (260, 450, .literal true),
  (543, 560, .name true), (523, 541, .host true), (490, 507, .name false), (470, 488, .host false),
  (9, 30, .host false), (229, 242, .host true), (245, 252, .host true),
  (451, 451, .start), (3, 4, .segment), (452, 452, .segment), (508, 508, .scheme),
  (509, 509, .hierPart), (510, 510, .slash true), (458, 458, .slash false),
  (5, 6, .plainPath), (455, 455, .plainPath), (513, 513, .path), (243, 244, .path),
  (456, 456, .queryStart), (7, 8, .query), (457, 457, .query),
  (453, 453, .fragmentStart), (1, 2, .fragment), (454, 454, .fragment),
  (511, 511, .authority true), (253, 254, .name true), (520, 520, .name true),
  (521, 521, .colon true), (542, 542, .digits true), (255, 257, .userinfo true),
  (522, 522, .hostStart true), (258, 259, .host true), (512, 512, .host true),
  (516, 519, .host true), (514, 514, .portStart true), (515, 515, .port true),
  (459, 459, .authority false), (31, 32, .name false), (467, 467, .name false),
  (468, 468, .colon false), (489, 489, .digits false), (33, 35, .userinfo false),
  (469, 469, .hostStart false), (36, 37, .host false), (460, 460, .host false),
  (463, 466, .host false), (461, 461, .portStart false), (462, 462, .port false)]

def stage (cs : Nat) : Stage :=
  ((stageRanges.find? fun r => Nat.ble r.1 cs && Nat.ble cs r.2.1).map fun r => r.2.2).getD .start

/-- What the table says of each of its transitions. -/
def Transition.Sound (cs : Nat) (t : Transition) : Prop :=
  t.target ≤ 560 ∧ ∀ r ∈ t.bytes, ∀ c ∈ classesIn r.1 r.2,
    (stage cs).next c = some (stage t.target, t.actions)

instance (cs : Nat) (t : Transition) : Decidable (t.Sound cs) :=
  inferInstanceAs (Decidable (_ ∧ _))

theorem transitions_sound : ∀ row ∈ transitions, ∀ t ∈ row.2, t.Sound row.1 := by
  decide +kernel

variable {cs cs' : Nat} {c : UInt8} {t : Transition}

theorem next_mem (h : next cs c = some t) :
    (∃ ts, (cs, ts) ∈ transitions ∧ t ∈ ts) ∧ t.takes c = true :=
  lookup_find?_mem h

theorem next_stage (h : next cs c = some t) :
    t.target ≤ 560 ∧ (stage cs).next (classOf c) = some (stage t.target, t.actions) := by
  obtain ⟨⟨ts, hrow, ht⟩, htakes⟩ := next_mem h
  obtain ⟨hbound, hsound⟩ := transitions_sound (cs, ts) hrow t ht
  obtain ⟨r, hr, hin⟩ := List.any_eq_true.mp htakes
  simp only [Bool.and_eq_true, decide_eq_true_eq] at hin
  exact ⟨hbound, hsound r hr _ (classOf_mem hin.1 hin.2)⟩

-- no text begins with a colon
example : (next 451 58).isNone ∧ (stage 451).next (classOf 58) = none := by decide +kernel

theorem eofActions_stage : ∀ cs ∈ List.range' 451 110, eofActions cs = (stage cs).atEnd := by
  decide +kernel

/-! ## Runs -/

/-- The stages as a scanner. -/
def stages : Scanner UInt8 Stage (Stage × List Action) (Action × Nat) where
  next st c := st.next (classOf c)
  follow p _ t := (t.1, t.2.map fun a => (a, p))
  ends _ := false
  fail st := st

open Uri

variable {p : Nat} {s : List UInt8} {events : List (Action × Nat)}

/-- The machine refines the stages. -/
theorem walks_stages (h : machine.Walks p cs s events cs') :
    stages.Walks p (stage cs) s events (stage cs') := by
  refine h.map fun p cs c t hnext => ⟨(stage t.target, t.actions), ?_, rfl, rfl⟩
  exact (next_stage hnext).2

theorem walks_le (h : machine.Walks p cs s events cs') (hcs : cs ≤ 560) : cs' ≤ 560 :=
  h.keeps (I := fun cs => cs ≤ 560) (L := fun _ => True)
    (fun _ _ _ _ _ _ hnext => (next_stage hnext).1) (fun _ _ => trivial) hcs

/-- The machine ends in a final state. -/
def Accepts (s : List UInt8) : Prop :=
  ∃ events cs, machine.Walks 0 451 s events cs ∧ 451 ≤ cs

theorem accepts_of_create {u : Uri} (h : create s = some (some u)) : Accepts s := by
  obtain ⟨self, -, hself⟩ := Option.bind_eq_some_iff.mp h
  have hresult := Option.some.inj hself
  split at hresult
  · cases hresult
  split at hresult
  · rename_i hzero hfinal
    rcases machine.exec_walks (fun _ => rfl) 451 0 s with hwalk | ⟨cs, hfail⟩
    · exact ⟨_, _, hwalk, hfinal⟩
    · exact absurd hfail hzero
  · cases hresult

/-- What `Create` makes of a text that the machine accepts, by the stages alone. -/
theorem create_of_stages {st : Stage} (haccepts : Accepts s)
    (h : stages.Walks 0 .start s events st) :
    create s = (Creation.actAll s {} (events ++ st.atEnd.map fun a => (a, s.length))).map
      fun self => some self.uri := by
  obtain ⟨events', cs, hwalk, hfinal⟩ := haccepts
  obtain ⟨rfl, rfl⟩ := h.unique (walks_stages hwalk)
  have hend : eofActions cs = (stage cs).atEnd :=
    eofActions_stage cs
    (List.mem_range'_1.mpr ⟨hfinal, by have := walks_le hwalk (by decide); omega⟩)
  rw [create, hwalk.exec_eq]
  simp only [hend, Nat.zero_add]
  cases Creation.actAll s {} (events ++ (stage cs).atEnd.map fun a => (a, s.length)) with
  | none => rfl
  | some self =>
      show some (if cs = 0 then none else if 451 ≤ cs then some self.uri else none) = _
      rw [if_neg (by omega), if_pos hfinal]
      rfl

end Lyslg.UriParser
