import Lyslg.Http.Request
import Lyslg.Util.StdString
/-!
# `Address::Lookup`

The host is cut into what `getaddrinfo` gets in two stages that share the node and the service.
Pointers into the host are positions in it.  None is undefined behaviour: a position behind the
terminator, or the difference of a pointer and the null pointer.
-/

namespace Lyslg.Address

open Http StdString

/-- `memchr(host.c_str() + i, ch, n)`, where `some none` is the null pointer. -/
def memchr (host : List UInt8) (i : Nat) (ch : UInt8) (n : Nat) : Option (Option Nat) :=
  if i + n ≤ host.length then
    some ((((host.drop i).take n).findIdx? (· == ch)).map (i + ·))
  else none

/-- A position in the host, or its terminator. -/
def pointer (host : List UInt8) (i : Nat) : Option Nat :=
  if i ≤ host.length then some i else none

/-- `*(host.c_str() + i)` -/
def charAt (host : List UInt8) (i : Nat) : Option UInt8 := (host ++ [0])[i]?

/-- The locals `node` and `service`. -/
structure Parts where
  node : List UInt8
  service : Option Nat
  deriving DecidableEq, Repr

/-- The service behind the bracket at `endipv6`. -/
def serviceBehind (host : List UInt8) (endipv6 : Nat) : Option (Option Nat) := do
  if (← charAt host (endipv6 + 1)) = 58 then return some (← pointer host (endipv6 + 2))
  else return none

/-- The stage of `[ipv6]:service`. -/
def bracketStage (host : List UInt8) : Option Parts :=
  if host.head? = some 91 then do
    match ← memchr host 1 93 (host.length - 1) with
    | none => none
    | some endipv6 =>
        let service ← serviceBehind host endipv6
        let node ← substr host 1 (endipv6 - 1)
        return ⟨node, service⟩
  else some ⟨[], none⟩

/-- The stage of `node:service`. -/
def colonStage (host : List UInt8) (parts : Parts) : Option Parts :=
  if parts.node.isEmpty then do
    match ← memchr host 0 58 host.length with
    | none => return { parts with service := none }
    | some service =>
        if (← memchr host (service + 1) 58 (host.length - service - 1)).isNone then
          return ⟨← substr host 0 service, some (← pointer host (service + 1))⟩
        else return { parts with service := some service }
  else some parts

/-- The node and the service that `getaddrinfo` is called with. -/
def lookupArguments (host : List UInt8) : Option (List UInt8 × Option (List UInt8)) := do
  let parts ← colonStage host (← bracketStage host)
  let node := if parts.node.isEmpty then host else parts.node
  return (cStr node, parts.service.map fun service => cStr (host.drop service))

/-- `Lookup(result, host, family, type, protocol)`, where `getaddrinfo` has failed or has a list of
addresses. -/
def lookup {α : Type} (getaddrinfo : List UInt8 → Option (List UInt8) → Int → Int → Int →
    Option (List α)) (result : List α) (host : List UInt8) (family type protocol : Int) :
    Option (List α × Bool) := do
  let (node, service) ← lookupArguments host
  match getaddrinfo node service family type protocol with
  | none => return (result, false)
  | some addresses => return (result ++ addresses, true)

section Stages

variable {host a b node tail : List UInt8} {ch : UInt8} {i n : Nat} {parts : Parts}

/-! ## The searches -/

theorem memchr_eq (ch : UInt8) (hn : i + n = host.length) : memchr host i ch n =
    some (((host.drop i).findIdx? (· == ch)).map (i + ·)) := by
  have htake : (host.drop i).take n = host.drop i := by
    refine List.take_of_length_le ?_
    rw [List.length_drop]
    omega
  rw [memchr, if_pos (Nat.le_of_eq hn), htake]

theorem memchr_found (hn : i + n = host.length) (h : host.drop i = a ++ ch :: b) (ha : ch ∉ a) :
    memchr host i ch n = some (some (i + a.length)) := by
  have hnone : a.findIdx? (· == ch) = none :=
    List.findIdx?_eq_none_iff.mpr (beq_false_of_not_mem ha)
  rw [memchr_eq ch hn, h, List.findIdx?_append, hnone, List.findIdx?_cons, beq_self_eq_true]
  exact congrArg (fun k => some (some (i + k))) (Nat.zero_add a.length)

theorem memchr_null (hn : i + n = host.length) (h : ch ∉ host.drop i) :
    memchr host i ch n = some none := by
  rw [memchr_eq ch hn, List.findIdx?_eq_none_iff.mpr (beq_false_of_not_mem h)]
  rfl

theorem charAt_append (h : host = a ++ b) : charAt host a.length = some (b.headD 0) := by
  rw [charAt, h, List.append_assoc, List.getElem?_append_right (Nat.le_refl _), Nat.sub_self]
  cases b <;> rfl

/-! ## The stage of the brackets -/

theorem bracketStage_plain (h : host.head? ≠ some 91) : bracketStage host = some ⟨[], none⟩ := by
  exact if_neg h

theorem bracketStage_open (h : 93 ∉ tail) : bracketStage (91 :: tail) = none := by
  have hnull : memchr (91 :: tail) 1 93 ((91 :: tail).length - 1) = some none :=
    memchr_null (Nat.add_comm 1 tail.length) h
  have hhead : (91 :: tail).head? = some 91 := rfl
  rw [bracketStage, if_pos hhead, hnull]
  rfl

/-- The node is between the brackets, and the service behind a colon. -/
theorem bracketStage_closed (h : 93 ∉ node) : bracketStage (91 :: (node ++ 93 :: tail)) =
    some ⟨node, if tail.headD 0 = 58 then some (node.length + 3) else none⟩ := by
  generalize hhost : 91 :: (node ++ 93 :: tail) = host
  have hlength : host.length = 1 + (node ++ 93 :: tail).length := by
    rw [← hhost, List.length_cons, Nat.add_comm]
  have hdrop : host.drop 1 = node ++ 93 :: tail := by rw [← hhost]; rfl
  have hfound : memchr host 1 93 (host.length - 1) = some (some (1 + node.length)) :=
    memchr_found (by omega) hdrop h
  have hcut : host = (91 :: node ++ [93]) ++ tail := by
    rw [← hhost, List.append_assoc]
    rfl
  have hplace : (91 :: node ++ [93]).length = 1 + node.length + 1 := by
    rw [List.length_append, List.length_cons, Nat.add_comm node.length]
    rfl
  have hchar : charAt host (1 + node.length + 1) = some (tail.headD 0) := by
    rw [← hplace]
    exact charAt_append hcut
  have hservice : serviceBehind host (1 + node.length) =
      some (if tail.headD 0 = 58 then some (node.length + 3) else none) := by
    rw [serviceBehind, hchar, Option.bind_eq_bind, Option.bind_some]
    by_cases hcolon : tail.headD 0 = 58
    · have hroom : 1 + node.length + 2 ≤ host.length := by
        cases tail with
        | nil => cases hcolon
        | cons c tail =>
            rw [hlength, List.length_append, List.length_cons, List.length_cons]
            omega
      rw [if_pos hcolon, if_pos hcolon, pointer, if_pos hroom,
        (by omega : 1 + node.length + 2 = node.length + 3)]
      rfl
    · rw [if_neg hcolon, if_neg hcolon]
      rfl
  have hnode : substr host 1 (1 + node.length - 1) = some node := by
    rw [Nat.add_sub_cancel_left]
    exact substr_eq hdrop (by omega)
  have hhead : host.head? = some 91 := by rw [← hhost]; rfl
  rw [bracketStage, if_pos hhead, hfound, Option.bind_eq_bind, Option.bind_some]
  show (serviceBehind host (1 + node.length) >>= _) = _
  rw [hservice, Option.bind_eq_bind, Option.bind_some, hnode]
  rfl

/-! ## The stage of the colon -/

theorem colonStage_node (h : parts.node ≠ []) : colonStage host parts = some parts := by
  rw [colonStage, if_neg (by rwa [List.isEmpty_iff])]

theorem colonStage_plain (hnode : parts.node = []) (h : 58 ∉ host) :
    colonStage host parts = some { parts with service := none } := by
  have hnull : memchr host 0 58 host.length = some none := memchr_null (Nat.zero_add _) h
  rw [colonStage, if_pos (List.isEmpty_iff.mpr hnode), hnull]
  rfl

theorem memchr_first (h : host = a ++ 58 :: b) (ha : 58 ∉ a) :
    memchr host 0 58 host.length = some (some a.length) := by
  have hdrop : host.drop 0 = a ++ 58 :: b := h
  rw [memchr_found (Nat.zero_add _) hdrop ha, Nat.zero_add]

theorem length_behind (h : host = a ++ 58 :: b) :
    a.length + 1 + (host.length - a.length - 1) = host.length ∧ host.drop (a.length + 1) = b := by
  have hlength : host.length = a.length + (b.length + 1) := by
    rw [h, List.length_append, List.length_cons]
  refine ⟨by omega, ?_⟩
  rw [h, List.drop_length_add_append]
  rfl

/-- One colon cuts the host, also when there is nothing in front of it. -/
theorem colonStage_one (hnode : parts.node = []) (h : host = a ++ 58 :: b) (ha : 58 ∉ a)
    (hb : 58 ∉ b) : colonStage host parts = some ⟨a, some (a.length + 1)⟩ := by
  obtain ⟨hlength, hdrop⟩ := length_behind h
  have hnull : memchr host (a.length + 1) 58 (host.length - a.length - 1) = some none :=
    memchr_null hlength (by rwa [hdrop])
  have hsubstr : substr host 0 a.length = some a := substr_eq h (Nat.zero_le _)
  have hpointer : pointer host (a.length + 1) = some (a.length + 1) := if_pos (by omega)
  rw [colonStage, if_pos (List.isEmpty_iff.mpr hnode), memchr_first h ha, Option.bind_eq_bind,
    Option.bind_some]
  show (memchr host (a.length + 1) 58 (host.length - a.length - 1) >>= _) = _
  rw [hnull, hsubstr, hpointer]
  rfl

/-- With more than one colon the service stays at the first one. -/
theorem colonStage_several (hnode : parts.node = []) (h : host = a ++ 58 :: b) (ha : 58 ∉ a)
    (hb : 58 ∈ b) : colonStage host parts = some { parts with service := some a.length } := by
  obtain ⟨hlength, hdrop⟩ := length_behind h
  have hmore : ∃ i, memchr host (a.length + 1) 58 (host.length - a.length - 1) = some (some i) := by
    obtain ⟨front, back, hb', hfront⟩ := List.eq_append_cons_of_mem hb
    exact ⟨_, memchr_found hlength (hdrop.trans hb') hfront⟩
  obtain ⟨i, hi⟩ := hmore
  rw [colonStage, if_pos (List.isEmpty_iff.mpr hnode), memchr_first h ha, Option.bind_eq_bind,
    Option.bind_some]
  show (memchr host (a.length + 1) 58 (host.length - a.length - 1) >>= _) = _
  rw [hi]
  rfl

/-- The stage of the colon has no undefined behaviour. -/
theorem colonStage_total (host : List UInt8) (parts : Parts) :
    ∃ next, colonStage host parts = some next := by
  by_cases hnode : parts.node = []
  · by_cases hcolon : 58 ∈ host
    · obtain ⟨a, b, h, ha⟩ := List.eq_append_cons_of_mem hcolon
      by_cases hb : 58 ∈ b
      · exact ⟨_, colonStage_several hnode h ha hb⟩
      · exact ⟨_, colonStage_one hnode h ha hb⟩
    · exact ⟨_, colonStage_plain hnode hcolon⟩
  · exact ⟨_, colonStage_node hnode⟩

end Stages

/-! ## What `getaddrinfo` is called with -/

section Calls

variable {host node service a b : List UInt8}

theorem lookupArguments_eq {first second : Parts} (hfirst : bracketStage host = some first)
    (hsecond : colonStage host first = some second) : lookupArguments host =
      some (cStr (if second.node.isEmpty then host else second.node),
        second.service.map fun service => cStr (host.drop service)) := by
  rw [lookupArguments, hfirst, Option.bind_eq_bind, Option.bind_some, hsecond]
  rfl

/-- Without a node the host is taken for it. -/
theorem lookupArguments_host {first second : Parts} (hnul : 0 ∉ host)
    (hfirst : bracketStage host = some first) (hsecond : colonStage host first = some second)
    (hempty : second.node = []) : lookupArguments host =
      some (host, second.service.map fun service => cStr (host.drop service)) := by
  rw [lookupArguments_eq hfirst hsecond, hempty, List.isEmpty_nil, if_pos rfl, cStr_eq hnul]

theorem not_mem_of_append (hnul : 0 ∉ host) (h : host = a ++ b) :
    (0 : UInt8) ∉ a ∧ (0 : UInt8) ∉ b := by
  rw [h, List.mem_append, not_or] at hnul
  exact hnul

theorem isEmpty_false (h : a ≠ []) : ¬ a.isEmpty = true := by
  rwa [List.isEmpty_iff]

/-- What is between the brackets is the node. -/
theorem lookupArguments_closed (hnul : 0 ∉ host) (h : host = 91 :: (node ++ 93 :: b))
    (hnode : node ≠ []) (hfree : 93 ∉ node) : lookupArguments host =
      some (node, (if b.headD 0 = 58 then some (node.length + 3) else none).map
        fun service => cStr (host.drop service)) := by
  have hmem : (0 : UInt8) ∉ node := fun hmem => hnul (by
    rw [h]
    exact List.mem_cons_of_mem _ (List.mem_append_left _ hmem))
  have hfirst : bracketStage host =
      some ⟨node, if b.headD 0 = 58 then some (node.length + 3) else none⟩ := by
    rw [h]
    exact bracketStage_closed hfree
  rw [lookupArguments_eq hfirst (colonStage_node hnode), if_neg (isEmpty_false hnode), cStr_eq hmem]

theorem lookupArguments_bracketed (hopen : host.head? = some 91) (hclosed : 93 ∈ host) :
    ∃ call, lookupArguments host = some call := by
  cases host with
  | nil => cases hopen
  | cons c tail =>
      cases hopen
      have hmem : 93 ∈ tail := by
        rcases List.mem_cons.mp hclosed with h | h
        · cases h
        · exact h
      obtain ⟨node, b, h, hfree⟩ := List.eq_append_cons_of_mem hmem
      obtain ⟨second, hsecond⟩ := colonStage_total (91 :: tail)
        ⟨node, if b.headD 0 = 58 then some (node.length + 3) else none⟩
      have hfirst : bracketStage (91 :: tail) =
          some ⟨node, if b.headD 0 = 58 then some (node.length + 3) else none⟩ := by
        rw [h]
        exact bracketStage_closed hfree
      exact ⟨_, lookupArguments_eq hfirst hsecond⟩

theorem lookupArguments_service (hnul : 0 ∉ host) (h : host = 91 :: (node ++ 93 :: 58 :: service))
    (hnode : node ≠ []) (hfree : 93 ∉ node) :
    lookupArguments host = some (node, some service) := by
  have hcut : host = (91 :: node ++ [93, 58]) ++ service := by
    rw [h, List.append_assoc]
    rfl
  have hplace : node.length + 3 = (91 :: node ++ [93, 58]).length := by
    rw [List.length_append, List.length_cons]
    rfl
  have hdrop : host.drop (node.length + 3) = service := by
    rw [hplace, hcut, List.drop_left]
  rw [lookupArguments_closed hnul h hnode hfree, List.headD_cons, if_pos rfl, Option.map_some,
    hdrop, cStr_eq (not_mem_of_append hnul hcut).2]

theorem lookupArguments_bracket (hnul : 0 ∉ host) (h : host = 91 :: (node ++ [93]))
    (hnode : node ≠ []) (hfree : 93 ∉ node) : lookupArguments host = some (node, none) := by
  rw [lookupArguments_closed hnul h hnode hfree]
  rfl

theorem lookupArguments_plain (hnul : 0 ∉ host) (hopen : host.head? ≠ some 91) (h : 58 ∉ host) :
    lookupArguments host = some (host, none) := by
  exact lookupArguments_host hnul (bracketStage_plain hopen) (colonStage_plain rfl h) rfl

theorem lookupArguments_one (hnul : 0 ∉ host) (hopen : host.head? ≠ some 91)
    (h : host = a ++ 58 :: b) (ha : 58 ∉ a) (hb : 58 ∉ b) :
    lookupArguments host = some (if a = [] then host else a, some b) := by
  have hmem := not_mem_of_append hnul h
  have hservice : (0 : UInt8) ∉ b := fun hmem' => hmem.2 (List.mem_cons_of_mem _ hmem')
  rw [lookupArguments_eq (bracketStage_plain hopen) (colonStage_one rfl h ha hb), Option.map_some,
    (length_behind h).2, cStr_eq hservice]
  by_cases hempty : a = []
  · rw [if_pos (List.isEmpty_iff.mpr hempty), if_pos hempty, cStr_eq hnul]
  · rw [if_neg (isEmpty_false hempty), if_neg hempty, cStr_eq hmem.1]

theorem lookupArguments_several (hnul : 0 ∉ host) (hopen : host.head? ≠ some 91)
    (h : host = a ++ 58 :: b) (ha : 58 ∉ a) (hb : 58 ∈ b) :
    lookupArguments host = some (host, some (58 :: b)) := by
  have hdrop : host.drop a.length = 58 :: b := by rw [h, List.drop_left]
  have hsecond : colonStage host ⟨[], none⟩ = some ⟨[], some a.length⟩ :=
    colonStage_several rfl h ha hb
  rw [lookupArguments_host hnul (bracketStage_plain hopen) hsecond rfl, Option.map_some, hdrop,
    cStr_eq (not_mem_of_append hnul h).2]

/-- A closing bracket that is searched for in vain leaves a null pointer to subtract from. -/
theorem lookupArguments_open (hopen : host.head? = some 91) (h : 93 ∉ host) :
    lookupArguments host = none := by
  cases host with
  | nil => cases hopen
  | cons c tail =>
      cases hopen
      rw [lookupArguments, bracketStage_open fun hmem => h (List.mem_cons_of_mem _ hmem)]
      rfl

end Calls

/-! ## The split that is promised -/

/-- The forms of a host, and what `getaddrinfo` is to be called with for them. -/
structure SplitExactly (host : List UInt8) (call : List UInt8 × Option (List UInt8)) : Prop where
  bracket_service : ∀ x p, host = 91 :: (x ++ 93 :: 58 :: p) → x ≠ [] → 93 ∉ x → call = (x, some p)
  bracket : ∀ x, host = 91 :: (x ++ [93]) → x ≠ [] → 93 ∉ x → call = (x, none)
  colon : ∀ h p, host = h ++ 58 :: p → host.head? ≠ some 91 → h ≠ [] → host.count 58 = 1 →
    call = (h, some p)
  plain : host.head? ≠ some 91 → (∀ h p, host = h ++ 58 :: p → h ≠ [] → host.count 58 ≠ 1) →
    call = (host, none)

section Split

variable {host a b : List UInt8} {call : List UInt8 × Option (List UInt8)}

theorem count_colon (h : host = a ++ 58 :: b) : host.count 58 = a.count 58 + b.count 58 + 1 := by
  rw [h, List.count_append, List.count_cons_self]
  omega

/-- All forms but the plain one are split as they are to be. -/
theorem splitExactly_of_plain (hnul : 0 ∉ host) (hcall : lookupArguments host = some call)
    (hplain : host.head? ≠ some 91 →
      (∀ h p, host = h ++ 58 :: p → h ≠ [] → host.count 58 ≠ 1) → call = (host, none)) :
    SplitExactly host call where
  bracket_service x p h hx hfree :=
    Option.some.inj (hcall.symm.trans (lookupArguments_service hnul h hx hfree))
  bracket x h hx hfree :=
    Option.some.inj (hcall.symm.trans (lookupArguments_bracket hnul h hx hfree))
  colon front p h hopen hfront hone := by
    have hcount := count_colon h
    have hzero : front.count 58 = 0 ∧ p.count 58 = 0 := by omega
    have hsplit := lookupArguments_one hnul hopen h (List.count_eq_zero.mp hzero.1)
      (List.count_eq_zero.mp hzero.2)
    rw [if_neg hfront] at hsplit
    exact Option.some.inj (hcall.symm.trans hsplit)
  plain := hplain

/-- With a colon in front of it or behind it the host would have to go without a service. -/
theorem colon_of_splitExactly (hnul : 0 ∉ host) (hcall : lookupArguments host = some call)
    (hexact : SplitExactly host call) (hopen : host.head? ≠ some 91) (h : host = a ++ 58 :: b)
    (ha : 58 ∉ a) : 58 ∉ b ∧ a ≠ [] := by
  have hcount := count_colon h
  rw [List.count_eq_zero.mpr ha] at hcount
  have hone : 58 ∉ b := by
    intro hb
    have hpos := List.count_pos_iff.mpr hb
    have hnone := hexact.plain hopen fun _ _ _ _ => by omega
    rw [hnone, lookupArguments_several hnul hopen h ha hb] at hcall
    cases hcall
  refine ⟨hone, fun hempty => ?_⟩
  have hnone := hexact.plain hopen fun front p hfront hne _ => by
    cases front with
    | nil => exact hne rfl
    | cons c front =>
        have hcount' := count_colon hfront
        rw [h, hempty] at hfront
        cases hfront
        rw [List.count_cons_self, hcount, List.count_eq_zero.mpr hone] at hcount'
        omega
  rw [hnone, lookupArguments_one hnul hopen h ha hone, if_pos hempty] at hcall
  cases hcall

end Split

/-- A host is split exactly, without undefined behaviour, when it starts with a bracket that is
closed somewhere, or when it starts with none and has at most one colon, which is not the first
character. -/
theorem lookup_split_iff (host : List UInt8) (hnul : 0 ∉ host) :
    (∃ call, lookupArguments host = some call ∧ SplitExactly host call) ↔
      (host.head? = some 91 → 93 ∈ host) ∧
      (host.head? ≠ some 91 → host.count 58 ≤ 1 ∧ host.head? ≠ some 58) := by
  constructor
  · rintro ⟨call, hcall, hexact⟩
    constructor
    · intro hopen
      by_contra hclosed
      rw [lookupArguments_open hopen hclosed] at hcall
      cases hcall
    · intro hopen
      by_cases hcolon : 58 ∈ host
      · obtain ⟨a, b, h, ha⟩ := List.eq_append_cons_of_mem hcolon
        obtain ⟨hb, hne⟩ := colon_of_splitExactly hnul hcall hexact hopen h ha
        constructor
        · rw [count_colon h, List.count_eq_zero.mpr ha, List.count_eq_zero.mpr hb]
        · intro hhead
          cases a with
          | nil => exact hne rfl
          | cons c a =>
              rw [h] at hhead
              cases hhead
              exact ha List.mem_cons_self
      · refine ⟨?_, fun hhead => hcolon (List.mem_of_mem_head? hhead)⟩
        rw [List.count_eq_zero.mpr hcolon]
        exact Nat.zero_le 1
  · rintro ⟨hclosed, hplain⟩
    by_cases hopen : host.head? = some 91
    · obtain ⟨call, hcall⟩ := lookupArguments_bracketed hopen (hclosed hopen)
      exact ⟨call, hcall, splitExactly_of_plain hnul hcall fun hnot => absurd hopen hnot⟩
    · obtain ⟨hcount, hhead⟩ := hplain hopen
      by_cases hcolon : 58 ∈ host
      · obtain ⟨a, b, h, ha⟩ := List.eq_append_cons_of_mem hcolon
        have hsum := count_colon h
        have hb : 58 ∉ b := List.count_eq_zero.mp (by omega)
        have hne : a ≠ [] := by
          rintro rfl
          rw [h] at hhead
          exact hhead rfl
        refine ⟨_, lookupArguments_one hnul hopen h ha hb, ?_⟩
        refine splitExactly_of_plain hnul (lookupArguments_one hnul hopen h ha hb) fun _ hall => ?_
        exact absurd (by omega) (hall a b h hne)
      · have hcall := lookupArguments_plain hnul hopen hcolon
        exact ⟨_, hcall, splitExactly_of_plain hnul hcall fun _ _ => rfl⟩

theorem lookup_localhost : 0 ∉ chars "localhost:80" ∧ ∃ call,
    lookupArguments (chars "localhost:80") = some call ∧
      SplitExactly (chars "localhost:80") call := by
  have hnul : 0 ∉ chars "localhost:80" := by decide
  exact ⟨hnul, (lookup_split_iff _ hnul).mpr (by decide)⟩

/-- The address `::1` is looked up with a service that starts at its first colon. -/
theorem lookup_loopback : lookupArguments (chars "::1") = some (chars "::1", some (chars "::1")) ∧
    ¬ ∃ call, lookupArguments (chars "::1") = some call ∧ SplitExactly (chars "::1") call := by
  refine ⟨by decide, ?_⟩
  rintro ⟨call, hcall, hexact⟩
  have hnone : call = (chars "::1", none) := by
    refine hexact.plain (by decide) fun front p _ _ => ?_
    decide
  rw [hnone] at hcall
  revert hcall
  decide

end Lyslg.Address
