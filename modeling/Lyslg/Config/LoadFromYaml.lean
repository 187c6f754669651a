import Lyslg.Config.ConfigVar
import Lyslg.Log.Logger
import Lyslg.Support.Live
import Lyslg.YAML.Node
import Mathlib.Data.List.AList
import Mathlib.Data.List.Infix
/-!
# `Config::LoadFromYaml`

The nodes of a document are listed in pre-order under their dotted names, and each one whose name
is that of a variable is converted and assigned.  A name with a character that names do not have
ends the listing of what is below it.

Errors are logged with the root logger, which dereferences a null pointer when it has no appender;
a load in which this happens has no result.  The listeners of the variables return and leave the
variables alone, but they may change the loggers, as the one of `logs` does.
-/

namespace Lyslg.Config

open Http Log Support YAML

/-! ## The listing -/

def nameChars : List UInt8 := chars "abcdefghijklmnopqrstuvwxyz._0123456789"

/-- `find_first_not_of` finds no other character. -/
def validName (name : List UInt8) : Bool := name.all fun c => nameChars.contains c

/-- The name of the member `key` of what is named `pre`. -/
def memberName (pre key : List UInt8) : List UInt8 :=
  if pre.isEmpty then key else pre ++ 46 :: key

/-- `LYSLG_LOG_ERROR(LYSLG_LOG_ROOT())` -/
def logRootError (loggers : Loggers) : Option Delivery := loggers.log rootName .error

mutual

/-- `ListAllMember` -/
def listAllMember (loggers : Loggers) (pre : List UInt8) :
    Node → Option (List (List UInt8 × Node))
  | .map entries =>
      if validName pre then
        (listMembers loggers pre entries).map fun members => (pre, .map entries) :: members
      else (logRootError loggers).map fun _ => []
  | node =>
      if validName pre then some [(pre, node)] else (logRootError loggers).map fun _ => []

/-- The loop over the members of a map. -/
def listMembers (loggers : Loggers) (pre : List UInt8) :
    List (List UInt8 × Node) → Option (List (List UInt8 × Node))
  | [] => some []
  | (key, node) :: entries => do
      let first ← listAllMember loggers (memberName pre key) node
      let rest ← listMembers loggers pre entries
      return first ++ rest

end

/-! ## The variables -/

section Variables

variable {α : Type} [BEq α]

/-- `setValue` with no other call under way: what is left in `m_val`, and of the loggers when the
listeners were `told` the old value and the new one. -/
def setValue (told : α → α → Loggers → Loggers) (m_val val : α) (loggers : Loggers) : α × Loggers :=
  if val == m_val then (m_val, loggers) else (val, told m_val val loggers)

/-- `ConfigVar::fromString`; where `FromStr` throws there is no value. -/
def fromString (fromStr : List UInt8 → Option α) (told : α → α → Loggers → Loggers) (m_val : α)
    (val : List UInt8) (loggers : Loggers) : Option (α × Loggers) :=
  match fromStr val with
  | some v => some (setValue told m_val v loggers)
  | none => (logRootError loggers).map fun _ => (m_val, loggers)

/-- A call that has told some of the listeners goes on to its end. -/
theorem run_untold {id : Nat} {val : α} {untold : List Nat} {s : ConfigVar α}
    (hcalls : s.calls = [⟨id, val, some untold⟩]) :
    ∃ es t, Run (fun s e t => ConfigVar.step s e = some t) s es t ∧ t.calls = [] ∧ t.val = val := by
  induction untold generalizing s with
  | nil =>
      obtain ⟨m_val, cbs, told, calls, next⟩ := s
      dsimp only at hcalls
      subst hcalls
      refine ⟨[.part 0, .part 0], _, .cons rfl (.cons rfl (.nil _)), ?_, ?_⟩
      · rfl
      · rfl
  | cons cb untold ih =>
      obtain ⟨m_val, cbs, told, calls, next⟩ := s
      dsimp only at hcalls
      subst hcalls
      obtain ⟨es, t, hrun, ht⟩ := ih (s := ⟨m_val, cbs,
        Function.update told cb (some (id, m_val, val)), [⟨id, val, some untold⟩], next⟩) rfl
      exact ⟨.part 0 :: es, t, .cons rfl hrun, ht⟩

/-- With no other call under way, a call leaves the value that it sets. -/
theorem run_setValue {s : ConfigVar α} (hcalls : s.calls = []) (told : α → α → Loggers → Loggers)
    (val : α) (loggers : Loggers) :
    ∃ es t, Run (fun s e t => ConfigVar.step s e = some t) s es t ∧ t.calls = [] ∧
      t.val = (setValue told s.val val loggers).1 := by
  by_cases hsame : (val == s.val) = true
  · have hstep : ConfigVar.step s (.setValue val) = some s := if_pos hsame
    refine ⟨[.setValue val], s, .cons hstep (.nil s), hcalls, ?_⟩
    rw [setValue, if_pos hsame]
  · have hstep : ConfigVar.step s (.setValue val) = some { s with
        calls := s.calls ++ [{ id := s.next, val := val, untold := some s.cbs }]
        next := s.next + 1 } :=
      if_neg hsame
    rw [hcalls] at hstep
    have hone : ({ s with calls := [⟨s.next, val, some s.cbs⟩], next := s.next + 1 } :
        ConfigVar α).calls = [⟨s.next, val, some s.cbs⟩] := rfl
    obtain ⟨es, t, hrun, ht, hval⟩ := run_untold hone
    refine ⟨.setValue val :: es, t, .cons hstep hrun, ht, ?_⟩
    rw [hval, setValue, if_neg hsame]

end Variables

section Document

variable {T : List UInt8 → Type} [∀ name, BEq (T name)]

/-- The text that a node is converted from. -/
def nodeText (emit : Node → List UInt8) (node : Node) : List UInt8 :=
  if node.isScalar then node.scalarText else emit node

/-- The variables, where `T` is the type of the variable of a name, and the loggers. -/
structure Configuration (T : List UInt8 → Type) where
  /-- `s_datas` -/
  datas : AList T
  loggers : Loggers

section

variable (emit : Node → List UInt8) (fromStr : ∀ name, List UInt8 → Option (T name))
  (told : ∀ name, T name → T name → Loggers → Loggers)

/-- `Config::LoadFromYaml` for one node. -/
def loadNode (s : Configuration T) (i : List UInt8 × Node) : Option (Configuration T) :=
  if i.1.isEmpty then some s
  else
    let key := i.1.map toLower
    match s.datas.lookup key with
    | none => some s
    | some var =>
        (fromString (fromStr key) (told key) var (nodeText emit i.2) s.loggers).map
          fun (var, loggers) => { datas := s.datas.insert key var, loggers := loggers }

def loadFromYaml (s : Configuration T) (root : Node) : Option (Configuration T) := do
  let allNodes ← listAllMember s.loggers [] root
  allNodes.foldlM (loadNode emit fromStr told) s

/-- The root logger can log an error before the load and whenever a node was loaded. -/
structure LogsThroughout (s : Configuration T) (root : Node) : Prop where
  start : logRootError s.loggers ≠ none
  stays : ∀ allNodes pre post t, listAllMember s.loggers [] root = some allNodes →
    allNodes = pre ++ post → pre.foldlM (loadNode emit fromStr told) s = some t →
      logRootError t.loggers ≠ none

end

end Document

/-! ## The nodes below a node -/

mutual

/-- The nodes below a node in pre-order, each with the keys on the way to it. -/
def below : Node → List (List (List UInt8) × Node)
  | .map entries => belowEntries entries
  | _ => []

def belowEntries : List (List UInt8 × Node) → List (List (List UInt8) × Node)
  | [] => []
  | (key, node) :: entries =>
      ([key], node) :: ((below node).map fun m => (key :: m.1, m.2)) ++ belowEntries entries

end

def dotted (path : List (List UInt8)) : List UInt8 := [46].intercalate path

/-- No name on the way is invalid. -/
def isReached (path : List (List UInt8)) : Bool := path.inits.all fun p => validName (dotted p)

def KeysNonempty (root : Node) : Prop := ∀ m ∈ below root, ∀ key ∈ m.1, key ≠ []

/-- The texts of the nodes at certain paths. -/
def textsAt (emit : Node → List UInt8) (p : List (List UInt8) → Bool)
    (nodes : List (List (List UInt8) × Node)) : List (List UInt8) :=
  (nodes.filter fun m => p m.1).map fun m => nodeText emit m.2

/-- The texts of the nodes of a name that are reached, in pre-order. -/
def textsOf (emit : Node → List UInt8) (root : Node) (name : List UInt8) : List (List UInt8) :=
  textsAt emit (fun path => isReached path && dotted path == name) (below root)

section Names

variable {pre key name : List UInt8} {path : List (List UInt8)}

theorem contains_dot : nameChars.contains 46 = true := by decide +kernel

theorem validName_memberName (pre key : List UInt8) :
    validName (memberName pre key) = (validName pre && validName key) := by
  rw [memberName]
  by_cases hpre : pre = []
  · rw [hpre]
    rfl
  · have hempty : ¬ pre.isEmpty = true := mt List.isEmpty_iff.mp hpre
    rw [if_neg hempty, validName, List.all_append, List.all_cons, contains_dot, Bool.true_and]
    rfl

theorem dotted_cons (key : List UInt8) (path : List (List UInt8)) :
    dotted (key :: path) = key ++ path.flatMap fun k => 46 :: k := by
  induction path generalizing key with
  | nil => simp [dotted]
  | cons k path ih =>
      rw [dotted, List.intercalate_cons_cons, ← dotted, ih, List.flatMap_cons]
      simp

theorem validName_dotted (path : List (List UInt8)) :
    validName (dotted path) = path.all validName := by
  cases path with
  | nil => rfl
  | cons key path =>
      rw [dotted_cons, validName, List.all_append, ← validName, List.all_cons]
      congr 1
      induction path with
      | nil => rfl
      | cons k path ih =>
          rw [List.flatMap_cons, List.all_append, ih, List.all_cons, List.all_cons, contains_dot,
            Bool.true_and]
          rfl

/-- A name without an invalid character has none on the way. -/
theorem isReached_eq (path : List (List UInt8)) : isReached path = path.all validName := by
  rw [Bool.eq_iff_iff, isReached, List.all_eq_true, List.all_eq_true]
  constructor
  · intro h
    have hpath := h path ((List.mem_inits _ _).mpr (List.prefix_refl path))
    rw [validName_dotted] at hpath
    exact List.all_eq_true.mp hpath
  · intro h p hp
    rw [validName_dotted, List.all_eq_true]
    exact fun key hkey => h key (((List.mem_inits _ _).mp hp).subset hkey)

theorem foldl_memberName (hpre : pre ≠ []) (path : List (List UInt8)) :
    path.foldl memberName pre = pre ++ path.flatMap fun k => 46 :: k := by
  induction path generalizing pre with
  | nil => exact (List.append_nil pre).symm
  | cons k path ih =>
      have hempty : ¬ pre.isEmpty = true := mt List.isEmpty_iff.mp hpre
      have hmember : memberName pre k = pre ++ 46 :: k := if_neg hempty
      rw [List.foldl_cons, hmember, ih (by simp), List.flatMap_cons, List.append_assoc]

/-- The name of a node is its dotted path, if no key is empty. -/
theorem foldl_memberName_nil (hkeys : ∀ key ∈ path, key ≠ []) :
    path.foldl memberName [] = dotted path := by
  cases path with
  | nil => rfl
  | cons key path =>
      have hmember : memberName [] key = key := rfl
      rw [List.foldl_cons, hmember, foldl_memberName (hkeys key List.mem_cons_self), dotted_cons]

end Names

/-! ## What is listed -/

section Listing

variable {loggers : Loggers}

/-- Nothing is listed under an invalid name. -/
theorem listAllMember_invalid (hlogs : logRootError loggers ≠ none) {pre : List UInt8}
    (hpre : validName pre = false) (node : Node) :
    listAllMember loggers pre node = some [] := by
  have hnot : ¬ validName pre = true := Bool.eq_false_iff.mp hpre
  have herror : (logRootError loggers).map
      (fun _ => ([] : List (List UInt8 × Node))) = some [] := by
    obtain ⟨delivery, hdelivery⟩ := Option.ne_none_iff_exists'.mp hlogs
    rw [hdelivery]
    rfl
  cases node with
  | null => exact (if_neg hnot).trans herror
  | scalar value => exact (if_neg hnot).trans herror
  | sequence items => exact (if_neg hnot).trans herror
  | map entries =>
      rw [listAllMember, if_neg hnot]
      exact herror

mutual

/-- By induction over the tree: the node itself, and the nodes below it that are reached. -/
theorem listAllMember_eq (hlogs : logRootError loggers ≠ none) {pre : List UInt8}
    (hpre : validName pre = true) (node : Node) :
    listAllMember loggers pre node = some ((pre, node) ::
      ((below node).filter fun m => m.1.all validName).map
        fun m => (m.1.foldl memberName pre, m.2)) := by
  cases node with
  | null => exact if_pos hpre
  | scalar value => exact if_pos hpre
  | sequence items => exact if_pos hpre
  | map entries =>
      rw [listAllMember, if_pos hpre, listMembers_eq hlogs hpre entries]
      rfl

theorem listMembers_eq (hlogs : logRootError loggers ≠ none) {pre : List UInt8}
    (hpre : validName pre = true) (entries : List (List UInt8 × Node)) :
    listMembers loggers pre entries =
      some (((belowEntries entries).filter fun m => m.1.all validName).map
        fun m => (m.1.foldl memberName pre, m.2)) := by
  cases entries with
  | nil => rfl
  | cons entry entries =>
      obtain ⟨key, node⟩ := entry
      rw [listMembers, belowEntries, listMembers_eq hlogs hpre entries, List.filter_append,
        List.map_append]
      suffices hfirst : listAllMember loggers (memberName pre key) node = some
          (((([key], node) :: (below node).map fun m => (key :: m.1, m.2)).filter
            fun m => m.1.all validName).map fun m => (m.1.foldl memberName pre, m.2)) by
        rw [hfirst]
        rfl
      have hname := validName_memberName pre key
      rw [hpre, Bool.true_and] at hname
      cases hkey : validName key with
      | true =>
          have hall : ((fun m : List (List UInt8) × Node => m.1.all validName) ∘
              fun m : List (List UInt8) × Node => (key :: m.1, m.2)) =
                fun m => m.1.all validName := by
            funext m
            rw [Function.comp_apply, List.all_cons, hkey, Bool.true_and]
          have hfilter : (([key], node) :: (below node).map fun m => (key :: m.1, m.2)).filter
              (fun m => m.1.all validName) =
                ([key], node) :: ((below node).map fun m => (key :: m.1, m.2)).filter
                  fun m => m.1.all validName :=
            List.filter_cons_of_pos (by rw [List.all_cons, hkey]; rfl)
          rw [listAllMember_eq hlogs (hname.trans hkey) node, hfilter, List.filter_map, hall,
            List.map_cons, List.map_map]
          rfl
      | false =>
          rw [listAllMember_invalid hlogs (hname.trans hkey), Option.some_inj, eq_comm,
            List.map_eq_nil_iff, List.filter_eq_nil_iff]
          intro m hm
          rcases List.mem_cons.mp hm with rfl | hbelow
          · simp [hkey]
          · obtain ⟨m', _, rfl⟩ := List.mem_map.mp hbelow
            simp [hkey]

end

/-- Every node that is reached, under its dotted path, behind the root. -/
theorem listAllMember_root (hlogs : logRootError loggers ≠ none) {root : Node}
    (hkeys : KeysNonempty root) :
    listAllMember loggers [] root = some (([], root) ::
      ((below root).filter fun m => isReached m.1).map fun m => (dotted m.1, m.2)) := by
  rw [listAllMember_eq hlogs rfl]
  congr 2
  have hreached : (fun m : List (List UInt8) × Node => isReached m.1) =
      fun m => m.1.all validName :=
    funext fun m => isReached_eq m.1
  rw [hreached]
  apply List.map_congr_left
  intro m hm
  rw [foldl_memberName_nil (hkeys m (List.mem_of_mem_filter hm))]

end Listing

/-! ## What is loaded -/

section Load

variable {T : List UInt8 → Type} {emit : Node → List UInt8}
  {fromStr : ∀ name, List UInt8 → Option (T name)}
  {told : ∀ name, T name → T name → Loggers → Loggers} {s : Configuration T} {root : Node}
  {name : List UInt8}

theorem fromString_eq {α : Type} [BEq α] [LawfulBEq α] (fromStr : List UInt8 → Option α)
    (told : α → α → Loggers → Loggers) (m_val : α) (val : List UInt8) {loggers : Loggers}
    (hlogs : logRootError loggers ≠ none) :
    ∃ loggers', fromString fromStr told m_val val loggers =
      some ((fromStr val).getD m_val, loggers') := by
  rw [fromString]
  cases fromStr val with
  | none =>
      obtain ⟨delivery, hdelivery⟩ := Option.ne_none_iff_exists'.mp hlogs
      rw [hdelivery]
      exact ⟨loggers, rfl⟩
  | some v =>
      by_cases hv : v = m_val
      · refine ⟨loggers, ?_⟩
        change some (setValue told m_val v loggers) = _
        rw [setValue, if_pos (beq_iff_eq.mpr hv), hv]
        rfl
      · refine ⟨told m_val v loggers, ?_⟩
        change some (setValue told m_val v loggers) = _
        rw [setValue, if_neg (mt beq_iff_eq.mp hv)]
        rfl

theorem map_toLower (h : validName name = true) : name.map toLower = name := by
  have hall : ∀ c ∈ nameChars, toLower c = c := by decide +kernel
  conv_rhs => rw [← List.map_id name]
  apply List.map_congr_left
  intro c hc
  exact hall c (List.contains_iff_mem.mp (List.all_eq_true.mp h c hc))

/-- What one node sets. -/
theorem lookup_loadNode [∀ name, BEq (T name)] [∀ name, LawfulBEq (T name)]
    {i : List UInt8 × Node} (hvalid : validName i.1 = true) (hnil : i.1 ≠ [])
    (hlogs : logRootError s.loggers ≠ none) :
    ∃ t, loadNode emit fromStr told s i = some t ∧
      t.datas.lookup name = (s.datas.lookup name).map fun old =>
        (if i.1 = name then fromStr name (nodeText emit i.2) else none).getD old := by
  have hempty : ¬ i.1.isEmpty = true := mt List.isEmpty_iff.mp hnil
  rw [loadNode, if_neg hempty, map_toLower hvalid]
  dsimp only
  cases hvar : s.datas.lookup i.1 with
  | none =>
      refine ⟨s, rfl, ?_⟩
      by_cases hname : i.1 = name
      · rw [← hname, hvar]
        rfl
      · rw [if_neg hname]
        exact (Option.map_id' (x := s.datas.lookup name)).symm
  | some var =>
      obtain ⟨loggers, hset⟩ := fromString_eq (fromStr i.1) (told i.1) var (nodeText emit i.2) hlogs
      dsimp only
      rw [hset]
      refine ⟨_, rfl, ?_⟩
      by_cases hname : i.1 = name
      · obtain ⟨key, node⟩ := i
        dsimp only at hname
        subst hname
        dsimp only at hvar ⊢
        rw [if_pos rfl, AList.lookup_insert, hvar]
        rfl
      · rw [if_neg hname]
        refine (AList.lookup_insert_ne (Ne.symm hname)).trans ?_
        exact (Option.map_id' (x := s.datas.lookup name)).symm

theorem filterMap_listed (emit : Node → List UInt8) (fromStr : ∀ name, List UInt8 → Option (T name))
    (root : Node) (name : List UInt8) :
    (((below root).filter fun m => isReached m.1).map fun m => (dotted m.1, m.2)).filterMap
        (fun i => if i.1 = name then fromStr name (nodeText emit i.2) else none) =
      (textsOf emit root name).filterMap (fromStr name) := by
  rw [textsOf, textsAt, List.filterMap_map, List.filterMap_map, List.filterMap_filter,
    List.filterMap_filter]
  refine congrArg (fun f => (below root).filterMap f) (funext fun m => ?_)
  cases isReached m.1 with
  | false => rfl
  | true =>
      by_cases hname : dotted m.1 = name
      · rw [if_pos rfl, Bool.true_and, if_pos (beq_iff_eq.mpr hname)]
        exact if_pos hname
      · rw [if_pos rfl, Bool.true_and, if_neg (mt beq_iff_eq.mp hname)]
        exact if_neg hname

theorem dotted_ne_nil {path : List (List UInt8)} (hpath : path ≠ [])
    (hkeys : ∀ key ∈ path, key ≠ []) : dotted path ≠ [] := by
  cases path with
  | nil => exact absurd rfl hpath
  | cons key path =>
      rw [dotted_cons]
      intro h
      exact hkeys key List.mem_cons_self (List.append_eq_nil_iff.mp h).1

mutual

theorem path_ne_nil (root : Node) : ∀ m ∈ below root, m.1 ≠ [] := by
  cases root with
  | map entries => exact path_ne_nil_entries entries
  | null => exact fun m hm => absurd hm List.not_mem_nil
  | scalar value => exact fun m hm => absurd hm List.not_mem_nil
  | sequence items => exact fun m hm => absurd hm List.not_mem_nil

theorem path_ne_nil_entries (entries : List (List UInt8 × Node)) :
    ∀ m ∈ belowEntries entries, m.1 ≠ [] := by
  cases entries with
  | nil => exact fun m hm => absurd hm List.not_mem_nil
  | cons entry entries =>
      intro m hm
      rcases List.mem_append.mp hm with hfirst | hrest
      · rcases List.mem_cons.mp hfirst with rfl | hbelow
        · exact List.cons_ne_nil _ _
        · obtain ⟨m', _, rfl⟩ := List.mem_map.mp hbelow
          exact List.cons_ne_nil _ _
      · exact path_ne_nil_entries entries m hrest

end

/-- The variable has what the last text of its name that can be converted stands for. -/
theorem lookup_loadFromYaml [∀ name, BEq (T name)] [∀ name, LawfulBEq (T name)]
    (hkeys : KeysNonempty root) (hlogs : LogsThroughout emit fromStr told s root)
    (name : List UInt8) :
    ∃ t, loadFromYaml emit fromStr told s root = some t ∧
      t.datas.lookup name = (s.datas.lookup name).map fun old =>
        (((textsOf emit root name).filterMap (fromStr name)).getLast?).getD old := by
  have hlisted := listAllMember_root hlogs.start hkeys
  have hcons : ∀ nodes, (([], root) :: nodes).foldlM (loadNode emit fromStr told) s =
      nodes.foldlM (loadNode emit fromStr told) s := fun _ => rfl
  rw [loadFromYaml, hlisted, Option.bind_eq_bind, Option.bind_some, hcons, ← filterMap_listed]
  apply foldlM_updates (fun s : Configuration T => s.datas.lookup name)
    (I := fun t => logRootError t.loggers ≠ none)
  · intro i hi s hs
    obtain ⟨m, hm, rfl⟩ := List.mem_map.mp hi
    obtain ⟨hbelow, hreached⟩ := List.mem_filter.mp hm
    rw [isReached_eq, ← validName_dotted] at hreached
    exact lookup_loadNode hreached (dotted_ne_nil (path_ne_nil root m hbelow) (hkeys m hbelow)) hs
  · intro pre post t hsplit hpre
    exact hlogs.stays _ (([], root) :: pre) post t hlisted (congrArg (_ :: ·) hsplit)
      ((hcons pre).trans hpre)

/-- Listeners that leave the root logger able to log. -/
theorem logsThroughout_of_told (hstart : logRootError s.loggers ≠ none)
    (htold : ∀ name old new loggers, logRootError loggers ≠ none →
      logRootError (told name old new loggers) ≠ none) [∀ name, BEq (T name)] :
    LogsThroughout emit fromStr told s root := by
  refine ⟨hstart, ?_⟩
  intro allNodes pre post t hlisted hsplit hpre
  clear hlisted hsplit
  induction pre generalizing s with
  | nil =>
      obtain rfl := Option.some.inj hpre
      exact hstart
  | cons i pre ih =>
      rw [List.foldlM_cons] at hpre
      obtain ⟨u, hfirst, hrest⟩ := Option.bind_eq_some_iff.mp hpre
      refine ih ?_ hrest
      unfold loadNode at hfirst
      split at hfirst
      · exact Option.some.inj hfirst ▸ hstart
      · dsimp only at hfirst
        split at hfirst
        · exact Option.some.inj hfirst ▸ hstart
        · obtain ⟨⟨var, loggers⟩, hset, rfl⟩ := Option.map_eq_some_iff.mp hfirst
          unfold fromString at hset
          split at hset
          · unfold setValue at hset
            split at hset
            · obtain ⟨-, rfl⟩ := Prod.mk.inj (Option.some.inj hset)
              exact hstart
            · obtain ⟨-, rfl⟩ := Prod.mk.inj (Option.some.inj hset)
              exact htold _ _ _ _ hstart
          · obtain ⟨_, -, hkept⟩ := Option.map_eq_some_iff.mp hset
            obtain ⟨-, rfl⟩ := Prod.mk.inj hkept
            exact hstart

end Load

/-! ## Under an invalid name -/

/-- Two trees that are the same but for what is at a path. -/
inductive DifferAt : List (List UInt8) → Node → Node → Prop where
  | here (sub sub' : Node) : DifferAt [] sub sub'
  | inside {path : List (List UInt8)} {sub sub' : Node} (key : List UInt8)
      (before after : List (List UInt8 × Node)) :
      DifferAt path sub sub' →
        DifferAt (key :: path) (.map (before ++ (key, sub) :: after))
          (.map (before ++ (key, sub') :: after))

theorem belowEntries_append (before after : List (List UInt8 × Node)) :
    belowEntries (before ++ after) = belowEntries before ++ belowEntries after := by
  induction before with
  | nil => rfl
  | cons entry before ih =>
      obtain ⟨key, node⟩ := entry
      rw [List.cons_append, belowEntries, ih, belowEntries, List.append_assoc]

section Texts

variable {emit : Node → List UInt8} {p : List (List UInt8) → Bool} {key : List UInt8}

theorem textsAt_append (nodes after : List (List (List UInt8) × Node)) :
    textsAt emit p (nodes ++ after) = textsAt emit p nodes ++ textsAt emit p after := by
  rw [textsAt, List.filter_append, List.map_append]
  rfl

theorem textsAt_cons {m : List (List UInt8) × Node} (hm : p m.1 = false)
    (nodes : List (List (List UInt8) × Node)) :
    textsAt emit p (m :: nodes) = textsAt emit p nodes := by
  have hfilter : (m :: nodes).filter (fun m => p m.1) = nodes.filter fun m => p m.1 :=
    List.filter_cons_of_neg (Bool.eq_false_iff.mp hm)
  rw [textsAt, hfilter]
  rfl

theorem textsAt_map (nodes : List (List (List UInt8) × Node)) :
    textsAt emit p (nodes.map fun m => (key :: m.1, m.2)) =
      textsAt emit (fun q => p (key :: q)) nodes := by
  rw [textsAt, List.filter_map, List.map_map]
  rfl

theorem textsAt_member (hkey : p [key] = false) (before after : List (List UInt8 × Node))
    (sub : Node) :
    textsAt emit p (below (.map (before ++ (key, sub) :: after))) =
      textsAt emit p (belowEntries before) ++
        (textsAt emit (fun q => p (key :: q)) (below sub) ++
          textsAt emit p (belowEntries after)) := by
  calc
    _ = textsAt emit p (belowEntries before ++ belowEntries ((key, sub) :: after)) := by
      rw [below, belowEntries_append]
    _ = textsAt emit p (belowEntries before) ++
        textsAt emit p (((below sub).map fun m => (key :: m.1, m.2)) ++ belowEntries after) := by
      rw [textsAt_append, belowEntries, List.cons_append, textsAt_cons hkey]
    _ = _ := by
      rw [textsAt_append, textsAt_map]

end Texts

/-- By induction on the way to the difference: the texts of nodes that are neither on this way nor
behind it are the same. -/
theorem textsAt_of_differAt {path : List (List UInt8)} {root root' : Node}
    (h : DifferAt path root root') (emit : Node → List UInt8) {p : List (List UInt8) → Bool}
    (hbehind : ∀ q, path <+: q → p q = false) (hway : ∀ q, q <+: path → q ≠ [] → p q = false) :
    textsAt emit p (below root) = textsAt emit p (below root') := by
  induction h generalizing p with
  | here sub sub' =>
      have hnone : ∀ sub : Node, textsAt emit p (below sub) = [] := by
        intro sub
        rw [textsAt, List.map_eq_nil_iff, List.filter_eq_nil_iff]
        intro m _
        rw [hbehind m.1 List.nil_prefix]
        exact Bool.false_ne_true
      rw [hnone, hnone]
  | inside key before after _ ih =>
      have hkey : p [key] = false :=
        hway [key] ((List.prefix_cons_inj key).mpr List.nil_prefix) (List.cons_ne_nil _ _)
      rw [textsAt_member hkey, textsAt_member hkey, ih]
      · intro q hq
        exact hbehind (key :: q) ((List.prefix_cons_inj key).mpr hq)
      · intro q hq _
        exact hway (key :: q) ((List.prefix_cons_inj key).mpr hq) (List.cons_ne_nil _ _)

/-- Under an invalid name no text of another name is found than those of the nodes around it. -/
theorem textsOf_of_differAt {path : List (List UInt8)} {root root' : Node}
    (h : DifferAt path root root') (hinvalid : validName (dotted path) = false)
    (emit : Node → List UInt8) {name : List UInt8}
    (haround : ∀ q, q <+: path → q ≠ [] → q ≠ path → dotted q ≠ name) :
    textsOf emit root name = textsOf emit root' name := by
  have hbehind : ∀ q, path <+: q → isReached q = false := by
    intro q hq
    rw [Bool.eq_false_iff, isReached, Ne, List.all_eq_true]
    intro hall
    have hpath := hall path ((List.mem_inits _ _).mpr hq)
    rw [hinvalid] at hpath
    cases hpath
  apply textsAt_of_differAt h emit
  · intro q hq
    rw [hbehind q hq, Bool.false_and]
  · intro q hq hnil
    by_cases hpath : q = path
    · rw [hbehind q (hpath ▸ List.prefix_refl q), Bool.false_and]
    · rw [beq_eq_false_iff_ne.mpr (haround q hq hnil hpath), Bool.and_false]

/-- As long as the root logger can log, a variable whose name is the dotted path of nodes that are
reached has what the last of their texts that can be converted stands for, and every other one has
what it had.  What is under an invalid name counts only as part of the text of the nodes around it,
and the conversions of the other variables do not count. -/
theorem loadFromYaml_effect {T : List UInt8 → Type} [∀ name, BEq (T name)]
    [∀ name, LawfulBEq (T name)] (emit : Node → List UInt8)
    (fromStr : ∀ name, List UInt8 → Option (T name))
    (told : ∀ name, T name → T name → Loggers → Loggers) (s : Configuration T) {root : Node}
    (hkeys : KeysNonempty root) (hlogs : LogsThroughout emit fromStr told s root)
    (name : List UInt8) :
    ∃ t, loadFromYaml emit fromStr told s root = some t ∧
      t.datas.lookup name = (s.datas.lookup name).map (fun old =>
        (((textsOf emit root name).filterMap (fromStr name)).getLast?).getD old) ∧
      (∀ path root', DifferAt path root root' → KeysNonempty root' →
        LogsThroughout emit fromStr told s root' → validName (dotted path) = false →
        (∀ q, q <+: path → q ≠ [] → q ≠ path → dotted q ≠ name) →
        ∃ t', loadFromYaml emit fromStr told s root' = some t' ∧
          t'.datas.lookup name = t.datas.lookup name) ∧
      ∀ fromStr' : ∀ name, List UInt8 → Option (T name), fromStr' name = fromStr name →
        LogsThroughout emit fromStr' told s root →
        ∃ t', loadFromYaml emit fromStr' told s root = some t' ∧
          t'.datas.lookup name = t.datas.lookup name := by
  obtain ⟨t, ht, hlookup⟩ := lookup_loadFromYaml hkeys hlogs name
  refine ⟨t, ht, hlookup, ?_, ?_⟩
  · intro path root' hdiffer hkeys' hlogs' hinvalid haround
    obtain ⟨t', ht', hlookup'⟩ := lookup_loadFromYaml hkeys' hlogs' name
    refine ⟨t', ht', ?_⟩
    rw [hlookup', hlookup, textsOf_of_differAt hdiffer hinvalid emit haround]
  · intro fromStr' hsame hlogs'
    obtain ⟨t', ht', hlookup'⟩ := lookup_loadFromYaml hkeys hlogs' name
    refine ⟨t', ht', ?_⟩
    rw [hlookup', hlookup, hsame]

/-- A variable of strings, which are converted as they are, without a listener. -/
def oneVariable (name : List UInt8) : Configuration fun _ : List UInt8 => List UInt8 :=
  { datas := AList.singleton name [], loggers := .initial }

def keepText (_name text : List UInt8) : Option (List UInt8) := some text

def tellNobody (_name _old _new : List UInt8) (loggers : Loggers) : Loggers := loggers

/-- The text of a map with one scalar. -/
def lineText : Node → List UInt8
  | .map [(key, .scalar value)] => key ++ chars ": " ++ value
  | _ => []

/-- The name `a.b` twice. -/
def twiceTree : Node :=
  .map [(chars "a", .map [(chars "b", .scalar (chars "1"))]), (chars "a.b", .scalar (chars "2"))]

theorem loadFromYaml_effect_twice :
    ∃ t, loadFromYaml lineText keepText tellNobody (oneVariable (chars "a.b")) twiceTree = some t ∧
      t.datas.lookup (chars "a.b") = some (chars "2") := by
  have hkeys : KeysNonempty twiceTree := by
    unfold KeysNonempty
    decide
  have hlogs : LogsThroughout lineText keepText tellNobody (oneVariable (chars "a.b")) twiceTree :=
    logsThroughout_of_told (by decide +kernel) fun _ _ _ _ hlogs => hlogs
  obtain ⟨t, ht, hlookup, -⟩ := loadFromYaml_effect lineText keepText tellNobody
    (oneVariable (chars "a.b")) hkeys hlogs (chars "a.b")
  refine ⟨t, ht, hlookup.trans ?_⟩
  decide +kernel

def boundTree (value : List UInt8) : Node :=
  .map [(chars "a", .map [(chars "B", .scalar value)])]

/-- Three variables, the conversion of the second fails. -/
def threeTree : Node :=
  .map [(chars "logs", .scalar (chars "0")), (chars "port", .scalar (chars "x")),
    (chars "timeout", .scalar (chars "7"))]

def threeVariables : Configuration fun _ : List UInt8 => List UInt8 where
  datas :=
    ((AList.singleton (chars "logs") []).insert (chars "port") []).insert (chars "timeout") []
  loggers := .initial

def refusePort (name text : List UInt8) : Option (List UInt8) :=
  if name = chars "port" then none else some text

/-- The listener of `logs` leaves the root logger no appender. -/
def tellLogs (name _old _new : List UInt8) (loggers : Loggers) : Loggers :=
  if name = chars "logs" then loggers.update rootName Logger.clearAppenders else loggers

/-- A variable that is bound to a map with an invalid name in it; and a conversion that fails after
the root logger has lost its appenders. -/
theorem invalidName_shows :
    DifferAt [chars "a", chars "B"] (boundTree (chars "1")) (boundTree (chars "2")) ∧
      validName (dotted [chars "a", chars "B"]) = false ∧
      ((loadFromYaml lineText keepText tellNobody (oneVariable (chars "a"))
        (boundTree (chars "1"))).bind fun t => t.datas.lookup (chars "a")) =
          some (chars "B: 1") ∧
      ((loadFromYaml lineText keepText tellNobody (oneVariable (chars "a"))
        (boundTree (chars "2"))).bind fun t => t.datas.lookup (chars "a")) =
          some (chars "B: 2") ∧
      (loadFromYaml lineText refusePort tellLogs threeVariables threeTree).isNone = true ∧
      ((loadFromYaml lineText refusePort tellNobody threeVariables threeTree).bind fun t =>
        t.datas.lookup (chars "timeout")) = some (chars "7") := by
  refine ⟨?_, ?_, ?_, ?_, ?_, ?_⟩
  · exact .inside (chars "a") [] [] (.inside (chars "B") [] [] (.here _ _))
  · decide +kernel
  · decide +kernel
  · decide +kernel
  · decide +kernel
  · decide +kernel

end Lyslg.Config
