import Lyslg.Support.Live
import Mathlib.Data.List.AList
import Mathlib.Data.List.Induction
/-!
# The registry of modules

`ModuleManager` keeps its modules twice: under their ids, and under their types and ids.  The calls
of `onUnload` are noted in their order.
-/

namespace Lyslg

open Support

/-- A module object, with what `getId` and `getType` return. -/
structure Module where
  object : Nat
  id : List UInt8
  type : UInt32
  deriving DecidableEq, Repr

/-- A map from ids to modules. -/
abbrev ModuleMap := AList fun _ : List UInt8 => Module

structure ModuleManager where
  modules : ModuleMap
  type2Modules : AList fun _ : UInt32 => ModuleMap
  /-- the modules `onUnload` was called of -/
  unloaded : List Module

namespace ModuleManager

/-- `ModuleManager::ModuleManager`. -/
def new : ModuleManager where
  modules := ∅
  type2Modules := ∅
  unloaded := []

/-- `ModuleManager::get`. -/
def get (mgr : ModuleManager) (name : List UInt8) : Option Module := mgr.modules.lookup name

/-- `m_type2Modules[type]`, which an absent type makes an empty map. -/
def ofType (types : AList fun _ : UInt32 => ModuleMap) (type : UInt32) : ModuleMap :=
  (types.lookup type).getD ∅

/-- What `del` does to `m_type2Modules`. -/
def eraseOfType (types : AList fun _ : UInt32 => ModuleMap) (type : UInt32) (id : List UInt8) :
    AList fun _ : UInt32 => ModuleMap :=
  let types := types.insert type ((ofType types type).erase id)
  if (ofType types type).entries.isEmpty then types.erase type else types

/-- `ModuleManager::del`. -/
def del (mgr : ModuleManager) (name : List UInt8) : ModuleManager :=
  match mgr.modules.lookup name with
  | none => mgr
  | some m =>
      { modules := mgr.modules.erase name
        type2Modules := eraseOfType mgr.type2Modules m.type m.id
        unloaded := mgr.unloaded ++ [m] }

/-- `ModuleManager::add`. -/
def add (mgr : ModuleManager) (m : Module) : ModuleManager :=
  let mgr := mgr.del m.id
  { mgr with
    modules := mgr.modules.insert m.id m
    type2Modules :=
      mgr.type2Modules.insert m.type ((ofType mgr.type2Modules m.type).insert m.id m) }

/-- `ModuleManager::delAll`, over a copy of `m_modules`. -/
def delAll (mgr : ModuleManager) : ModuleManager :=
  mgr.modules.entries.foldl (fun mgr i => mgr.del i.1) mgr

/-- `ModuleManager::listByType`. -/
def listByType (mgr : ModuleManager) (type : UInt32) : List Module :=
  match mgr.type2Modules.lookup type with
  | none => []
  | some modules => modules.entries.map Sigma.snd

end ModuleManager

/-- A call that changes the registry. -/
inductive ModuleOp where
  | add (m : Module)
  | del (name : List UInt8)
  | delAll
  deriving DecidableEq

/-- The call takes a module with the id out of the registry. -/
def ModuleOp.Removes (id : List UInt8) : ModuleOp → Prop
  | .add m => m.id = id
  | .del name => name = id
  | .delAll => True

/-- At `i` the module was added, and not removed or replaced since. -/
def LiveModule (history : List ModuleOp) (m : Module) (i : Nat) : Prop :=
  Live history (.add m) (ModuleOp.Removes m.id) i

namespace ModuleManager

/-- Make a call. -/
def exec (mgr : ModuleManager) : ModuleOp → ModuleManager
  | .add m => mgr.add m
  | .del name => mgr.del name
  | .delAll => mgr.delAll

/-- The registry after a history of calls. -/
def after (history : List ModuleOp) : ModuleManager := history.foldl exec new

theorem after_concat (history : List ModuleOp) (op : ModuleOp) :
    after (history ++ [op]) = (after history).exec op := by
  rw [after, List.foldl_append]
  rfl

/-! ## The map by types -/

section Types

variable {types : AList fun _ : UInt32 => ModuleMap} {type type' : UInt32} {id id' : List UInt8}
  {m : Module}

theorem ofType_insert (modules : ModuleMap) :
    ofType (types.insert type modules) type' =
      if type' = type then modules else ofType types type' := by
  by_cases h : type' = type
  · rw [if_pos h, h, ofType, AList.lookup_insert, Option.getD_some]
  · rw [if_neg h, ofType, AList.lookup_insert_ne h, ofType]

theorem ofType_erase : ofType (types.erase type) type' =
    if type' = type then ∅ else ofType types type' := by
  by_cases h : type' = type
  · rw [if_pos h, h, ofType, AList.lookup_erase, Option.getD_none]
  · rw [if_neg h, ofType, AList.lookup_erase_ne h, ofType]

/-- Whether the empty map is erased or not, one entry is gone. -/
theorem ofType_eraseOfType : ofType (eraseOfType types type id) type' =
    if type' = type then (ofType types type).erase id else ofType types type' := by
  rw [eraseOfType, ofType_insert, if_pos rfl]
  by_cases hempty : ((ofType types type).erase id).entries.isEmpty = true
  · have hnil : (ofType types type).erase id = ∅ := AList.ext (List.isEmpty_iff.mp hempty)
    rw [if_pos hempty, ofType_erase, ofType_insert, hnil]
    by_cases h : type' = type
    · rw [if_pos h, if_pos h]
    · rw [if_neg h, if_neg h]
  · rw [if_neg hempty, ofType_insert]

theorem lookup_ofType_erase : (ofType (eraseOfType types type id) type').lookup id' = some m ↔
    (ofType types type').lookup id' = some m ∧ ¬ (type' = type ∧ id' = id) := by
  rw [ofType_eraseOfType]
  by_cases htype : type' = type
  · rw [if_pos htype, htype]
    by_cases hid : id' = id
    · rw [hid, AList.lookup_erase]
      simp
    · rw [AList.lookup_erase_ne hid]
      simp [hid]
  · rw [if_neg htype]
    simp [htype]

/-- No type has an empty map. -/
def NoneEmpty (types : AList fun _ : UInt32 => ModuleMap) : Prop :=
  ∀ type modules, types.lookup type = some modules → modules ≠ ∅

theorem NoneEmpty.insert (h : NoneEmpty types) {modules : ModuleMap} (hne : modules ≠ ∅) :
    NoneEmpty (types.insert type modules) := by
  intro type' modules' hlookup
  by_cases htype : type' = type
  · rw [htype, AList.lookup_insert] at hlookup
    rw [← Option.some.inj hlookup]
    exact hne
  · rw [AList.lookup_insert_ne htype] at hlookup
    exact h type' modules' hlookup

theorem NoneEmpty.eraseOfType (h : NoneEmpty types) :
    NoneEmpty (eraseOfType types type id) := by
  rw [ModuleManager.eraseOfType, ofType_insert, if_pos rfl]
  by_cases hempty : ((ofType types type).erase id).entries.isEmpty = true
  · rw [if_pos hempty]
    intro type' modules hlookup
    by_cases htype : type' = type
    · rw [htype, AList.lookup_erase] at hlookup
      cases hlookup
    · rw [AList.lookup_erase_ne htype, AList.lookup_insert_ne htype] at hlookup
      exact h type' modules hlookup
  · rw [if_neg hempty]
    apply h.insert
    intro hnil
    rw [hnil] at hempty
    exact hempty rfl

end Types

/-! ## What a call does to the modules -/

section Modules

variable {mgr : ModuleManager} {op : ModuleOp} {id name : List UInt8} {m : Module}
  {entries : List ((_ : List UInt8) × Module)}

theorem lookup_del : (mgr.del name).modules.lookup id = some m ↔
    mgr.modules.lookup id = some m ∧ name ≠ id := by
  rw [del]
  cases hname : mgr.modules.lookup name with
  | none =>
      refine (and_iff_left_of_imp fun hid => ?_).symm
      rintro rfl
      rw [hname] at hid
      cases hid
  | some old =>
      by_cases hid : id = name
      · rw [hid, AList.lookup_erase]
        simp
      · rw [AList.lookup_erase_ne hid]
        exact (and_iff_left (Ne.symm hid)).symm

theorem unloaded_del :
    (mgr.del name).unloaded = mgr.unloaded ++ (mgr.modules.lookup name).toList := by
  rw [del]
  cases mgr.modules.lookup name with
  | none => exact (List.append_nil _).symm
  | some old => rfl

/-- The loop of `delAll` over entries of the registry. -/
theorem foldl_del (hnodup : (entries.map Sigma.fst).Nodup)
    (hentries : ∀ e ∈ entries, mgr.modules.lookup e.1 = some e.2) :
    (∀ id m, (entries.foldl (fun mgr e => mgr.del e.1) mgr).modules.lookup id = some m ↔
      mgr.modules.lookup id = some m ∧ id ∉ entries.map Sigma.fst) ∧
    (entries.foldl (fun mgr e => mgr.del e.1) mgr).unloaded =
      mgr.unloaded ++ entries.map Sigma.snd := by
  induction entries generalizing mgr with
  | nil => simp
  | cons e entries ih =>
      rw [List.map_cons, List.nodup_cons] at hnodup
      have hrest : ∀ e' ∈ entries, (mgr.del e.1).modules.lookup e'.1 = some e'.2 := by
        intro e' he'
        refine lookup_del.mpr ⟨hentries e' (List.mem_cons_of_mem e he'), ?_⟩
        intro heq
        exact hnodup.1 (heq ▸ List.mem_map_of_mem he')
      obtain ⟨hlookup, hunloaded⟩ := ih hnodup.2 hrest
      rw [List.foldl_cons]
      constructor
      · intro id m
        rw [hlookup, lookup_del, List.map_cons, List.mem_cons, not_or, and_assoc]
        exact and_congr_right fun _ => and_congr_left fun _ => ne_comm
      · rw [hunloaded, unloaded_del, hentries e List.mem_cons_self, List.append_assoc]
        rfl

theorem lookup_entry (mgr : ModuleManager) :
    ∀ e ∈ mgr.modules.entries, mgr.modules.lookup e.1 = some e.2 := fun _ he =>
  AList.mem_lookup_iff.mpr he

theorem lookup_delAll : mgr.delAll.modules.lookup id = none := by
  obtain ⟨hlookup, _⟩ := foldl_del mgr.modules.nodupKeys (lookup_entry mgr)
  by_contra hsome
  obtain ⟨m, hm⟩ := Option.ne_none_iff_exists'.mp hsome
  obtain ⟨hin, hnot⟩ := (hlookup id m).mp hm
  exact hnot (List.mem_map_of_mem (AList.mem_lookup_iff.mp hin))

/-- The modules a call takes out of the registry. -/
def leaving (mgr : ModuleManager) : ModuleOp → List Module
  | .add m => (mgr.modules.lookup m.id).toList
  | .del name => (mgr.modules.lookup name).toList
  | .delAll => mgr.modules.entries.map Sigma.snd

theorem unloaded_exec (mgr : ModuleManager) (op : ModuleOp) :
    (mgr.exec op).unloaded = mgr.unloaded ++ mgr.leaving op := by
  cases op with
  | add m => exact unloaded_del
  | del name => exact unloaded_del
  | delAll => exact (foldl_del mgr.modules.nodupKeys (lookup_entry mgr)).2

/-- A call adds the module it is made with, and keeps those it does not remove. -/
theorem lookup_exec : (mgr.exec op).modules.lookup id = some m ↔
    (op = .add m ∧ m.id = id) ∨ mgr.modules.lookup id = some m ∧ ¬ op.Removes id := by
  cases op with
  | add new =>
      have hmodules : (mgr.exec (.add new)).modules =
          (mgr.del new.id).modules.insert new.id new := rfl
      rw [hmodules, ModuleOp.add.injEq]
      by_cases hid : id = new.id
      · rw [hid, AList.lookup_insert, Option.some.injEq]
        constructor
        · rintro rfl
          exact Or.inl ⟨rfl, rfl⟩
        · rintro (⟨rfl, _⟩ | ⟨_, hnot⟩)
          · rfl
          · exact absurd rfl hnot
      · rw [AList.lookup_insert_ne hid, lookup_del]
        constructor
        · exact fun h => Or.inr h
        · rintro (⟨rfl, heq⟩ | h)
          · exact absurd heq.symm hid
          · exact h
  | del name =>
      rw [exec, lookup_del]
      constructor
      · exact fun h => Or.inr h
      · rintro (⟨hop, _⟩ | h)
        · cases hop
        · exact h
  | delAll =>
      rw [exec, lookup_delAll]
      refine iff_of_false (fun h => Option.some_ne_none m h.symm) ?_
      rintro (⟨hop, _⟩ | ⟨_, hnot⟩)
      · cases hop
      · exact hnot trivial

end Modules

/-! ## The invariant -/

/-- The two maps hold the same modules. -/
structure Indexed (mgr : ModuleManager) : Prop where
  ids : ∀ id m, mgr.modules.lookup id = some m → m.id = id
  types : ∀ type id m, (ofType mgr.type2Modules type).lookup id = some m ↔
    mgr.modules.lookup id = some m ∧ m.type = type
  noneEmpty : NoneEmpty mgr.type2Modules

section Indexed

variable {mgr : ModuleManager} {op : ModuleOp} {m : Module}

theorem new_indexed : new.Indexed where
  ids := fun _ _ h => by cases h
  types := fun _ _ _ => iff_of_false (fun h => by cases h) (fun h => by cases h.1)
  noneEmpty := fun _ _ h => by cases h

theorem Indexed.del (h : mgr.Indexed) (name : List UInt8) : (mgr.del name).Indexed := by
  refine ⟨?_, ?_, ?_⟩
  · intro id m hlookup
    exact h.ids id m (lookup_del.mp hlookup).1
  · intro type id m
    rw [lookup_del]
    cases hname : mgr.modules.lookup name with
    | none =>
        have hsame : mgr.del name = mgr := by
          rw [ModuleManager.del, hname]
        rw [hsame, h.types]
        refine and_congr_left fun _ => (and_iff_left_of_imp fun hid => ?_).symm
        rintro rfl
        rw [hname] at hid
        cases hid
    | some old =>
        have htypes : (mgr.del name).type2Modules =
            eraseOfType mgr.type2Modules old.type old.id := by
          rw [ModuleManager.del, hname]
        have hold := h.ids name old hname
        rw [htypes, lookup_ofType_erase, h.types, hold]
        constructor
        · rintro ⟨⟨hid, rfl⟩, hnot⟩
          refine ⟨⟨hid, ?_⟩, rfl⟩
          rintro rfl
          rw [hname] at hid
          exact hnot ⟨congrArg Module.type (Option.some.inj hid).symm, rfl⟩
        · rintro ⟨⟨hid, hne⟩, htype⟩
          exact ⟨⟨hid, htype⟩, fun hboth => hne hboth.2.symm⟩
  · rw [ModuleManager.del]
    cases mgr.modules.lookup name with
    | none => exact h.noneEmpty
    | some old => exact h.noneEmpty.eraseOfType

theorem Indexed.add (h : mgr.Indexed) (m : Module) : (mgr.add m).Indexed := by
  have hdel := h.del m.id
  have habsent : (mgr.del m.id).modules.lookup m.id = none := by
    by_contra hsome
    obtain ⟨old, hold⟩ := Option.ne_none_iff_exists'.mp hsome
    exact (lookup_del.mp hold).2 rfl
  refine ⟨?_, ?_, ?_⟩
  · intro id m' hlookup
    have hmodules : (mgr.add m).modules = (mgr.del m.id).modules.insert m.id m := rfl
    rw [hmodules] at hlookup
    by_cases hid : id = m.id
    · rw [hid, AList.lookup_insert] at hlookup
      rw [← Option.some.inj hlookup, hid]
    · rw [AList.lookup_insert_ne hid] at hlookup
      exact hdel.ids id m' hlookup
  · intro type id m'
    change (ofType ((mgr.del m.id).type2Modules.insert m.type
        ((ofType (mgr.del m.id).type2Modules m.type).insert m.id m)) type).lookup id = some m' ↔
      ((mgr.del m.id).modules.insert m.id m).lookup id = some m' ∧ m'.type = type
    rw [ofType_insert]
    by_cases hid : id = m.id
    · rw [hid, AList.lookup_insert, Option.some.injEq]
      by_cases htype : type = m.type
      · rw [if_pos htype, AList.lookup_insert, Option.some.injEq, htype]
        exact (and_iff_left_of_imp fun heq => congrArg Module.type heq.symm).symm
      · have hnone : ¬ (ofType (mgr.del m.id).type2Modules type).lookup m.id = some m' := by
          rw [hdel.types, habsent]
          exact fun hsome => Option.some_ne_none m' hsome.1.symm
        rw [if_neg htype]
        refine iff_of_false hnone ?_
        rintro ⟨rfl, heq⟩
        exact htype heq.symm
    · rw [AList.lookup_insert_ne hid, ← hdel.types]
      by_cases htype : type = m.type
      · rw [if_pos htype, AList.lookup_insert_ne hid, htype]
      · rw [if_neg htype]
  · apply hdel.noneEmpty.insert
    intro hnil
    have hlookup := AList.lookup_insert (a := m.id) (b := m)
      (ofType (mgr.del m.id).type2Modules m.type)
    rw [hnil] at hlookup
    cases hlookup

theorem Indexed.foldl_del {entries : List ((_ : List UInt8) × Module)} (h : mgr.Indexed) :
    (entries.foldl (fun mgr e => mgr.del e.1) mgr).Indexed := by
  induction entries generalizing mgr with
  | nil => exact h
  | cons e entries ih => exact ih (h.del e.1)

/-- Every call keeps the invariant. -/
theorem Indexed.exec (h : mgr.Indexed) (op : ModuleOp) : (mgr.exec op).Indexed := by
  cases op with
  | add m => exact h.add m
  | del name => exact h.del name
  | delAll => exact h.foldl_del

/-- A module is found under its own id only. -/
theorem Indexed.lookup_iff (h : mgr.Indexed) {name : List UInt8} :
    m ∈ (mgr.modules.lookup name).toList ↔ mgr.modules.lookup m.id = some m ∧ name = m.id := by
  rw [Option.mem_toList]
  constructor
  · intro hm
    have hid := h.ids name m hm
    rw [hid]
    exact ⟨hm, rfl⟩
  · rintro ⟨hm, rfl⟩
    exact hm

theorem Indexed.mem_leaving (h : mgr.Indexed) :
    m ∈ mgr.leaving op ↔ mgr.modules.lookup m.id = some m ∧ op.Removes m.id := by
  cases op with
  | add new => exact h.lookup_iff
  | del name => exact h.lookup_iff
  | delAll =>
      rw [leaving, List.mem_map]
      constructor
      · rintro ⟨e, he, rfl⟩
        have hm := lookup_entry mgr e he
        rw [h.ids e.1 e.2 hm]
        exact ⟨hm, trivial⟩
      · rintro ⟨hm, _⟩
        exact ⟨⟨m.id, m⟩, AList.mem_lookup_iff.mp hm, rfl⟩

/-- The modules of a map under their ids differ. -/
theorem nodup_values {modules : ModuleMap} (hids : ∀ id m, modules.lookup id = some m → m.id = id) :
    (modules.entries.map Sigma.snd).Nodup := by
  apply List.Nodup.of_map Module.id
  have hkeys : (modules.entries.map Sigma.snd).map Module.id = modules.keys := by
    rw [List.map_map]
    apply List.map_congr_left
    intro e he
    exact hids e.1 e.2 (AList.mem_lookup_iff.mpr he)
  rw [hkeys]
  exact modules.keys_nodup

theorem Indexed.nodup_leaving (h : mgr.Indexed) (op : ModuleOp) : (mgr.leaving op).Nodup := by
  cases op with
  | add m => exact Option.toList_nodup _
  | del name => exact Option.toList_nodup _
  | delAll => exact nodup_values h.ids

theorem Indexed.listByType_eq (mgr : ModuleManager) (type : UInt32) :
    mgr.listByType type = (ofType mgr.type2Modules type).entries.map Sigma.snd := by
  rw [listByType, ofType]
  cases mgr.type2Modules.lookup type with
  | none => rfl
  | some modules => rfl

theorem Indexed.nodup_listByType (h : mgr.Indexed) (type : UInt32) :
    (mgr.listByType type).Nodup := by
  rw [listByType_eq]
  apply nodup_values
  intro id m hm
  exact h.ids id m ((h.types type id m).mp hm).1

theorem Indexed.mem_listByType (h : mgr.Indexed) {type : UInt32} :
    m ∈ mgr.listByType type ↔ mgr.modules.lookup m.id = some m ∧ m.type = type := by
  rw [listByType_eq, ← h.types, List.mem_map]
  constructor
  · rintro ⟨e, he, rfl⟩
    have hm := AList.mem_lookup_iff.mpr he
    have hid := h.ids e.1 e.2 ((h.types type e.1 e.2).mp hm).1
    rw [hid]
    exact hm
  · intro hm
    exact ⟨⟨m.id, m⟩, AList.mem_lookup_iff.mp hm, rfl⟩

/-- How often a module is in the registry, which is once or not at all. -/
def copies (mgr : ModuleManager) (m : Module) : Nat := (mgr.get m.id).toList.count m

theorem copies_of_lookup (hm : mgr.modules.lookup m.id = some m) : mgr.copies m = 1 := by
  rw [copies, get, hm, Option.toList_some, List.count_singleton_self]

theorem copies_of_not_lookup (hm : ¬ mgr.modules.lookup m.id = some m) : mgr.copies m = 0 := by
  rw [copies, get, List.count_eq_zero, Option.mem_toList]
  exact hm

theorem removes_of_add (hop : op = .add m) : op.Removes m.id := by
  rw [hop]
  rfl

/-- One call: what leaves and what is there afterwards is what was there and what is added. -/
theorem Indexed.count_exec (h : mgr.Indexed) (op : ModuleOp) (m : Module) :
    (mgr.leaving op).count m + (mgr.exec op).copies m = mgr.copies m + [op].count (.add m) := by
  by_cases hremoves : op.Removes m.id
  · -- the module leaves if it was there
    have hleaves : (mgr.leaving op).count m = mgr.copies m := by
      by_cases hin : mgr.modules.lookup m.id = some m
      · rw [copies_of_lookup hin]
        exact List.count_eq_one_of_mem (h.nodup_leaving op) (h.mem_leaving.mpr ⟨hin, hremoves⟩)
      · rw [copies_of_not_lookup hin, List.count_eq_zero]
        exact fun hmem => hin (h.mem_leaving.mp hmem).1
    have hafter : (mgr.exec op).copies m = [op].count (.add m) := by
      by_cases hop : op = .add m
      · rw [copies_of_lookup (lookup_exec.mpr (Or.inl ⟨hop, rfl⟩)), hop, List.count_singleton_self]
      · rw [copies_of_not_lookup, List.count_eq_zero.mpr (by simpa using Ne.symm hop)]
        rw [lookup_exec]
        rintro (⟨hnew, _⟩ | ⟨_, hnot⟩)
        · exact hop hnew
        · exact hnot hremoves
    rw [hleaves, hafter]
  · -- it stays if it was there
    have hop : ¬ op = .add m := fun hop => hremoves (removes_of_add hop)
    have hleaves : (mgr.leaving op).count m = 0 := by
      rw [List.count_eq_zero]
      exact fun hmem => hremoves (h.mem_leaving.mp hmem).2
    have hafter : (mgr.exec op).copies m = mgr.copies m := by
      have hsame : (mgr.exec op).modules.lookup m.id = some m ↔
          mgr.modules.lookup m.id = some m := by
        rw [lookup_exec, and_iff_left hremoves]
        exact or_iff_right fun hnew => hop hnew.1
      by_cases hin : mgr.modules.lookup m.id = some m
      · rw [copies_of_lookup hin, copies_of_lookup (hsame.mpr hin)]
      · rw [copies_of_not_lookup hin, copies_of_not_lookup (mt hsame.mp hin)]
    rw [hleaves, hafter, List.count_eq_zero.mpr (by simpa using Ne.symm hop)]
    omega

end Indexed

/-! ## Histories -/

section Histories

variable {history : List ModuleOp} {op : ModuleOp} {id : List UInt8} {m : Module}

theorem after_indexed (history : List ModuleOp) : (after history).Indexed := by
  induction history using List.reverseRecOn with
  | nil => exact new_indexed
  | append_singleton history op ih =>
      rw [after_concat]
      exact ih.exec op

/-- By induction over the history, from its end. -/
theorem lookup_after : (after history).modules.lookup id = some m ↔
    m.id = id ∧ ∃ i, LiveModule history m i := by
  induction history using List.reverseRecOn generalizing id m with
  | nil =>
      refine iff_of_false (fun h => by cases h) ?_
      rintro ⟨_, i, hlive⟩
      exact not_live_nil hlive
  | append_singleton history op ih =>
      rw [after_concat, lookup_exec, ih]
      constructor
      · rintro (⟨rfl, hid⟩ | ⟨⟨rfl, i, hlive⟩, hstays⟩)
        · exact ⟨hid, history.length, live_concat.mpr (Or.inl ⟨rfl, rfl⟩)⟩
        · exact ⟨rfl, i, live_concat.mpr (Or.inr ⟨hlive, hstays⟩)⟩
      · rintro ⟨rfl, i, hlive⟩
        rcases live_concat.mp hlive with ⟨_, hnew⟩ | ⟨hold, hstays⟩
        · exact Or.inl ⟨hnew, rfl⟩
        · exact Or.inr ⟨⟨rfl, i, hold⟩, hstays⟩

theorem lookup_own_id : (after history).modules.lookup m.id = some m ↔
    ∃ i, LiveModule history m i := by
  rw [lookup_after]
  exact and_iff_right rfl

theorem count_after (history : List ModuleOp) (m : Module) :
    (after history).unloaded.count m + (after history).copies m = history.count (.add m) := by
  induction history using List.reverseRecOn with
  | nil => rfl
  | append_singleton history op ih =>
      have hstep := (after_indexed history).count_exec op m
      rw [after_concat, unloaded_exec, List.count_append, List.count_append, ← ih]
      omega

theorem delAll_empty (history : List ModuleOp) :
    (after (history ++ [.delAll])).modules = ∅ ∧
      (after (history ++ [.delAll])).type2Modules = ∅ := by
  have hindexed := after_indexed (history ++ [.delAll])
  have hnone : ∀ id, (after (history ++ [.delAll])).modules.lookup id = none := by
    intro id
    rw [after_concat]
    exact lookup_delAll
  constructor
  · apply AList.ext
    rw [AList.empty_entries, List.eq_nil_iff_forall_not_mem]
    intro e he
    have hlookup := AList.mem_lookup_iff.mpr he
    rw [hnone] at hlookup
    cases hlookup
  · apply AList.ext
    rw [AList.empty_entries, List.eq_nil_iff_forall_not_mem]
    intro e he
    have htype : (after (history ++ [.delAll])).type2Modules.lookup e.1 = some e.2 :=
      AList.mem_lookup_iff.mpr he
    apply hindexed.noneEmpty e.1 e.2 htype
    apply AList.ext
    rw [AList.empty_entries, List.eq_nil_iff_forall_not_mem]
    intro e' he'
    have hin : (ofType (after (history ++ [.delAll])).type2Modules e.1).lookup e'.1 =
        some e'.2 := by
      rw [ofType, htype, Option.getD_some]
      exact AList.mem_lookup_iff.mpr he'
    have hlookup := ((hindexed.types _ _ _).mp hin).1
    rw [hnone] at hlookup
    cases hlookup

end Histories

/-- What the registry holds after a history of calls. -/
structure Registered (history : List ModuleOp) (mgr : ModuleManager) : Prop where
  /-- an id leads to the module added last under it and not removed since -/
  latest : ∀ id m, mgr.modules.lookup id = some m ↔ m.id = id ∧ ∃ i, LiveModule history m i
  /-- a type leads to the modules of the type under their ids -/
  index : ∀ type id m,
    (∃ modules, mgr.type2Modules.lookup type = some modules ∧ modules.lookup id = some m) ↔
      mgr.modules.lookup id = some m ∧ m.type = type
  noneEmpty : ∀ type modules, mgr.type2Modules.lookup type = some modules → modules ≠ ∅
  listed : ∀ type, (mgr.listByType type).Nodup ∧
    ∀ m, m ∈ mgr.listByType type ↔ (∃ i, LiveModule history m i) ∧ m.type = type
  /-- one more call unloads each module once that it takes out of the registry -/
  unloads : ∀ op, ∃ left, (mgr.exec op).unloaded = mgr.unloaded ++ left ∧ left.Nodup ∧
    ∀ m, m ∈ left ↔ (∃ i, LiveModule history m i) ∧ op.Removes m.id
  /-- as often as a module was added it was unloaded, but for being there -/
  balance : ∀ m, mgr.unloaded.count m + mgr.copies m = history.count (.add m)
  emptied : (mgr.exec .delAll).modules = ∅ ∧ (mgr.exec .delAll).type2Modules = ∅

theorem after_registered (history : List ModuleOp) : Registered history (after history) where
  latest := fun _ _ => lookup_after
  index := by
    intro type id m
    rw [← (after_indexed history).types, ofType]
    cases (after history).type2Modules.lookup type with
    | none => simp
    | some modules => simp
  noneEmpty := (after_indexed history).noneEmpty
  listed := by
    intro type
    refine ⟨(after_indexed history).nodup_listByType type, fun m => ?_⟩
    rw [(after_indexed history).mem_listByType, lookup_own_id]
  unloads := by
    intro op
    refine ⟨(after history).leaving op, unloaded_exec _ op,
      (after_indexed history).nodup_leaving op, fun m => ?_⟩
    rw [(after_indexed history).mem_leaving, lookup_own_id]
  balance := count_after history
  emptied := by
    have hempty := delAll_empty history
    rwa [after_concat] at hempty

end ModuleManager

end Lyslg
