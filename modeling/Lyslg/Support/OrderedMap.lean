import Mathlib.Data.List.Basic
/-!
# Ordered maps with a comparator

An ordered map as the list of its entries, with a comparator `lt` of keys that may hold
different keys for the same.  `insert` keeps what the map has for a key; from an empty map,
the entries inserted one after the other leave the first one of each key.  `assign` replaces it,
and leaves the last one.
-/

namespace Lyslg.Support.OrderedMap

variable {κ ν : Type*} {lt : κ → κ → Bool}

/-- Neither of two keys is before the other one. -/
def same (lt : κ → κ → Bool) (a b : κ) : Bool := !lt a b && !lt b a

/-- Insert an entry unless the key is there. -/
def insert (lt : κ → κ → Bool) (m : List (κ × ν)) (key : κ) (val : ν) : List (κ × ν) :=
  match m with
  | [] => [(key, val)]
  | (k, v) :: rest =>
      if lt key k then (key, val) :: (k, v) :: rest
      else if lt k key then (k, v) :: insert lt rest key val
      else (k, v) :: rest

def find (lt : κ → κ → Bool) (m : List (κ × ν)) (key : κ) : Option ν :=
  (m.find? fun entry => same lt entry.1 key).map Prod.snd

/-- The entries one after the other. -/
def insertAll (lt : κ → κ → Bool) (m entries : List (κ × ν)) : List (κ × ν) :=
  entries.foldl (fun m entry => insert lt m entry.1 entry.2) m

/-- A strict order in which keys that are the same compare alike. -/
structure StrictWeak (lt : κ → κ → Bool) : Prop where
  irrefl : ∀ a, lt a a = false
  trans : ∀ {a b c}, lt a b = true → lt b c = true → lt a c = true
  congr : ∀ {a b}, same lt a b = true → ∀ c, lt a c = lt b c ∧ lt c a = lt c b

def Sorted (lt : κ → κ → Bool) (m : List (κ × ν)) : Prop :=
  m.Pairwise fun a b => lt a.1 b.1 = true

theorem same_comm (a b : κ) : same lt a b = same lt b a := Bool.and_comm _ _

theorem same_of_not {a b : κ} (hab : ¬ lt a b = true) (hba : ¬ lt b a = true) :
    same lt a b = true := by
  rw [same, Bool.eq_false_iff.mpr hab, Bool.eq_false_iff.mpr hba]
  rfl

theorem not_same_of_lt {a b : κ} (h : lt a b = true) : same lt a b = false := by
  rw [same, h]
  rfl

namespace StrictWeak

variable {a b : κ}

theorem same_refl (h : StrictWeak lt) (a : κ) : same lt a a = true := by
  rw [same, h.irrefl]
  rfl

theorem same_congr (h : StrictWeak lt) (hab : same lt a b = true) (c : κ) :
    same lt a c = same lt b c := by
  rw [same, same, (h.congr hab c).1, (h.congr hab c).2]

end StrictWeak

/-! ## What is in the map -/

section

variable {m entries : List (κ × ν)} {k key : κ} {val : ν} {entry : κ × ν}

theorem mem_of_mem_insert (hmem : entry ∈ insert lt m key val) :
    entry ∈ m ∨ entry = (key, val) := by
  induction m with
  | nil => exact .inr (List.mem_singleton.mp hmem)
  | cons first rest ih =>
      obtain ⟨k, v⟩ := first
      rw [insert] at hmem
      split at hmem
      · exact (List.mem_cons.mp hmem).symm
      · split at hmem
        · rcases List.mem_cons.mp hmem with rfl | hmem
          · exact .inl List.mem_cons_self
          · exact (ih hmem).imp (List.mem_cons_of_mem _) id
        · exact .inl hmem

/-- What is in the map stays. -/
theorem mem_insert (hmem : entry ∈ m) (key : κ) (val : ν) : entry ∈ insert lt m key val := by
  induction m with
  | nil => cases hmem
  | cons first rest ih =>
      obtain ⟨k, v⟩ := first
      rw [insert]
      split
      · exact List.mem_cons_of_mem _ hmem
      · split
        · rcases List.mem_cons.mp hmem with rfl | hmem
          · exact List.mem_cons_self
          · exact List.mem_cons_of_mem _ (ih hmem)
        · exact hmem

theorem exists_same_insert (h : StrictWeak lt) (m : List (κ × ν)) (key : κ) (val : ν) :
    ∃ entry ∈ insert lt m key val, same lt entry.1 key = true := by
  induction m with
  | nil => exact ⟨(key, val), List.mem_cons_self, h.same_refl key⟩
  | cons first rest ih =>
      obtain ⟨k, v⟩ := first
      rw [insert]
      split
      · exact ⟨(key, val), List.mem_cons_self, h.same_refl key⟩
      · split
        · obtain ⟨entry, hmem, hsame⟩ := ih
          exact ⟨entry, List.mem_cons_of_mem _ hmem, hsame⟩
        · rename_i hbefore hafter
          exact ⟨(k, v), List.mem_cons_self, same_of_not hafter hbefore⟩

theorem mem_of_mem_insertAll (hmem : entry ∈ insertAll lt m entries) :
    entry ∈ m ∨ entry ∈ entries := by
  induction entries generalizing m with
  | nil => exact .inl hmem
  | cons first rest ih =>
      rcases ih hmem with hmem | hmem
      · refine (mem_of_mem_insert hmem).imp id fun heq => ?_
        rw [heq]
        exact List.mem_cons_self
      · exact .inr (List.mem_cons_of_mem _ hmem)

theorem mem_insertAll (hmem : entry ∈ m) (entries : List (κ × ν)) :
    entry ∈ insertAll lt m entries := by
  induction entries generalizing m with
  | nil => exact hmem
  | cons first rest ih => exact ih (mem_insert hmem _ _)

/-- Every key that was inserted has an entry. -/
theorem exists_same_insertAll (h : StrictWeak lt) (hmem : entry ∈ entries) :
    ∃ entry' ∈ insertAll lt m entries, same lt entry'.1 entry.1 = true := by
  induction entries generalizing m with
  | nil => cases hmem
  | cons first rest ih =>
      rcases List.mem_cons.mp hmem with rfl | hmem
      · obtain ⟨entry', hmem', hsame⟩ := exists_same_insert h m entry.1 entry.2
        exact ⟨entry', mem_insertAll hmem' rest, hsame⟩
      · exact ih hmem

/-! ## What is found -/

theorem Sorted.insert (h : StrictWeak lt) (hm : Sorted lt m) : Sorted lt (insert lt m key val) := by
  induction m with
  | nil => exact List.pairwise_singleton _ _
  | cons first rest ih =>
      obtain ⟨k, v⟩ := first
      obtain ⟨hfirst, hrest⟩ := List.pairwise_cons.mp hm
      rw [OrderedMap.insert]
      split
      · rename_i hbefore
        refine List.pairwise_cons.mpr ⟨fun entry hmem => ?_, hm⟩
        rcases List.mem_cons.mp hmem with rfl | hmem
        · exact hbefore
        · exact h.trans hbefore (hfirst entry hmem)
      · split
        · rename_i hafter
          refine List.pairwise_cons.mpr ⟨fun entry hmem => ?_, ih hrest⟩
          rcases mem_of_mem_insert hmem with hmem | rfl
          · exact hfirst entry hmem
          · exact hafter
        · exact hm

theorem find_cons (first : κ × ν) (rest : List (κ × ν)) (k : κ) :
    find lt (first :: rest) k = if same lt first.1 k then some first.2 else find lt rest k := by
  rw [find, List.find?_cons]
  cases same lt first.1 k <;> rfl

theorem find_none (hnone : ∀ entry ∈ m, same lt entry.1 k = false) : find lt m k = none := by
  rw [find, Option.map_eq_none_iff, List.find?_eq_none]
  intro entry hmem
  exact Bool.eq_false_iff.mp (hnone entry hmem)

/-- An entry is found if its key was not there. -/
theorem find_insert (h : StrictWeak lt) (hm : Sorted lt m) (key : κ) (val : ν) (k : κ) :
    find lt (OrderedMap.insert lt m key val) k =
      (find lt m k).or (if same lt key k then some val else none) := by
  induction m with
  | nil => exact find_cons (key, val) [] k
  | cons first rest ih =>
      obtain ⟨k₀, v₀⟩ := first
      obtain ⟨hfirst, hrest⟩ := List.pairwise_cons.mp hm
      rw [OrderedMap.insert]
      split
      · rename_i hbefore
        rw [find_cons]
        by_cases hkey : same lt key k = true
        · have hnone : find lt ((k₀, v₀) :: rest) k = none := by
            refine find_none fun entry hmem => ?_
            have hlt : lt key entry.1 = true := by
              rcases List.mem_cons.mp hmem with rfl | hmem
              · exact hbefore
              · exact h.trans hbefore (hfirst entry hmem)
            rw [(h.congr hkey entry.1).1] at hlt
            rw [same_comm]
            exact not_same_of_lt hlt
          rw [if_pos hkey, if_pos hkey, hnone, Option.none_or]
        · rw [if_neg hkey, if_neg hkey, Option.or_none]
      · rename_i hbefore
        split
        · rw [find_cons, find_cons, ih hrest]
          split
          · rw [Option.some_or]
          · rfl
        · rename_i hafter
          by_cases hkey : same lt key k = true
          · have hk₀ : same lt k₀ k = true := by
              rw [h.same_congr (same_of_not hafter hbefore) k]
              exact hkey
            rw [find_cons, if_pos hk₀, Option.some_or]
          · rw [if_neg hkey, Option.or_none]

/-- From a map on, the first entry of each key counts. -/
theorem find_insertAll (h : StrictWeak lt) (hm : Sorted lt m) (entries : List (κ × ν)) (k : κ) :
    find lt (insertAll lt m entries) k = (find lt m k).or (find lt entries k) := by
  induction entries generalizing m with
  | nil => rw [find_none (m := []) fun _ h => absurd h List.not_mem_nil, Option.or_none]; rfl
  | cons first rest ih =>
      have hfold : insertAll lt m (first :: rest) =
          insertAll lt (OrderedMap.insert lt m first.1 first.2) rest := rfl
      rw [hfold, ih (hm.insert h), find_insert h hm, find_cons, Option.or_assoc]
      split
      · rw [Option.some_or]
      · rw [Option.none_or]

end

/-! ## Assignment -/

/-- The value of a key, over one that is there. -/
def assign (lt : κ → κ → Bool) (m : List (κ × ν)) (key : κ) (val : ν) : List (κ × ν) :=
  match m with
  | [] => [(key, val)]
  | (k, v) :: rest =>
      if lt key k then (key, val) :: (k, v) :: rest
      else if lt k key then (k, v) :: assign lt rest key val
      else (k, val) :: rest

/-- The entries one after the other. -/
def assignAll (lt : κ → κ → Bool) (m entries : List (κ × ν)) : List (κ × ν) :=
  entries.foldl (fun m entry => assign lt m entry.1 entry.2) m

section

variable {m entries : List (κ × ν)} {k key : κ} {val : ν} {entry : κ × ν}

/-- The keys are those of the insertion. -/
theorem keys_assign (m : List (κ × ν)) (key : κ) (val : ν) :
    (assign lt m key val).map Prod.fst = (OrderedMap.insert lt m key val).map Prod.fst := by
  induction m with
  | nil => rfl
  | cons first rest ih =>
      rw [assign, OrderedMap.insert]
      split
      · rfl
      · split
        · exact congrArg (List.cons first.1) ih
        · rfl

theorem sorted_iff_keys : Sorted lt m ↔ (m.map Prod.fst).Pairwise fun a b => lt a b = true := by
  rw [Sorted, List.pairwise_map]

theorem Sorted.assign (h : StrictWeak lt) (hm : Sorted lt m) :
    Sorted lt (OrderedMap.assign lt m key val) := by
  rw [sorted_iff_keys, keys_assign, ← sorted_iff_keys]
  exact hm.insert h

/-- The value assigned is found, and what was there for the other keys. -/
theorem find_assign (h : StrictWeak lt) (hm : Sorted lt m) (key : κ) (val : ν) (k : κ) :
    find lt (OrderedMap.assign lt m key val) k =
      if same lt key k then some val else find lt m k := by
  induction m with
  | nil => exact find_cons (key, val) [] k
  | cons first rest ih =>
      obtain ⟨k₀, v₀⟩ := first
      obtain ⟨hfirst, hrest⟩ := List.pairwise_cons.mp hm
      rw [OrderedMap.assign]
      split
      · exact find_cons (key, val) _ k
      · rename_i hbefore
        split
        · rename_i hafter
          rw [find_cons, find_cons, ih hrest]
          by_cases hkey : same lt key k = true
          · have hk₀ : same lt k₀ k = false := by
              rw [(h.congr hkey k₀).2] at hafter
              exact not_same_of_lt hafter
            rw [if_pos hkey, if_pos hkey, hk₀]
            exact if_neg Bool.false_ne_true
          · rw [if_neg hkey, if_neg hkey]
        · rename_i hafter
          have hsame : same lt k₀ k = same lt key k :=
            h.same_congr (same_of_not hafter hbefore) k
          rw [find_cons, find_cons, hsame]
          split <;> rfl

theorem Sorted.assignAll (h : StrictWeak lt) (hm : Sorted lt m) (entries : List (κ × ν)) :
    Sorted lt (OrderedMap.assignAll lt m entries) := by
  induction entries generalizing m with
  | nil => exact hm
  | cons first rest ih => exact ih (hm.assign h)

theorem forall_mem_assign {P : κ → Prop} {Q : ν → Prop} (hm : ∀ entry ∈ m, P entry.1 ∧ Q entry.2)
    (hkey : P key) (hval : Q val) :
    ∀ entry ∈ OrderedMap.assign lt m key val, P entry.1 ∧ Q entry.2 := by
  induction m with
  | nil => exact List.forall_mem_singleton.mpr ⟨hkey, hval⟩
  | cons first rest ih =>
      obtain ⟨hfirst, hrest⟩ := List.forall_mem_cons.mp hm
      rw [OrderedMap.assign]
      split
      · exact List.forall_mem_cons.mpr ⟨⟨hkey, hval⟩, hm⟩
      · split
        · exact List.forall_mem_cons.mpr ⟨hfirst, ih hrest⟩
        · exact List.forall_mem_cons.mpr ⟨⟨hfirst.1, hval⟩, hrest⟩

/-- Keys and values come from the map or from the entries, but not always together. -/
theorem forall_mem_assignAll {P : κ → Prop} {Q : ν → Prop}
    (hm : ∀ entry ∈ m, P entry.1 ∧ Q entry.2)
    (hentries : ∀ entry ∈ entries, P entry.1 ∧ Q entry.2) :
    ∀ entry ∈ OrderedMap.assignAll lt m entries, P entry.1 ∧ Q entry.2 := by
  induction entries generalizing m with
  | nil => exact hm
  | cons first rest ih =>
      obtain ⟨hfirst, hrest⟩ := List.forall_mem_cons.mp hentries
      exact ih (forall_mem_assign hm hfirst.1 hfirst.2) hrest

theorem find_append (m m' : List (κ × ν)) (k : κ) :
    find lt (m ++ m') k = (find lt m k).or (find lt m' k) := by
  rw [find, List.find?_append, Option.map_or]
  rfl

/-- In a sorted map, a key has one entry. -/
theorem Sorted.find_reverse (h : StrictWeak lt) (hm : Sorted lt m) (k : κ) :
    find lt m.reverse k = find lt m k := by
  induction m with
  | nil => rfl
  | cons first rest ih =>
      obtain ⟨hfirst, hrest⟩ := List.pairwise_cons.mp hm
      rw [List.reverse_cons, find_append, ih hrest, find_cons, find_cons]
      by_cases hkey : same lt first.1 k = true
      · have hnone : find lt rest k = none := by
          refine find_none fun entry hmem => ?_
          have hlt := hfirst entry hmem
          rw [(h.congr hkey entry.1).1] at hlt
          rw [same_comm]
          exact not_same_of_lt hlt
        rw [hnone, if_pos hkey, Option.none_or, if_pos hkey]
      · rw [if_neg hkey, if_neg hkey]
        exact Option.or_none

/-- From a map on, the last entry of each key counts. -/
theorem find_assignAll (h : StrictWeak lt) (hm : Sorted lt m) (entries : List (κ × ν)) (k : κ) :
    find lt (assignAll lt m entries) k = (find lt entries.reverse k).or (find lt m k) := by
  induction entries generalizing m with
  | nil => rfl
  | cons first rest ih =>
      have hfold : assignAll lt m (first :: rest) =
          assignAll lt (OrderedMap.assign lt m first.1 first.2) rest := rfl
      have hlast : find lt (first :: rest).reverse k =
          (find lt rest.reverse k).or (if same lt first.1 k then some first.2 else none) := by
        rw [List.reverse_cons, find_append, find_cons]
        rfl
      rw [hfold, ih (hm.assign h), find_assign h hm, hlast, Option.or_assoc]
      split <;> rfl

end

/-! ## Multimaps -/

/-- Insert an entry behind those of the same key. -/
def insertMulti (lt : κ → κ → Bool) : List (κ × ν) → κ → ν → List (κ × ν)
  | [], key, val => [(key, val)]
  | (k, v) :: rest, key, val =>
      if lt key k then (key, val) :: (k, v) :: rest else (k, v) :: insertMulti lt rest key val

/-- The entries one after the other. -/
def insertAllMulti (lt : κ → κ → Bool) (m entries : List (κ × ν)) : List (κ × ν) :=
  entries.foldl (fun m entry => insertMulti lt m entry.1 entry.2) m

section

variable {m m' entries entries' : List (κ × ν)} {key : κ} {val val' : ν}

theorem keys_insertMulti (h : m.map Prod.fst = m'.map Prod.fst) :
    (insertMulti lt m key val).map Prod.fst = (insertMulti lt m' key val').map Prod.fst := by
  induction m generalizing m' with
  | nil =>
      cases List.map_eq_nil_iff.mp h.symm
      rfl
  | cons entry rest ih =>
      obtain ⟨⟨k, v⟩, rest', rfl, rfl, hrest⟩ := List.map_eq_cons_iff.mp h.symm
      rw [insertMulti, insertMulti]
      split
      · exact congrArg (fun ks => key :: entry.1 :: ks) hrest.symm
      · exact congrArg (List.cons entry.1) (ih hrest.symm)

/-- What is inserted can be told from the result. -/
theorem insertMulti_inj (h : m.map Prod.fst = m'.map Prod.fst)
    (heq : insertMulti lt m key val = insertMulti lt m' key val') : m = m' ∧ val = val' := by
  induction m generalizing m' with
  | nil =>
      cases List.map_eq_nil_iff.mp h.symm
      cases heq
      exact ⟨rfl, rfl⟩
  | cons entry rest ih =>
      obtain ⟨k, v⟩ := entry
      obtain ⟨⟨k', v'⟩, rest', rfl, hkey, hrest⟩ := List.map_eq_cons_iff.mp h.symm
      cases hkey
      rw [insertMulti, insertMulti] at heq
      split at heq
      · cases heq
        exact ⟨rfl, rfl⟩
      · obtain ⟨hentry, htail⟩ := List.cons.inj heq
        obtain ⟨rfl, rfl⟩ := ih hrest.symm htail
        exact ⟨congrArg (fun entry => entry :: rest) hentry, rfl⟩

theorem insertAllMulti_inj (h : m.map Prod.fst = m'.map Prod.fst)
    (hkeys : entries.map Prod.fst = entries'.map Prod.fst)
    (heq : insertAllMulti lt m entries = insertAllMulti lt m' entries') :
    m = m' ∧ entries = entries' := by
  induction entries generalizing m m' entries' with
  | nil =>
      cases List.map_eq_nil_iff.mp hkeys.symm
      exact ⟨heq, rfl⟩
  | cons entry rest ih =>
      obtain ⟨⟨key, val'⟩, rest', rfl, rfl, hrest⟩ := List.map_eq_cons_iff.mp hkeys.symm
      obtain ⟨hm, rfl⟩ := ih (keys_insertMulti h) hrest.symm heq
      obtain ⟨rfl, hval⟩ := insertMulti_inj h hm
      exact ⟨rfl, congrArg (fun entry => entry :: rest) (Prod.ext rfl hval)⟩

end

end Lyslg.Support.OrderedMap
